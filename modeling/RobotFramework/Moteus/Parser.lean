import Mathlib.Tactic.Linarith
import RobotFramework.Moteus.Combiner

/-!
# `mjbots/moteus/moteus_multiplex.h`: `MultiplexParser`

The parser walks over the bytes of a frame and hands out the registers of a reply, one at a time;
whoever asked for one reads its value before asking for the next. What a frame holds is nothing the
parser may rely on. `frameValues` says it of any bytes: one header after another, and behind each the
values that are there in full. These the parser announces, one after another (`next_sound`), so that
reading them never runs over the end, and there are no others (`valuesWithin_eq`).
-/

namespace Moteus

def kNop : UInt8 := 0x50

namespace Resolution

theorem ofCode_ne_kIgnore (cmd : UInt8) : ofCode cmd ≠ kIgnore := by
  unfold ofCode
  split <;> simp

theorem size_pos (resolution : Resolution) : 0 < resolution.size := by
  cases resolution <;> decide

end Resolution

/-! ## Varuints -/

theorem last_byte : ∀ m < 128,
    UInt8.ofNat m &&& 0x80 = 0 ∧ (UInt8.ofNat m &&& 0x7f).toNat = m := by
  decide

theorem more_byte : ∀ m < 128,
    UInt8.ofNat (m + 128) &&& 0x80 ≠ 0 ∧ (UInt8.ofNat (m + 128) &&& 0x7f).toNat = m := by
  decide

theorem readVaruint_writeVaruint {bytes n : Nat} (h : n < 128 ^ (bytes + 1)) (tail : List UInt8) :
    readVaruint (bytes + 1) (writeVaruint (bytes + 1) n ++ tail) = (n, tail) := by
  induction bytes generalizing n with
  | zero =>
    obtain ⟨hlast, hvalue⟩ := last_byte n (by omega)
    have hdiv : n / 128 = 0 := by omega
    have hmod : n % 128 = n := by omega
    rw [writeVaruint, if_pos hdiv, hmod, List.singleton_append, readVaruint, if_pos hlast, hvalue]
  | succ bytes ih =>
    rw [writeVaruint]
    split
    · rename_i hdiv
      obtain ⟨hlast, hvalue⟩ := last_byte n (by omega)
      have hmod : n % 128 = n := by omega
      rw [hmod, List.singleton_append, readVaruint, if_pos hlast, hvalue]
    · obtain ⟨hmore, hvalue⟩ := more_byte (n % 128) (Nat.mod_lt _ (by decide))
      have hlt : n / 128 < 128 ^ (bytes + 1) := by
        rw [Nat.pow_succ] at h
        omega
      rw [List.cons_append, readVaruint, if_neg hmore, hvalue, ih hlt]
      show (n % 128 + 128 * (n / 128), tail) = (n, tail)
      rw [Nat.mod_add_div]

theorem writeVaruint_ne_nil (bytes n : Nat) : writeVaruint (bytes + 1) n ≠ [] := by
  rw [writeVaruint]
  split <;> simp

theorem readVaruint_suffix (n : Nat) (bytes : List UInt8) : (readVaruint n bytes).2 <:+ bytes := by
  induction n generalizing bytes with
  | zero => exact List.suffix_rfl
  | succ n ih =>
    cases bytes with
    | nil => exact List.suffix_rfl
    | cons b bytes =>
      rw [readVaruint]
      split
      · exact List.suffix_cons b bytes
      · exact (ih bytes).trans (List.suffix_cons b bytes)

/-! ## The parser -/

/-- `MultiplexParser`, with the bytes from `offset_` on instead of the offset. -/
structure MultiplexParser where
  rest : List UInt8
  remaining : Int := 0
  currentResolution : Resolution := .kIgnore
  currentRegister : Nat := 0

/-- `MultiplexParser::Result` -/
inductive Next where
  | done
  | value (register : Nat) (resolution : Resolution)
deriving DecidableEq

namespace MultiplexParser

/-- A run of `count` registers begins: its first register stands in front of `rest`. -/
def begin (p : MultiplexParser) (count : Int) (rest : List UInt8) : Next × MultiplexParser :=
  let register := (readVaruint 5 rest).1 % 65536
  let rest := (readVaruint 5 rest).2
  let remaining := (count - 1).bmod 256
  if rest.length < p.currentResolution.size then
    (.done, { p with rest, remaining, currentRegister := register })
  else
    (.value register p.currentResolution,
      { p with rest, remaining, currentRegister := (register + 1) % 65536 })

/-- The loop of `next` that looks for another command. -/
def scan : List UInt8 → MultiplexParser → Next × MultiplexParser
  | [], p => (.done, { p with rest := [] })
  | cmd :: rest, p =>
    if cmd = kNop then scan rest p
    else
      match rest with
      | [] => (.done, { p with rest := [] })
      | byte :: tail =>
        if 0x20 ≤ cmd ∧ cmd < 0x30 then
          let p := { p with currentResolution := Resolution.ofCode cmd }
          if cmd &&& 0x03 = 0 then
            -- The count stands in a byte of its own, and is an `int8_t`.
            match tail with
            | [] => (.done, { p with rest := [] })
            | _ :: _ =>
              if byte = 0 then scan tail p else p.begin ((byte.toNat : Int).bmod 256) tail
          else p.begin (cmd &&& 0x03).toNat (byte :: tail)
        else (.done, { p with rest := [] })

def next (p : MultiplexParser) : Next × MultiplexParser :=
  if p.rest = [] then (.done, p)
  else if p.remaining ≠ 0 then
    let q := { p with
      remaining := (p.remaining - 1).bmod 256
      currentRegister := (p.currentRegister + 1) % 65536 }
    if p.rest.length < p.currentResolution.size then (.done, q)
    else (.value p.currentRegister p.currentResolution, q)
  else scan p.rest p

/-- `Read`, of so many bytes. To read over the end is an `abort`. -/
def read (p : MultiplexParser) (size : Nat) : Option (List UInt8 × MultiplexParser) :=
  if p.rest.length < size then none
  else some (p.rest.take size, { p with rest := p.rest.drop size })

/-- A register of a reply, with the bytes of its value. -/
structure Raw where
  register : Nat
  resolution : Resolution
  bytes : List UInt8
deriving DecidableEq

/-- What there is to be read: `next` and `Read` in turn, in at most so many turns. -/
def valuesWithin : Nat → MultiplexParser → Option (List Raw)
  | 0, _ => none
  | turns + 1, p =>
    match p.next with
    | (.done, _) => some []
    | (.value register resolution, p) => do
      let (bytes, p) ← p.read resolution.size
      let rest ← valuesWithin turns p
      return ⟨register, resolution, bytes⟩ :: rest

def values (p : MultiplexParser) : Option (List Raw) := valuesWithin (p.rest.length + 1) p

end MultiplexParser

/-! ## What a frame holds -/

open MultiplexParser (Raw)

/-- A header of a reply: so many registers from this one on, all at one resolution. -/
structure Header where
  resolution : Resolution
  count : Nat
  register : Nat
deriving DecidableEq

/-- A value that can be read, and is all there. -/
def MultiplexParser.Raw.Ok (raw : Raw) : Prop :=
  raw.resolution ≠ .kIgnore ∧ raw.bytes.length = raw.resolution.size

namespace Header

/-- Behind the command byte and the count stands the first register. -/
def behind (cmd : UInt8) (count : Nat) (bytes : List UInt8) : Header × List UInt8 :=
  (⟨Resolution.ofCode cmd, count, (readVaruint 5 bytes).1 % 65536⟩, (readVaruint 5 bytes).2)

/-- The value of the `i`th register, in the bytes behind the header. -/
def value (h : Header) (bytes : List UInt8) (i : Nat) : Raw :=
  ⟨(h.register + i) % 65536, h.resolution,
    (bytes.drop (i * h.resolution.size)).take h.resolution.size⟩

/-- As many of the values announced as are there in full. -/
def values (h : Header) (bytes : List UInt8) : List Raw :=
  (List.range (min h.count (bytes.length / h.resolution.size))).map (h.value bytes)

/-- What stands behind the values. -/
def skip (h : Header) (bytes : List UInt8) : List UInt8 :=
  bytes.drop (h.count * h.resolution.size)

end Header

/-- The first header in these bytes, and what stands behind it. Padding is passed over, and so is a
header with the count zero; what is no header of a reply ends the frame. -/
def header? : List UInt8 → Option (Header × List UInt8)
  | [] => none
  | [_] => none
  | cmd :: count :: bytes =>
    if cmd = kNop then header? (count :: bytes)
    else if 0x20 ≤ cmd ∧ cmd < 0x30 then
      if cmd &&& 0x03 ≠ 0 then some (Header.behind cmd (cmd &&& 0x03).toNat (count :: bytes))
      else if bytes = [] then none
      else if count = 0 then header? bytes
      else some (Header.behind cmd count.toNat bytes)
    else none

theorem header?_nop (bytes : List UInt8) : header? (kNop :: bytes) = header? bytes := by
  cases bytes with
  | nil => rfl
  | cons count bytes => rw [header?, if_pos rfl]

theorem Header.behind_suffix (cmd : UInt8) (count : Nat) (bytes : List UInt8) :
    (Header.behind cmd count bytes).2 <:+ bytes :=
  readVaruint_suffix 5 bytes

/-- A header takes up a byte at least. -/
theorem header?_suffix {bytes rest : List UInt8} {h : Header}
    (hheader : header? bytes = some (h, rest)) :
    rest <:+ bytes ∧ rest.length < bytes.length ∧ h.resolution ≠ .kIgnore := by
  fun_induction header? bytes with
  | case1 => cases hheader
  | case2 => cases hheader
  | case3 count bytes ih =>
    obtain ⟨hsuffix, hlength, hres⟩ := ih hheader
    exact ⟨hsuffix.trans (List.suffix_cons _ _), Nat.lt_succ_of_lt hlength, hres⟩
  | case4 cmd count bytes hcmd hreply hcode =>
    obtain ⟨rfl, rfl⟩ := Prod.mk.inj (Option.some.inj hheader)
    have hsuffix := Header.behind_suffix cmd (cmd &&& 0x03).toNat (count :: bytes)
    exact ⟨hsuffix.trans (List.suffix_cons _ _), Nat.lt_succ_of_le hsuffix.length_le,
      Resolution.ofCode_ne_kIgnore cmd⟩
  | case5 => cases hheader
  | case6 cmd bytes hcmd hreply hcode hbytes ih =>
    obtain ⟨hsuffix, hlength, hres⟩ := ih hheader
    exact ⟨hsuffix.trans ((List.suffix_cons _ _).trans (List.suffix_cons _ _)),
      Nat.lt_succ_of_lt (Nat.lt_succ_of_lt hlength), hres⟩
  | case7 cmd count bytes hcmd hreply hcode hbytes hcount =>
    obtain ⟨rfl, rfl⟩ := Prod.mk.inj (Option.some.inj hheader)
    have hsuffix := Header.behind_suffix cmd count.toNat bytes
    exact ⟨hsuffix.trans ((List.suffix_cons _ _).trans (List.suffix_cons _ _)),
      Nat.lt_succ_of_lt (Nat.lt_succ_of_le hsuffix.length_le), Resolution.ofCode_ne_kIgnore cmd⟩
  | case8 => cases hheader

/-- The values in the bytes of a frame: of each header those that are there in full. -/
def frameValues (bytes : List UInt8) : List Raw :=
  match _ : header? bytes with
  | none => []
  | some (header, rest) => header.values rest ++ frameValues (header.skip rest)
termination_by bytes.length
decreasing_by
  have hlength := (header?_suffix ‹_›).2.1
  rw [Header.skip, List.length_drop]
  omega

namespace Header

/-- The values behind a header, and those of the headers that follow. -/
def ahead (h : Header) (bytes : List UInt8) : List Raw :=
  h.values bytes ++ frameValues (h.skip bytes)

theorem length_value {h : Header} {bytes : List UInt8} {i : Nat}
    (hi : i < bytes.length / h.resolution.size) :
    (h.value bytes i).bytes.length = h.resolution.size := by
  have hpos := h.resolution.size_pos
  have hroom : (i + 1) * h.resolution.size ≤ bytes.length :=
    (Nat.le_div_iff_mul_le hpos).mp hi
  rw [Nat.succ_mul] at hroom
  rw [value, List.length_take, List.length_drop]
  omega

theorem values_ok {h : Header} (hres : h.resolution ≠ .kIgnore) (bytes : List UInt8) :
    ∀ raw ∈ h.values bytes, raw.Ok := by
  intro raw hraw
  obtain ⟨i, hi, rfl⟩ := List.mem_map.mp hraw
  exact ⟨hres, length_value (Nat.lt_of_lt_of_le (List.mem_range.mp hi) (Nat.min_le_right _ _))⟩

/-- Nothing is left where the values are not all there. -/
theorem ahead_of_length_lt {h : Header} {bytes : List UInt8} (hcount : 0 < h.count)
    (hlength : bytes.length < h.resolution.size) : h.ahead bytes = [] := by
  have hdiv : bytes.length / h.resolution.size = 0 := Nat.div_eq_of_lt hlength
  have hskip : h.skip bytes = [] := by
    refine List.drop_eq_nil_of_le (hlength.le.trans ?_)
    exact Nat.le_mul_of_pos_left _ hcount
  rw [ahead, values, hdiv, Nat.min_zero, hskip, frameValues]
  rfl

@[simp] theorem ahead_zero (resolution : Resolution) (register : Nat) (bytes : List UInt8) :
    Header.ahead ⟨resolution, 0, register⟩ bytes = frameValues bytes := by
  simp [ahead, values, skip]

@[simp] theorem ahead_nil (h : Header) : h.ahead [] = [] := by
  have hnone : frameValues [] = [] := by
    rw [frameValues]
    rfl
  simp [ahead, values, skip, hnone]

/-- The first value, and then the rest of the run. -/
theorem ahead_succ {resolution : Resolution} {register : Nat} {bytes : List UInt8} (count : Nat)
    (hregister : register < 65536) (hroom : resolution.size ≤ bytes.length) :
    Header.ahead ⟨resolution, count + 1, register⟩ bytes =
      ⟨register, resolution, bytes.take resolution.size⟩ ::
        Header.ahead ⟨resolution, count, (register + 1) % 65536⟩ (bytes.drop resolution.size) := by
  have hpos := resolution.size_pos
  have hskip : Header.skip ⟨resolution, count + 1, register⟩ bytes =
      Header.skip ⟨resolution, count, (register + 1) % 65536⟩ (bytes.drop resolution.size) := by
    rw [skip, skip, List.drop_drop]
    congr 1
    show (count + 1) * resolution.size = resolution.size + count * resolution.size
    ring
  have hwhole : min (count + 1) (bytes.length / resolution.size) =
      min count ((bytes.drop resolution.size).length / resolution.size) + 1 := by
    rw [List.length_drop, Nat.div_eq_sub_div hpos hroom]
    omega
  have hfirst : Header.value ⟨resolution, count + 1, register⟩ bytes 0 =
      ⟨register, resolution, bytes.take resolution.size⟩ := by
    simp [value, Nat.mod_eq_of_lt hregister]
  have hrest : ∀ i, Header.value ⟨resolution, count + 1, register⟩ bytes (i + 1) =
      Header.value ⟨resolution, count, (register + 1) % 65536⟩ (bytes.drop resolution.size) i := by
    intro i
    rw [value, value, List.drop_drop, Nat.succ_mul, Nat.add_comm (i * _)]
    congr 1
    show (register + (i + 1)) % 65536 = ((register + 1) % 65536 + i) % 65536
    omega
  rw [ahead, ahead, hskip, values, values, hwhole, List.range_succ_eq_map, List.map_cons, hfirst,
    List.map_map, List.cons_append]
  congr 2
  exact List.map_congr_left fun i _ => hrest i

end Header

theorem frameValues_of_none {bytes : List UInt8} (h : header? bytes = none) :
    frameValues bytes = [] := by
  rw [frameValues]
  split
  · rfl
  · rename_i hheader
    rw [h] at hheader
    cases hheader

theorem frameValues_of_some {bytes rest : List UInt8} {h : Header}
    (hheader : header? bytes = some (h, rest)) : frameValues bytes = h.ahead rest := by
  rw [frameValues]
  split
  · rename_i hnone
    rw [hheader] at hnone
    cases hnone
  · rename_i header rest' hsome
    obtain ⟨rfl, rfl⟩ := Prod.mk.inj (Option.some.inj (hheader.symm.trans hsome))
    rfl

theorem frameValues_congr {bytes bytes' : List UInt8} (h : header? bytes = header? bytes') :
    frameValues bytes = frameValues bytes' := by
  cases hheader : header? bytes' with
  | none => rw [frameValues_of_none hheader, frameValues_of_none (h.trans hheader)]
  | some next => rw [frameValues_of_some hheader, frameValues_of_some (h.trans hheader)]

theorem frameValues_ok (bytes : List UInt8) : ∀ raw ∈ frameValues bytes, raw.Ok := by
  fun_induction frameValues bytes with
  | case1 => simp
  | case2 bytes header rest hheader ih =>
    intro raw hraw
    rcases List.mem_append.mp hraw with hraw | hraw
    · exact header.values_ok (header?_suffix hheader).2.2 rest raw hraw
    · exact ih raw hraw

theorem flatMap_range_take (bytes : List UInt8) (size n : Nat) :
    ((List.range n).flatMap fun i => (bytes.drop (i * size)).take size) = bytes.take (n * size) := by
  induction n with
  | zero => simp
  | succ n ih =>
    rw [List.range_succ, List.flatMap_append, ih, List.flatMap_singleton, Nat.succ_mul,
      List.take_add]

/-- The values stand in the frame one after another, no byte in two of them. -/
theorem frameValues_sublist (bytes : List UInt8) :
    ((frameValues bytes).flatMap Raw.bytes).Sublist bytes := by
  fun_induction frameValues bytes with
  | case1 => exact List.nil_sublist _
  | case2 bytes header rest hheader ih =>
    have hvalues : (header.values rest).flatMap Raw.bytes =
        rest.take (min header.count (rest.length / header.resolution.size) *
          header.resolution.size) := by
      rw [Header.values, List.flatMap_map, ← flatMap_range_take]
      rfl
    rw [List.flatMap_append, hvalues]
    refine List.Sublist.trans ?_ (header?_suffix hheader).1.sublist
    have hskip : header.skip rest <:+ rest.drop
        (min header.count (rest.length / header.resolution.size) * header.resolution.size) := by
      refine List.drop_suffix_drop_left rest ?_
      exact Nat.mul_le_mul_right _ (Nat.min_le_left _ _)
    conv_rhs => rw [← List.take_append_drop
      (min header.count (rest.length / header.resolution.size) * header.resolution.size) rest]
    exact (List.Sublist.refl _).append (ih.trans hskip.sublist)

namespace MultiplexParser

/-! ## The parser hands out what the frame holds -/

/-- What is left of the run that the parser is in, as a header of its own. The count is an `int8_t`,
and is counted down to zero from wherever it begins. -/
def run (p : MultiplexParser) : Header :=
  ⟨p.currentResolution, (p.remaining % 256).toNat, p.currentRegister⟩

/-- The values still to come. -/
def ahead (p : MultiplexParser) : List Raw := p.run.ahead p.rest

structure Wf (p : MultiplexParser) : Prop where
  /-- Inside a run the resolution is one that can be read. -/
  resolution : p.remaining ≠ 0 → p.currentResolution ≠ .kIgnore
  remaining : -128 ≤ p.remaining ∧ p.remaining < 128
  register : p.currentRegister < 65536

/-- A parser at the start of a frame. -/
theorem wf_new (bytes : List UInt8) : Wf { rest := bytes } where
  resolution h := absurd rfl h
  remaining := (by decide : (-128 : Int) ≤ 0 ∧ (0 : Int) < 128)
  register := (by decide : 0 < 65536)

theorem ahead_of_remaining_eq_zero {p : MultiplexParser} (h : p.remaining = 0) :
    p.ahead = frameValues p.rest := by
  rw [ahead, run, h]
  exact Header.ahead_zero _ _ _

/-- An announcement, where so many bytes and these values were ahead: of nothing only when nothing is
left, and of a value when it is the next and can be read. -/
def Sound (length : Nat) (values : List Raw) : Next × MultiplexParser → Prop
  | (.done, _) => values = []
  | (.value register resolution, p) =>
    resolution ≠ .kIgnore ∧ resolution.size ≤ p.rest.length ∧ p.rest.length ≤ length ∧ p.Wf ∧
      values = ⟨register, resolution, p.rest.take resolution.size⟩ ::
        ahead { p with rest := p.rest.drop resolution.size }

theorem Sound.mono {length length' : Nat} {values : List Raw} {r : Next × MultiplexParser}
    (h : Sound length values r) (hle : length ≤ length') : Sound length' values r := by
  obtain ⟨next, p⟩ := r
  cases next with
  | done => exact h
  | value register resolution =>
    obtain ⟨hne, hsize, hlength, hwf⟩ := h
    exact ⟨hne, hsize, hlength.trans hle, hwf⟩

/-- Counting down by one, as an `int8_t` does. -/
theorem toNat_count {count : Int} (h : 0 < count % 256) :
    (count % 256).toNat = ((count - 1).bmod 256 % 256).toNat + 1 := by
  have hmod : (count - 1).bmod 256 % 256 = (count - 1) % 256 := Int.bmod_emod
  rw [hmod]
  omega

theorem int8_bmod (n : Int) : -128 ≤ n.bmod 256 ∧ n.bmod 256 < 128 :=
  ⟨Int.le_bmod (by decide), Int.bmod_lt (by decide)⟩

theorem begin_sound {p : MultiplexParser} (h : p.currentResolution ≠ .kIgnore) {count : Int}
    (hcount : 0 < count % 256) (rest : List UInt8) :
    Sound rest.length (Header.ahead
      ⟨p.currentResolution, (count % 256).toNat, (readVaruint 5 rest).1 % 65536⟩
      (readVaruint 5 rest).2) (p.begin count rest) := by
  have hregister : (readVaruint 5 rest).1 % 65536 < 65536 := Nat.mod_lt _ (by decide)
  rw [toNat_count hcount]
  unfold begin
  dsimp only
  split
  · rename_i hsize
    exact Header.ahead_of_length_lt (Nat.succ_pos _) hsize
  · rename_i hsize
    have hwf : Wf { p with
        rest := (readVaruint 5 rest).2
        remaining := (count - 1).bmod 256
        currentRegister := ((readVaruint 5 rest).1 % 65536 + 1) % 65536 } :=
      ⟨fun _ => h, int8_bmod _, Nat.mod_lt _ (by decide)⟩
    exact ⟨h, not_lt.mp hsize, (readVaruint_suffix 5 rest).length_le, hwf,
      Header.ahead_succ _ hregister (not_lt.mp hsize)⟩

theorem scan_sound (bytes : List UInt8) {p : MultiplexParser} :
    Sound bytes.length (frameValues bytes) (scan bytes p) := by
  fun_induction scan bytes p with
  | case1 p => exact frameValues_of_none rfl
  | case2 rest p ih =>
    rw [frameValues_congr (header?_nop rest)]
    exact ih.mono (Nat.le_succ _)
  | case3 => exact frameValues_of_none rfl
  | case4 cmd p hcmd byte hreply q hcode =>
    refine frameValues_of_none ?_
    rw [header?, if_neg hcmd, if_pos hreply, if_neg (not_not.mpr hcode), if_pos rfl]
  | case5 cmd p hcmd hreply q hcode byte tail ih =>
    have hheader : header? (cmd :: 0 :: byte :: tail) = header? (byte :: tail) := by
      rw [header?, if_neg hcmd, if_pos hreply, if_neg (not_not.mpr hcode),
        if_neg (List.cons_ne_nil _ _), if_pos rfl]
    rw [frameValues_congr hheader]
    exact ih.mono ((Nat.le_succ _).trans (Nat.le_succ _))
  | case6 cmd p hcmd count hreply q hcode byte tail hcount =>
    have hheader : header? (cmd :: count :: byte :: tail) =
        some (Header.behind cmd count.toNat (byte :: tail)) := by
      rw [header?, if_neg hcmd, if_pos hreply, if_neg (not_not.mpr hcode),
        if_neg (List.cons_ne_nil _ _), if_neg hcount]
    have hbyte : ((count.toNat : Int).bmod 256) % 256 = count.toNat := by
      have hmod : (count.toNat : Int).bmod 256 % 256 = count.toNat % 256 := Int.bmod_emod
      have hlt := count.toNat_lt
      omega
    have hpos : 0 < ((count.toNat : Int).bmod 256) % 256 := by
      have hne : count.toNat ≠ 0 := fun h => hcount (UInt8.toNat_inj.mp h)
      omega
    have hbegin := begin_sound (p := q) (Resolution.ofCode_ne_kIgnore cmd) hpos (byte :: tail)
    rw [hbyte, Int.toNat_natCast] at hbegin
    rw [frameValues_of_some hheader]
    exact hbegin.mono ((Nat.le_succ _).trans (Nat.le_succ _))
  | case7 cmd p hcmd byte tail hreply q hcode =>
    have hheader : header? (cmd :: byte :: tail) =
        some (Header.behind cmd (cmd &&& 0x03).toNat (byte :: tail)) := by
      rw [header?, if_neg hcmd, if_pos hreply, if_pos hcode]
    have hlt : (cmd &&& 0x03).toNat < 256 := UInt8.toNat_lt _
    have hpos : 0 < ((cmd &&& 0x03).toNat : Int) % 256 := by
      have hne : (cmd &&& 0x03).toNat ≠ 0 := fun h => hcode (UInt8.toNat_inj.mp h)
      omega
    have hmod : ((cmd &&& 0x03).toNat : Int) % 256 = (cmd &&& 0x03).toNat := by omega
    have hbegin := begin_sound (p := q) (Resolution.ofCode_ne_kIgnore cmd) hpos (byte :: tail)
    rw [hmod, Int.toNat_natCast] at hbegin
    rw [frameValues_of_some hheader]
    exact hbegin.mono (Nat.le_succ _)
  | case8 cmd p hcmd byte tail hreply =>
    refine frameValues_of_none ?_
    rw [header?, if_neg hcmd, if_neg hreply]

theorem next_sound {p : MultiplexParser} (h : p.Wf) : Sound p.rest.length p.ahead p.next := by
  unfold next
  dsimp only
  split
  · rename_i hrest
    rw [ahead, hrest]
    exact Header.ahead_nil _
  · split
    · rename_i hremaining
      obtain ⟨hlow, hhigh⟩ := h.remaining
      have hcount : 0 < p.remaining % 256 := by omega
      rw [ahead, run, toNat_count hcount]
      split
      · rename_i hsize
        exact Header.ahead_of_length_lt (Nat.succ_pos _) hsize
      · rename_i hsize
        have hwf : Wf { p with
            remaining := (p.remaining - 1).bmod 256
            currentRegister := (p.currentRegister + 1) % 65536 } :=
          ⟨fun _ => h.resolution hremaining, int8_bmod _, Nat.mod_lt _ (by decide)⟩
        exact ⟨h.resolution hremaining, not_lt.mp hsize, le_rfl, hwf,
          Header.ahead_succ _ h.register (not_lt.mp hsize)⟩
    · rename_i hremaining
      rw [ahead_of_remaining_eq_zero (not_not.mp hremaining)]
      exact scan_sound p.rest

/-- **The values of a frame are handed out, and no others**, whatever the bytes are: no reading runs
over the end. -/
theorem valuesWithin_eq {turns : Nat} {p : MultiplexParser} (hwf : p.Wf)
    (hturns : p.rest.length < turns) : valuesWithin turns p = some p.ahead := by
  induction turns generalizing p with
  | zero => exact absurd hturns (Nat.not_lt_zero _)
  | succ turns ih =>
    have hsound := next_sound hwf
    rw [valuesWithin]
    generalize p.next = result at hsound ⊢
    obtain ⟨next, q⟩ := result
    cases next with
    | done => exact congrArg some hsound.symm
    | value register resolution =>
      obtain ⟨-, hsize, hlength, hq, hahead⟩ := hsound
      have hpos := resolution.size_pos
      have hread : q.read resolution.size = some (q.rest.take resolution.size,
          { q with rest := q.rest.drop resolution.size }) := by
        rw [read, if_neg (not_lt.mpr hsize)]
      have hdrop : (q.rest.drop resolution.size).length < turns := by
        rw [List.length_drop]
        omega
      have hrest := ih (p := { q with rest := q.rest.drop resolution.size }) ⟨hq.1, hq.2, hq.3⟩ hdrop
      simp only [hread, Option.bind_eq_bind, Option.bind_some, hrest]
      exact congrArg some hahead.symm

/-- From the start of a frame these are all its values. -/
theorem values_new (bytes : List UInt8) : values { rest := bytes } = some (frameValues bytes) := by
  rw [values, valuesWithin_eq (wf_new bytes) (Nat.lt_succ_self _), ahead_of_remaining_eq_zero rfl]

end MultiplexParser

end Moteus

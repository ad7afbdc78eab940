import RobotFramework.Moteus.Parser

/-!
# `mjbots/moteus/moteus_multiplex.h`: from `WriteCombiner` to `MultiplexParser`

A controller answers with blocks of registers, each written as a `WriteCombiner` with the reply
command writes it, and the frame is filled up with NOPs to a length that CAN-FD has. The parser reads
back what went in, register by register (`valuesWithin_blocks`).

The argument follows the parser through one block (`Inside`): at each register it is either in a run
that goes on, or in front of the header of the next one (`scan_header`).
-/

namespace Moteus

/-- The registers that are there to be read among some cells, `register` being the first. -/
def listed : Nat → List Cell → List MultiplexParser.Raw
  | _, [] => []
  | register, (resolution, value) :: cells =>
    if resolution = .kIgnore then listed (register + 1) cells
    else ⟨register, resolution, value⟩ :: listed (register + 1) cells

namespace MultiplexParser

/-! ## Headers -/

theorem short_header : ∀ resolution : Resolution, resolution ≠ .kIgnore →
    ∀ count, 0 < count → count ≤ 3 →
      let cmd := 0x20 + resolution.code + UInt8.ofNat count
      cmd ≠ kNop ∧ (0x20 ≤ cmd ∧ cmd < 0x30) ∧ cmd &&& 0x03 ≠ 0 ∧
        (cmd &&& 0x03).toNat = count ∧ Resolution.ofCode cmd = resolution := by
  intro resolution hne count hpos hle
  obtain rfl | rfl | rfl : count = 1 ∨ count = 2 ∨ count = 3 := by omega
  all_goals
    cases resolution with
    | kIgnore => exact absurd rfl hne
    | _ => decide

theorem long_header : ∀ resolution : Resolution, resolution ≠ .kIgnore →
    let cmd := 0x20 + resolution.code
    cmd ≠ kNop ∧ (0x20 ≤ cmd ∧ cmd < 0x30) ∧ cmd &&& 0x03 = 0 ∧
      Resolution.ofCode cmd = resolution := by
  intro resolution hne
  cases resolution with
  | kIgnore => exact absurd rfl hne
  | _ => decide

/-- What stands behind the count of a header: the number of the first register. -/
theorem begin_varuint {count register : Nat} (hcount : 0 < count ∧ count ≤ 127)
    (hregister : register < 65536) (p : MultiplexParser) (rest : List UInt8)
    (hroom : p.currentResolution.size ≤ rest.length) :
    p.begin count (writeVaruint 5 register ++ rest) =
      (.value register p.currentResolution,
        { p with rest
                 remaining := (count - 1 : Nat)
                 currentRegister := (register + 1) % 65536 }) := by
  have hread : readVaruint 5 (writeVaruint 5 register ++ rest) = (register, rest) :=
    readVaruint_writeVaruint (by omega) rest
  have hmod : register % 65536 = register := Nat.mod_eq_of_lt hregister
  have hremaining : ((count : Int) - 1).bmod 256 = (count - 1 : Nat) := by
    rw [Int.bmod_eq_of_le] <;> omega
  unfold begin
  rw [hread]
  dsimp only
  rw [if_neg (not_lt.mpr hroom), hmod, hremaining]

/-- The header of a run, read by a parser that looks for a command. -/
theorem scan_header {resolution : Resolution} (hne : resolution ≠ .kIgnore) {count register : Nat}
    (hcount : 0 < count ∧ count ≤ 127) (hregister : register < 65536) (p : MultiplexParser)
    (rest : List UInt8) (hroom : resolution.size ≤ rest.length) :
    scan (header 0x20 resolution count register ++ rest) p =
      (.value register resolution,
        ⟨rest, (count - 1 : Nat), resolution, (register + 1) % 65536⟩) := by
  obtain ⟨byte, tail, htail⟩ : ∃ byte tail, writeVaruint 5 register ++ rest = byte :: tail := by
    cases hv : writeVaruint 5 register with
    | nil => exact absurd hv (writeVaruint_ne_nil 4 register)
    | cons byte tail => exact ⟨byte, tail ++ rest, rfl⟩
  have hbegin := begin_varuint hcount hregister { p with currentResolution := resolution } rest hroom
  unfold header
  dsimp only
  split
  · rename_i hshort
    obtain ⟨hnop, hreply, hcode, hvalue, hres⟩ := short_header resolution hne count hcount.1 hshort
    rw [List.append_assoc, List.singleton_append, htail, scan, if_neg hnop]
    dsimp only
    rw [if_pos hreply, if_neg hcode, hvalue, hres, ← htail]
    exact hbegin
  · obtain ⟨hnop, hreply, hcode, hres⟩ := long_header resolution hne
    have hbyte : (UInt8.ofNat count).toNat = count := by
      rw [UInt8.toNat_ofNat']
      omega
    have hzero : UInt8.ofNat count ≠ 0 := by
      intro h
      rw [h] at hbyte
      exact absurd hbyte (by simp; omega)
    have hint : (count : Int).bmod 256 = count := by
      rw [Int.bmod_eq_of_le] <;> omega
    rw [List.append_assoc, List.cons_append, List.singleton_append, htail, scan, if_neg hnop]
    dsimp only
    rw [if_pos hreply, if_pos hcode, if_neg hzero, hbyte, hint, hres, ← htail]
    exact hbegin

/-! ## A block -/

/-- The parser stands inside a block, in front of these cells: `current` is the resolution of the
run before them, `tail` what stands behind the block. -/
structure Inside (current : Resolution) (register : Nat) (cells : List Cell) (tail : List UInt8)
    (p : MultiplexParser) : Prop where
  rest : p.rest = encodeRegisters 0x20 current register cells ++ tail
  remaining : p.remaining = if current = .kIgnore then 0 else runLength current cells
  run : p.remaining ≠ 0 → p.currentResolution = current ∧ p.currentRegister = register

/-- A block begins where no run is open. -/
theorem Inside.start {register : Nat} {cells : List Cell} {tail : List UInt8}
    {p : MultiplexParser} (hrest : p.rest = encodeRegisters 0x20 .kIgnore register cells ++ tail)
    (hremaining : p.remaining = 0) : Inside .kIgnore register cells tail p where
  rest := hrest
  remaining := hremaining
  run h := absurd hremaining h

/-- What is ignored is not in the frame. -/
theorem Inside.ignored {current : Resolution} {register : Nat} {value : List UInt8}
    {cells : List Cell} {tail : List UInt8} {p : MultiplexParser}
    (h : Inside current register ((.kIgnore, value) :: cells) tail p) :
    Inside .kIgnore (register + 1) cells tail p := by
  refine Inside.start ?_ ?_
  · rw [h.rest, encodeRegisters, if_pos (Or.inr rfl), if_pos rfl, List.nil_append, List.nil_append]
  · rw [h.remaining, WriteCombiner.runLength_cons]
    split
    · rfl
    · rename_i hcurrent
      rw [if_neg (Ne.symm hcurrent)]
      rfl

/-- **One register**: the parser announces it, and behind its value it is inside the rest. -/
theorem Inside.next {current new : Resolution} (hne : new ≠ .kIgnore) {register : Nat}
    {value : List UInt8} (hvalue : value.length = new.size) {cells : List Cell}
    {tail : List UInt8} {p : MultiplexParser}
    (h : Inside current register ((new, value) :: cells) tail p)
    (hlength : cells.length < 127) (hregister : register < 65535) :
    ∃ q q', p.next = (.value register new, q) ∧ q.read new.size = some (value, q') ∧
      Inside new (register + 1) cells tail q' := by
  have hrun : runLength new cells ≤ cells.length := (List.takeWhile_sublist _).length_le
  have hmod : (register + 1) % 65536 = register + 1 := Nat.mod_eq_of_lt (by omega)
  let rest := encodeRegisters 0x20 new (register + 1) cells ++ tail
  let q : MultiplexParser := ⟨value ++ rest, runLength new cells, new, register + 1⟩
  have hroom : new.size ≤ (value ++ rest).length := by
    rw [List.length_append]
    omega
  have hpos := new.size_pos
  refine ⟨q, { q with rest := rest }, ?_, ?_, rfl, ?_, fun _ => ⟨rfl, rfl⟩⟩
  · have hnil : p.rest ≠ [] := by
      intro hnil
      have hlen := congrArg List.length h.rest
      rw [hnil, encodeRegisters, if_neg hne] at hlen
      simp only [List.length_nil, List.length_append] at hlen
      omega
    unfold MultiplexParser.next
    dsimp only
    rw [if_neg hnil]
    by_cases hsame : new = current
    · -- A run that goes on.
      subst hsame
      have hremaining : p.remaining = (runLength new cells + 1 : Nat) := by
        rw [h.remaining, if_neg hne, WriteCombiner.runLength_cons, if_pos rfl]
      have hopen : p.remaining ≠ 0 := by omega
      obtain ⟨hres, hreg⟩ := h.run hopen
      have hrest : p.rest = value ++ rest := by
        rw [h.rest, encodeRegisters, if_pos (Or.inl rfl), if_neg hne, List.nil_append,
          List.append_assoc]
      have hleft : (p.remaining - 1).bmod 256 = (runLength new cells : Nat) := by
        rw [hremaining, Int.bmod_eq_of_le] <;> omega
      rw [if_pos hopen, hres, hreg, hrest, hleft, hmod, if_neg (not_lt.mpr hroom)]
    · -- The header of a run.
      have hremaining : p.remaining = 0 := by
        rw [h.remaining, WriteCombiner.runLength_cons, if_neg hsame]
        split <;> rfl
      have hrest : p.rest =
          header 0x20 new (1 + runLength new cells) register ++ (value ++ rest) := by
        rw [h.rest, encodeRegisters, if_neg (not_or.mpr ⟨hsame, hne⟩), if_neg hne]
        simp only [List.append_assoc, rest]
      rw [if_neg (not_not_intro hremaining), hrest,
        scan_header hne ⟨by omega, by omega⟩ (by omega) p _ hroom, hmod, Nat.add_sub_cancel_left]
  · rw [read, if_neg (not_lt.mpr hroom), ← hvalue, List.take_left, List.drop_left]
  · rw [if_neg hne]

/-- The cells of a block are as long as their resolutions say, and few enough for the count of a
header and the numbers of registers. -/
structure Block (register : Nat) (cells : List Cell) : Prop where
  size : ∀ cell ∈ cells, cell.1 ≠ .kIgnore → cell.2.length = cell.1.size
  length : cells.length ≤ 127
  register_le : register + cells.length ≤ 65535

theorem Block.tail {register : Nat} {cell : Cell} {cells : List Cell}
    (h : Block register (cell :: cells)) : Block (register + 1) cells where
  size f hf := h.size f (List.mem_cons_of_mem _ hf)
  length := by
    have hlength := h.length
    rw [List.length_cons] at hlength
    omega
  register_le := by
    have hregister := h.register_le
    rw [List.length_cons] at hregister
    omega

/-- **A block is read register by register**, and the parser is behind it then, with no run open. -/
theorem Inside.values {current : Resolution} {register : Nat} {cells : List Cell}
    {tail : List UInt8} {p : MultiplexParser} (h : Inside current register cells tail p)
    (hblock : Block register cells) :
    ∃ q : MultiplexParser, q.rest = tail ∧ q.remaining = 0 ∧ ∀ turns,
      valuesWithin (turns + (listed register cells).length) p =
        (valuesWithin turns q).map (listed register cells ++ ·) := by
  induction cells generalizing current register p with
  | nil =>
    refine ⟨p, h.rest, ?_, fun turns => ?_⟩
    · rw [h.remaining]
      split <;> rfl
    · simp [listed]
  | cons cell cells ih =>
    obtain ⟨new, value⟩ := cell
    by_cases hne : new = .kIgnore
    · subst hne
      obtain ⟨q, hrest, hremaining, hvalues⟩ := ih h.ignored hblock.tail
      refine ⟨q, hrest, hremaining, fun turns => ?_⟩
      rw [listed, if_pos rfl]
      exact hvalues turns
    · have hlength := hblock.length
      have hregister := hblock.register_le
      rw [List.length_cons] at hlength hregister
      obtain ⟨q, q', hnext, hread, hinside⟩ := h.next hne (hblock.size _ List.mem_cons_self hne)
        (by omega) (by omega)
      obtain ⟨q'', hrest, hremaining, hvalues⟩ := ih hinside hblock.tail
      refine ⟨q'', hrest, hremaining, fun turns => ?_⟩
      rw [listed, if_neg hne, List.length_cons, ← Nat.add_assoc, valuesWithin, hnext]
      simp only [hread, Option.bind_eq_bind, Option.bind_some, hvalues turns]
      cases valuesWithin turns q'' <;> rfl

/-! ## A reply -/

/-- The blocks of a reply, one behind the other. -/
def encodeBlocks (blocks : List (Nat × List Cell)) : List UInt8 :=
  blocks.flatMap fun block => encodeRegisters 0x20 .kIgnore block.1 block.2

/-- The registers of the blocks, in order. -/
def listedBlocks (blocks : List (Nat × List Cell)) : List Raw :=
  blocks.flatMap fun block => listed block.1 block.2

theorem scan_padding (n : Nat) (p : MultiplexParser) :
    (scan (List.replicate n kNop) p).1 = .done := by
  induction n with
  | zero => rfl
  | succ n ih =>
    rw [List.replicate_succ, scan.eq_def]
    dsimp only
    rw [if_pos rfl, ih]

theorem valuesWithin_blocks {blocks : List (Nat × List Cell)} {padding : Nat}
    {p : MultiplexParser} (hblocks : ∀ block ∈ blocks, Block block.1 block.2)
    (hrest : p.rest = encodeBlocks blocks ++ List.replicate padding kNop)
    (hremaining : p.remaining = 0) (turns : Nat) :
    valuesWithin (turns + 1 + (listedBlocks blocks).length) p = some (listedBlocks blocks) := by
  induction blocks generalizing p with
  | nil =>
    rw [encodeBlocks, List.flatMap_nil, List.nil_append] at hrest
    have hdone : p.next.1 = .done := by
      unfold next
      dsimp only
      rw [if_neg (not_not_intro hremaining), hrest]
      split
      · rfl
      · exact scan_padding padding p
    rw [listedBlocks, List.flatMap_nil, List.length_nil, Nat.add_zero, valuesWithin]
    generalize p.next = result at hdone ⊢
    obtain ⟨next, q⟩ := result
    obtain rfl : next = .done := hdone
    rfl
  | cons block blocks ih =>
    rw [encodeBlocks, List.flatMap_cons, List.append_assoc] at hrest
    obtain ⟨q, hq, hqr, hvalues⟩ :=
      (Inside.start hrest hremaining).values (hblocks _ List.mem_cons_self)
    have hih := ih (fun b hb => hblocks b (List.mem_cons_of_mem _ hb)) hq hqr
    have hlisted : listedBlocks (block :: blocks) =
        listed block.1 block.2 ++ listedBlocks blocks := List.flatMap_cons
    rw [hlisted, List.length_append, Nat.add_comm (listed _ _).length, ← Nat.add_assoc, hvalues,
      hih]
    rfl

end MultiplexParser

end Moteus

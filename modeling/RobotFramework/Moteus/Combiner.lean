import Mathlib.Data.List.TakeWhile
import Mathlib.Tactic.Ring
import RobotFramework.Moteus.Values

/-!
# `mjbots/moteus/moteus_multiplex.h`: `WriteCombiner`

The combiner is asked once for each register, in order, whether its value is to be written, and puts
a header in front of the first register of every run. `writeCells` is the way every `Make` drives
it; `writeCells_eq` says which bytes that comes to (`encodeRegisters`), and what the combiner takes
for the size of the reply: exactly the bytes a device needs to answer with the same registers
(`length_encodeRegisters`).
-/

namespace Moteus

/-! ## Headers -/

/-- The header of a run of registers. -/
def header (baseCommand : UInt8) (resolution : Resolution) (count register : Nat) : List UInt8 :=
  let writeCommand := baseCommand + resolution.code
  (if count ≤ 3 then [writeCommand + UInt8.ofNat count] else [writeCommand, UInt8.ofNat count]) ++
    writeVaruint 5 register

/-- Its length does not depend on the command. -/
theorem length_header (base base' : UInt8) (resolution : Resolution) (count register : Nat) :
    (header base resolution count register).length =
      (header base' resolution count register).length := by
  unfold header
  split <;> simp

/-- What of a register is written: its resolution, and the bytes of its value. -/
abbrev Cell := Resolution × List UInt8

/-- How many registers the run goes on for. -/
def runLength (resolution : Resolution) (cells : List Cell) : Nat :=
  (cells.takeWhile fun cell => cell.1 = resolution).length

/-- The bytes of registers in order, `register` being the first of them and `current` the resolution
of the run before it. -/
def encodeRegisters (baseCommand : UInt8) : Resolution → Nat → List Cell → List UInt8
  | _, _, [] => []
  | current, register, (new, value) :: rest =>
    (if new = current ∨ new = .kIgnore then []
      else header baseCommand new (1 + runLength new rest) register) ++
      (if new = .kIgnore then [] else value) ++ encodeRegisters baseCommand new (register + 1) rest

/-- A request has the headers only. -/
theorem writeCombiner_eq (baseCommand : UInt8) (current : Resolution) (register : Nat)
    (resolutions : List Resolution) :
    writeCombiner baseCommand current register resolutions =
      encodeRegisters baseCommand current register (resolutions.map fun r => (r, [])) := by
  induction resolutions generalizing current register with
  | nil => rfl
  | cons new rest ih =>
    have hrun : runLength new (rest.map fun r => (r, [])) = (rest.takeWhile (· = new)).length := by
      rw [runLength, List.takeWhile_map, List.length_map]
      rfl
    rw [writeCombiner, List.map_cons, encodeRegisters, ite_self, List.append_nil, hrun]
    by_cases hsame : new = current
    · rw [if_pos hsame, if_pos (Or.inl hsame), List.nil_append, ih, hsame]
    · rw [if_neg hsame]
      by_cases hignore : new = .kIgnore
      · rw [if_pos hignore, if_pos (Or.inr hignore), List.nil_append, ih, hignore]
      · rw [if_neg hignore, if_neg (not_or.mpr ⟨hsame, hignore⟩), ih]
        rfl

/-! ## The class -/

structure WriteCombiner where
  baseCommand : UInt8
  startRegister : Nat
  resolutions : List Resolution
  currentResolution : Resolution := .kIgnore
  offset : Nat := 0
  replySize : UInt8 := 0

namespace WriteCombiner

/-- `MaybeWrite`. To ask for more registers than there are resolutions is undefined, and taken for
one that is ignored here. -/
def maybeWrite (c : WriteCombiner) (frame : CanData) : Option (Bool × WriteCombiner × CanData) :=
  let thisOffset := c.offset
  let new := c.resolutions[thisOffset]?.getD .kIgnore
  let current := c.currentResolution
  let c := { c with offset := thisOffset + 1 }
  if current = new then some (decide (current ≠ .kIgnore), c, frame)
  else
    let c := { c with currentResolution := new }
    if new = .kIgnore then some (false, c, frame)
    else
      let count := 1 + ((c.resolutions.drop c.offset).takeWhile (· = new)).length
      let framing := header c.baseCommand new count (c.startRegister + thisOffset)
      let replySize := c.replySize + UInt8.ofNat framing.length + UInt8.ofNat (count * new.size)
      (frame.write framing).map fun frame => (true, { c with replySize := replySize }, frame)

/-- One `MaybeWrite` for each of the values, which is written if the combiner asks for it. A value
that cannot be written at its resolution is an `abort`. -/
def writeCells (c : WriteCombiner) (frame : CanData) :
    List (Option (List UInt8)) → Option (WriteCombiner × CanData)
  | [] => some (c, frame)
  | value :: values => do
    let (wanted, c, frame) ← c.maybeWrite frame
    let frame ← if wanted then value.bind frame.write else some frame
    writeCells c frame values

/-- The bytes of a reply that a run makes up, where a cell begins one. -/
def runReply (current : Resolution) (register : Nat) (new : Resolution) (rest : List Cell) : Nat :=
  if new = current ∨ new = .kIgnore then 0
  else (header 0x20 new (1 + runLength new rest) register).length +
    (1 + runLength new rest) * new.size

/-- What the combiner expects of the whole reply. -/
def replyLength : Resolution → Nat → List Cell → Nat
  | _, _, [] => 0
  | current, register, (new, _) :: rest =>
    runReply current register new rest + replyLength new (register + 1) rest

/-- The combiner behind one cell. -/
def pass (c : WriteCombiner) (new : Resolution) (rest : List Cell) : WriteCombiner :=
  { c with
    offset := c.offset + 1
    currentResolution := new
    replySize := c.replySize +
      UInt8.ofNat (runReply c.currentResolution (c.startRegister + c.offset) new rest) }

/-- The combiner behind some cells. -/
def passAll (c : WriteCombiner) : List Cell → WriteCombiner
  | [] => c
  | (new, _) :: rest => (c.pass new rest).passAll rest

/-- The combiner has come to these cells. -/
def At (c : WriteCombiner) (cells : List Cell) : Prop :=
  c.resolutions.drop c.offset = cells.map Prod.fst

theorem At.head {c : WriteCombiner} {cell : Cell} {cells : List Cell}
    (h : c.At (cell :: cells)) : c.resolutions[c.offset]?.getD .kIgnore = cell.1 := by
  have hget := congrArg (·[0]?) h
  simp only [List.getElem?_drop, Nat.add_zero, List.map_cons, List.getElem?_cons_zero] at hget
  rw [hget, Option.getD_some]

theorem At.tail {c : WriteCombiner} {cell : Cell} {cells : List Cell}
    (h : c.At (cell :: cells)) : (c.pass cell.1 cells).At cells := by
  show c.resolutions.drop (c.offset + 1) = cells.map Prod.fst
  rw [← List.drop_drop, h, List.map_cons, List.drop_one, List.tail_cons]

/-- What `MaybeWrite` does at a cell. -/
theorem maybeWrite_eq {c : WriteCombiner} {new : Resolution} {value : List UInt8}
    {cells : List Cell} (h : c.At ((new, value) :: cells)) (frame : CanData) :
    c.maybeWrite frame =
      (frame.write (if new = c.currentResolution ∨ new = .kIgnore then []
        else header c.baseCommand new (1 + runLength new cells)
          (c.startRegister + c.offset))).map fun frame =>
        (decide ¬new = .kIgnore, c.pass new cells, frame) := by
  have hrun : ((c.resolutions.drop (c.offset + 1)).takeWhile (· = new)).length =
      runLength new cells := by
    have htail : c.resolutions.drop (c.offset + 1) = cells.map Prod.fst := h.tail
    rw [htail, List.takeWhile_map, List.length_map, runLength]
    rfl
  have hnone : new = c.currentResolution ∨ new = .kIgnore →
      c.pass new cells = { c with offset := c.offset + 1, currentResolution := new } := by
    intro hcase
    rw [pass, runReply, if_pos hcase]
    congr 1
    exact UInt8.add_zero _
  unfold maybeWrite
  simp only [h.head, hrun]
  by_cases hsame : c.currentResolution = new
  · rw [if_pos hsame, if_pos (Or.inl hsame.symm), CanData.write_nil, hnone (Or.inl hsame.symm),
      ← hsame]
    rfl
  · rw [if_neg hsame]
    by_cases hignore : new = .kIgnore
    · rw [if_pos hignore, if_pos (Or.inr hignore), CanData.write_nil, hnone (Or.inr hignore),
        decide_eq_false (not_not_intro hignore)]
      rfl
    · have hnew : ¬ (new = c.currentResolution ∨ new = .kIgnore) :=
        not_or.mpr ⟨Ne.symm hsame, hignore⟩
      rw [if_neg hignore, if_neg hnew, decide_eq_true hignore, pass, runReply, if_neg hnew,
        length_header c.baseCommand 0x20, UInt8.ofNat_add, UInt8.add_assoc]

/-- A value as the source hands it over: at its resolution, `none` where that ends in `abort`. -/
abbrev Value := Resolution × Option (List UInt8)

def Value.cell (value : Value) : Cell := (value.1, value.2.getD [])

/-- **What the combiner writes** when it is driven over the registers it has come to. -/
theorem writeCells_eq {c : WriteCombiner} {values : List Value}
    (hvalues : ∀ value ∈ values, value.1 ≠ .kIgnore → value.2.isSome)
    (h : c.At (values.map Value.cell)) (frame : CanData) :
    c.writeCells frame (values.map Prod.snd) =
      (frame.write (encodeRegisters c.baseCommand c.currentResolution
        (c.startRegister + c.offset) (values.map Value.cell))).map fun frame =>
          (c.passAll (values.map Value.cell), frame) := by
  induction values generalizing c frame with
  | nil =>
    rw [List.map_nil, List.map_nil, writeCells, encodeRegisters, CanData.write_nil]
    rfl
  | cons value values ih =>
    obtain ⟨new, bytes⟩ := value
    have hrest := fun frame => ih (fun v hv => hvalues v (List.mem_cons_of_mem _ hv)) h.tail frame
    have hbytes : new ≠ .kIgnore → bytes = some (bytes.getD []) := by
      intro hne
      obtain ⟨b, hb⟩ := Option.isSome_iff_exists.mp (hvalues _ List.mem_cons_self hne)
      simp only at hb
      rw [hb]
      rfl
    have hvalue : ∀ (frame : CanData) (k : CanData → Option (WriteCombiner × CanData)),
        (if decide ¬new = .kIgnore then (bytes.bind fun value => frame.write value).bind k
          else k frame) = (frame.write (if new = .kIgnore then [] else bytes.getD [])).bind k := by
      intro frame k
      by_cases hignore : new = .kIgnore
      · rw [if_pos hignore, decide_eq_false (not_not_intro hignore), CanData.write_nil]
        rfl
      · rw [if_neg hignore, decide_eq_true hignore, if_pos rfl, hbytes hignore]
        rfl
    rw [List.map_cons, List.map_cons, writeCells, maybeWrite_eq h, Value.cell, encodeRegisters,
      ← CanData.write_append, ← CanData.write_append]
    cases frame.write _ with
    | none => rfl
    | some frame =>
      simp only [Option.map_some, Option.bind_eq_bind, Option.bind_some]
      rw [hvalue]
      cases frame.write (if new = .kIgnore then [] else bytes.getD []) with
      | none => rfl
      | some frame => exact hrest frame

/-- The reply size counts, modulo 256, what the runs make up. -/
theorem replySize_passAll (c : WriteCombiner) (cells : List Cell) :
    (c.passAll cells).replySize = c.replySize + UInt8.ofNat
      (replyLength c.currentResolution (c.startRegister + c.offset) cells) := by
  induction cells generalizing c with
  | nil => exact (UInt8.add_zero _).symm
  | cons cell cells ih =>
    obtain ⟨new, value⟩ := cell
    rw [passAll, ih, replyLength, UInt8.ofNat_add, ← UInt8.add_assoc]
    rfl

/-! ## The reply -/

theorem runLength_cons (resolution : Resolution) (cell : Cell) (cells : List Cell) :
    runLength resolution (cell :: cells) =
      if cell.1 = resolution then runLength resolution cells + 1 else 0 := by
  unfold runLength
  by_cases h : cell.1 = resolution
  · rw [List.takeWhile_cons_of_pos (by simpa using h), if_pos h, List.length_cons]
  · rw [List.takeWhile_cons_of_neg (by simpa using h), if_neg h, List.length_nil]

/-- **The reply takes what the combiner expects**: the values of a run have been counted with its
header, those of the run that `current` is in before. -/
theorem length_encodeRegisters {cells : List Cell}
    (hsize : ∀ cell ∈ cells, cell.1 ≠ .kIgnore → cell.2.length = cell.1.size)
    (current : Resolution) (register : Nat) :
    (encodeRegisters 0x20 current register cells).length =
      (if current = .kIgnore then 0 else runLength current cells * current.size) +
        replyLength current register cells := by
  induction cells generalizing current register with
  | nil => simp [encodeRegisters, replyLength, runLength]
  | cons cell cells ih =>
    obtain ⟨new, value⟩ := cell
    have hvalue : new ≠ .kIgnore → value.length = new.size := hsize _ List.mem_cons_self
    have hrest := ih (fun f hf => hsize f (List.mem_cons_of_mem _ hf)) new (register + 1)
    rw [encodeRegisters, List.length_append, List.length_append, hrest, replyLength, runReply,
      runLength_cons]
    by_cases hignore : new = .kIgnore
    · subst hignore
      by_cases hcurrent : current = .kIgnore
      · simp [hcurrent]
      · simp [hcurrent, Ne.symm hcurrent]
    · rw [if_neg hignore, if_neg hignore, hvalue hignore]
      by_cases hsame : new = current
      · subst hsame
        rw [if_pos (Or.inl rfl), if_pos (Or.inl rfl), if_neg hignore, if_pos rfl, List.length_nil]
        ring
      · have hnew : ¬ (new = current ∨ new = .kIgnore) := not_or.mpr ⟨hsame, hignore⟩
        rw [if_neg hnew, if_neg hnew, if_neg hsame, Nat.zero_mul, ite_self]
        ring

end WriteCombiner

end Moteus

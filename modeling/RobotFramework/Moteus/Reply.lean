import RobotFramework.Math.WheelReal
import RobotFramework.Moteus.Controller
import RobotFramework.Moteus.Device

/-!
# `mjbots/moteus/moteus_protocol.h`: `Query::Parse` on the bytes of a reply

Which register a value is for decides how its bytes are read (`concreteOf`). `parseBytes` walks over
a frame with a `MultiplexParser`; whatever the bytes are it comes to an end without an `abort`, and
what it returns is `parse` of the values behind the headers of the frame (`parseBytes_eq`). Of a
frame that a device sent in answer to `Query::Make` these are the registers of the format
(`parseBytes_reply`).
-/

namespace Moteus

open Cxx
open MultiplexParser (Raw)

namespace Query

/-! ## How a register is read -/

/-- `kRegisterDefinitions`: the first register of a block, how many there are, and their kind. -/
def kRegisterDefinitions : List (Nat × Nat × Concrete) :=
  [(0x000, 1, .kInt), (0x001, 1, .kPosition), (0x002, 1, .kVelocity), (0x003, 1, .kTorque),
    (0x004, 2, .kCurrent), (0x006, 1, .kPosition), (0x007, 1, .kPower),
    (0x00a, 1, .kTemperature), (0x00b, 2, .kInt), (0x00d, 1, .kVoltage),
    (0x00e, 1, .kTemperature), (0x00f, 1, .kInt), (0x010, 3, .kPwm), (0x014, 3, .kVoltage),
    (0x018, 1, .kTheta), (0x019, 3, .kVoltage), (0x01c, 2, .kCurrent), (0x020, 1, .kPosition),
    (0x021, 1, .kVelocity), (0x022, 1, .kTorque), (0x023, 2, .kPwm), (0x025, 1, .kTorque),
    (0x026, 1, .kPosition), (0x027, 1, .kTime), (0x028, 1, .kVelocity),
    (0x029, 1, .kAcceleration), (0x02a, 1, .kVoltage), (0x02b, 1, .kPwm), (0x02c, 1, .kCurrent),
    (0x02d, 1, .kInt), (0x030, 5, .kTorque), (0x038, 1, .kPosition), (0x039, 1, .kVelocity),
    (0x03a, 1, .kTorque), (0x03b, 1, .kPosition), (0x03c, 1, .kVelocity), (0x03d, 1, .kTorque),
    (0x040, 2, .kPosition), (0x042, 1, .kTorque), (0x043, 2, .kPwm), (0x045, 1, .kTorque),
    (0x046, 1, .kTime), (0x047, 1, .kPwm), (0x048, 1, .kInt), (0x050, 1, .kPosition),
    (0x051, 1, .kVelocity), (0x052, 1, .kPosition), (0x053, 1, .kVelocity),
    (0x054, 1, .kPosition), (0x055, 1, .kVelocity), (0x058, 1, .kInt), (0x05c, 4, .kInt),
    (0x060, 5, .kPwm), (0x068, 5, .kPwm), (0x070, 2, .kInt), (0x076, 10, .kPwm),
    (0x102, 1, .kInt), (0x120, 3, .kInt), (0x130, 3, .kInt), (0x140, 2, .kInt)]

/-- The kind that `ParseGeneric` finds in its table. -/
def genericConcrete (register : Nat) : Option Concrete :=
  (kRegisterDefinitions.find? fun d => d.1 ≤ register && register < d.1 + d.2.1).map fun d => d.2.2

/-- The kind that a register is read as: by the `switch` of `Parse`, else by `ParseGeneric`. -/
def concreteOf (register : Nat) : Option Concrete :=
  match register with
  | Register.kMode => some .kInt
  | Register.kPosition => some .kPosition
  | Register.kVelocity => some .kVelocity
  | Register.kTorque => some .kTorque
  | Register.kQCurrent => some .kCurrent
  | Register.kDCurrent => some .kCurrent
  | Register.kAbsPosition => some .kPosition
  | Register.kPower => some .kPower
  | Register.kMotorTemperature => some .kTemperature
  | Register.kTrajectoryComplete => some .kInt
  | Register.kHomeState => some .kInt
  | Register.kVoltage => some .kVoltage
  | Register.kTemperature => some .kTemperature
  | Register.kFault => some .kInt
  | Register.kAux1GpioStatus => some .kInt
  | Register.kAux2GpioStatus => some .kInt
  | Register.kAux1PwmInputPeriod => some .kInt
  | Register.kAux1PwmInputDutyCycle => some .kPwm
  | Register.kAux2PwmInputPeriod => some .kInt
  | Register.kAux2PwmInputDutyCycle => some .kPwm
  | _ => genericConcrete register

variable {K : Type} [Field K] [LinearOrder K] [FloorRing K] [Libm K]

/-- What a field is too small for is lost when the value is stored: three are an `int8_t`, two a
`float`. -/
def narrow (register : Nat) (value : Double K) : Double K :=
  match register with
  | Register.kFault => .num (toInt8 value.trunc : Int)
  | Register.kAux1GpioStatus => .num (toInt8 value.trunc : Int)
  | Register.kAux2GpioStatus => .num (toInt8 value.trunc : Int)
  | Register.kAux1PwmInputDutyCycle => Binary32.decode (Binary32.encode value)
  | Register.kAux2PwmInputDutyCycle => Binary32.decode (Binary32.encode value)
  | _ => value

/-- The value of a register. A register of no known kind is read by `ReadInt`. -/
def readRegister (register : Nat) (resolution : Resolution) (raw : List UInt8) :
    Option (Double K) :=
  match concreteOf register with
  | some concrete => (readConcrete resolution concrete raw).map (narrow register)
  | none => (readConcrete resolution .kInt raw).map fun x : Double K => .num (x.trunc : Int)

/-- The loop of `Query::Parse`, in at most so many turns. -/
def parseWithin : Nat → MultiplexParser → Result K → Option (Result K)
  | 0, _, _ => none
  | turns + 1, p, result =>
    match p.next with
    | (.done, _) => some result
    | (.value register resolution, p) => do
      let (raw, p) ← p.read resolution.size
      let value ← readRegister register resolution raw
      parseWithin turns p (parseItem result ⟨register, value⟩)

/-- `Query::Parse`. -/
def parseBytes (data : List UInt8) : Option (Result K) :=
  parseWithin (data.length + 1) { rest := data } Result.new

/-! ## Every frame -/

/-- The register and value of what stands in a frame. -/
def item (raw : Raw) : Item K :=
  ⟨raw.register, (readRegister raw.register raw.resolution raw.bytes).getD .nan⟩

theorem readRegister_isSome {resolution : Resolution} (h : resolution ≠ .kIgnore) (register : Nat)
    (raw : List UInt8) : ∃ x : Double K, readRegister register resolution raw = some x := by
  unfold readRegister
  cases concreteOf register with
  | none =>
    obtain ⟨x, hx⟩ : ∃ x : Double K, readConcrete resolution .kInt raw = some x :=
      readMapped_isSome h raw
    exact ⟨.num (x.trunc : Int), congrArg (Option.map _) hx⟩
  | some concrete =>
    obtain ⟨x, hx⟩ : ∃ x : Double K, readConcrete resolution concrete raw = some x :=
      readMapped_isSome h raw
    exact ⟨narrow register x, congrArg (Option.map _) hx⟩

/-- The loop parses what the frame holds. -/
theorem parseWithin_eq {turns : Nat} {p : MultiplexParser} {raws : List Raw}
    (hraws : MultiplexParser.valuesWithin turns p = some raws) (hok : ∀ raw ∈ raws, raw.Ok)
    (result : Result K) :
    parseWithin turns p result = some ((raws.map item).foldl parseItem result) := by
  induction turns generalizing p raws result with
  | zero => cases hraws
  | succ turns ih =>
    rw [MultiplexParser.valuesWithin] at hraws
    rw [parseWithin]
    generalize p.next = next at hraws ⊢
    obtain ⟨next, q⟩ := next
    cases next with
    | done =>
      obtain rfl : [] = raws := Option.some.inj hraws
      rfl
    | value register resolution =>
      simp only [Option.bind_eq_bind] at hraws ⊢
      obtain ⟨⟨bytes, q'⟩, hread, hraws⟩ := Option.bind_eq_some_iff.mp hraws
      obtain ⟨rest, hrest, hraws⟩ := Option.bind_eq_some_iff.mp hraws
      obtain rfl : ⟨register, resolution, bytes⟩ :: rest = raws := Option.some.inj hraws
      have hres : resolution ≠ .kIgnore := (hok _ List.mem_cons_self).1
      obtain ⟨x, hx⟩ := readRegister_isSome (K := K) hres register bytes
      have hitem : item ⟨register, resolution, bytes⟩ = (⟨register, x⟩ : Item K) := by
        rw [item, hx]
        rfl
      rw [hread, Option.bind_some, hx, Option.bind_some,
        ih hrest (fun raw hraw => hok raw (List.mem_cons_of_mem _ hraw)), List.map_cons,
        List.foldl_cons, hitem]

/-- The registers in a frame, with their values. -/
def decode (data : List UInt8) : List (Item K) :=
  ((MultiplexParser.values { rest := data }).getD []).map item

theorem parseBytes_frameValues (data : List UInt8) :
    parseBytes data = some (parse ((frameValues data).map (item (K := K)))) :=
  parseWithin_eq (MultiplexParser.values_new data) (frameValues_ok data) Result.new

/-- The bytes of a frame are parsed as its registers. -/
theorem parseBytes_decode (data : List UInt8) :
    parseBytes data = some (parse (decode (K := K) data)) := by
  rw [decode, MultiplexParser.values_new, parseBytes_frameValues]
  rfl

/-- **Every frame is parsed**, with no `abort`: the result is what the values behind its headers say,
each of them there in full and none using a byte of another. -/
theorem parseBytes_eq (data : List UInt8) :
    (∀ raw ∈ frameValues data, raw.Ok) ∧ ((frameValues data).flatMap Raw.bytes).Sublist data ∧
      parseBytes data = some (parse ((frameValues data).map (item (K := K)))) :=
  ⟨frameValues_ok data, frameValues_sublist data, parseBytes_frameValues data⟩

end Query

/-! ## The answer to a request -/

/-- The values of a run as they come back. -/
def Values.raws (values : Values) (run : Run) : List Raw :=
  run.registers.map fun r => ⟨r.1, r.2, values.bytes r.1 r.2⟩

theorem listed_block (values : Values) {run : Run} (hne : run.resolution ≠ .kIgnore) :
    listed run.register (values.block run).2 = values.raws run := by
  obtain ⟨register, count, resolution⟩ := run
  rw [Values.block, Values.raws]
  dsimp only
  induction count generalizing register with
  | zero => rfl
  | succ count ih =>
    rw [registers_succ, List.map_cons, List.map_cons, listed, if_neg hne, ih _ hne]

theorem block_ok (values : Values) {run : Run} (hok : run.Ok) :
    MultiplexParser.Block (values.block run).1 (values.block run).2 where
  size := by
    intro cell hcell _
    obtain ⟨r, -, rfl⟩ := List.mem_map.mp hcell
    exact values.length_bytes r.1 r.2
  length := by
    rw [Values.block, List.length_map, run.length_registers]
    exact hok.count.2
  register_le := by
    rw [Values.block, List.length_map, run.length_registers]
    exact hok.register

theorem listedBlocks_reply (values : Values) {l : List Run} (hl : ∀ run ∈ l, run.Ok) :
    MultiplexParser.listedBlocks (l.map values.block) = l.flatMap values.raws := by
  rw [MultiplexParser.listedBlocks, List.flatMap_map]
  exact List.flatMap_congr fun run hrun => listed_block values (hl run hrun).resolution

/-- A reply has room for the values it lists. -/
theorem length_listed_le (values : Values) (l : List Run) :
    (l.flatMap values.raws).length ≤ (l.map Run.replyLength).sum := by
  rw [List.length_flatMap]
  refine List.sum_le_sum fun run _ => ?_
  rw [Values.raws, List.length_map, run.length_registers, Run.replyLength]
  have hpos := run.resolution.size_pos
  calc run.count = run.count * 1 := (Nat.mul_one _).symm
    _ ≤ run.count * run.resolution.size := Nat.mul_le_mul_left _ hpos
    _ ≤ _ := Nat.le_add_left _ _

namespace Query

variable {K : Type} [Field K] [LinearOrder K] [FloorRing K] [Libm K]

/-- What a device answers to some reads is parsed as these registers, in order, whatever padding
stands behind it. -/
theorem parseBytes_runs (values : Values) {l : List Run} (hl : ∀ run ∈ l, run.Ok) (padding : Nat) :
    parseBytes (values.reply (l.map Access.read) ++ List.replicate padding kNop) =
      some (parse ((l.flatMap values.raws).map (item (K := K)))) := by
  have hreply : values.reply (l.map Access.read) =
      MultiplexParser.encodeBlocks (l.map values.block) := by
    rw [Values.reply, reads_map_read]
  have hlisted := listedBlocks_reply values hl
  have hlength := length_listed_le values l
  rw [← length_reply values hl] at hlength
  obtain ⟨turns, hturns⟩ : ∃ turns,
      (values.reply (l.map Access.read) ++ List.replicate padding kNop).length + 1 =
        turns + 1 + (l.flatMap values.raws).length := by
    refine ⟨(values.reply (l.map Access.read)).length - (l.flatMap values.raws).length + padding, ?_⟩
    rw [List.length_append, List.length_replicate]
    omega
  have hblocks : ∀ block ∈ l.map values.block, MultiplexParser.Block block.1 block.2 := by
    intro block hblock
    obtain ⟨run, hrun, rfl⟩ := List.mem_map.mp hblock
    exact block_ok values (hl run hrun)
  have hrest : ({ rest := values.reply (l.map Access.read) ++ List.replicate padding kNop } :
      MultiplexParser).rest = MultiplexParser.encodeBlocks (l.map values.block) ++
        List.replicate padding kNop := by
    rw [hreply]
  have hvalues := MultiplexParser.valuesWithin_blocks hblocks hrest rfl turns
  rw [hlisted] at hvalues
  rw [parseBytes, hturns]
  refine parseWithin_eq hvalues ?_ Result.new
  intro raw hraw
  obtain ⟨run, hrun, hmem⟩ := List.mem_flatMap.mp hraw
  obtain ⟨r, hr, rfl⟩ := List.mem_map.mp hmem
  have hres := Run.resolution_of_mem hr
  refine ⟨?_, values.length_bytes r.1 r.2⟩
  show r.2 ≠ .kIgnore
  rw [hres]
  exact (hl run hrun).resolution

/-- What a device reads out of a request. -/
theorem accesses_make {format : Format} (h : format.Wf) :
    accesses (make format) = (formatRuns format).map Access.read := by
  have hframe := accesses_frame (List.forall_mem_nil _) (formatRuns_ok h) 0
  rw [List.replicate_zero, List.append_nil, ← make_eq_runs] at hframe
  exact hframe

/-- **The round trip of a query.** What `Parse` makes of the answer to `Make` are the registers that
the format names, each at its resolution, with the values the device has for them. -/
theorem parseBytes_reply {format : Format} (h : format.Wf) (values : Values) (padding : Nat) :
    parseBytes (values.reply (accesses (make format)) ++ List.replicate padding kNop) =
      some (parse ((format.registers.filter (·.2 ≠ .kIgnore)).map fun r =>
        (item ⟨r.1, r.2, values.bytes r.1 r.2⟩ : Item K))) := by
  rw [accesses_make h, parseBytes_runs values (formatRuns_ok h), ← registers_formatRuns h,
    List.map_flatMap, List.map_flatMap]
  congr 2
  refine List.flatMap_congr fun run _ => ?_
  rw [Values.raws, List.map_map]
  rfl

theorem parseBytes_reply_default :
    let values := Values.constant 0x01
    parseBytes (values.reply (accesses (make {})) ++ List.replicate 2 kNop) =
      some (parse ((({} : Format).registers.filter (·.2 ≠ .kIgnore)).map fun r =>
        (item ⟨r.1, r.2, values.bytes r.1 r.2⟩ : Item ℝ))) :=
  parseBytes_reply ⟨List.Pairwise.nil, by simp, Nat.zero_le _, by simp⟩ _ 2

end Query

end Moteus

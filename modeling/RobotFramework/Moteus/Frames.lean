import RobotFramework.Moteus.Commands
import RobotFramework.Moteus.Reply

/-!
# `mjbots/moteus/moteus.h`: frames as bytes

`makeRaw` is `Controller::MakeFrame` down to the bytes: the command, then the query of the controller
or the one that was given instead. What a device makes of such a frame are the registers of the
command and the reads of the query, and the size the frame announces is the size of its answer, but
for what the command itself reads in front of a query (`makeRaw_accesses`). The frames of `MakeFrame`
with the command kept as a value are these, encoded (`makeRaw_toCommand`).
-/

namespace Moteus

open Cxx

/-- `CanFdFrame`, outgoing, in bytes. -/
structure RawFrame where
  bus : Int
  arbitrationId : BitVec 32
  destination : Int
  source : Int
  replyRequired : Bool
  data : CanData
  expectedReplySize : UInt8

/-- `CanFdFrame`, incoming, in bytes. -/
structure RawReply where
  source : Int
  data : List UInt8

namespace Controller

variable {K : Type} [Field K] [LinearOrder K] [FloorRing K] [Libm K]

/-- `DefaultFrame`, with the data filled in. -/
def defaultFrame (options : Options) (replyRequired : Bool) (data : CanData) (size : UInt8) :
    RawFrame :=
  let destination := toInt8 options.id
  let source := 0
  { bus := toInt8 options.bus
    arbitrationId := BitVec.ofInt 32 destination ||| BitVec.ofInt 32 (source * 256) |||
      (if replyRequired then 0x8000 else 0) ||| options.canPrefix <<< 16
    destination
    source
    replyRequired
    data
    expectedReplySize := size }

/-- `MakeFrame`, by a controller with these options. The query of the controller has been written
when it was built; it is copied with no regard for the room there is in the frame, and what does not
fit is out of bounds, `none` here. -/
def makeRaw (options : Options) (command : Command K) (queryFormatOverride : Option Query.Format) :
    Option RawFrame := do
  let (queryReplySize, queryFrame) ← Query.makeFrame CanData.empty options.queryFormat
  let (replySize, frame) ← Command.make CanData.empty command
  match queryFormatOverride with
  | some format =>
    let (size, frame) ← Query.makeFrame frame format
    return defaultFrame options true frame size
  | none =>
    if options.defaultQuery then
      let frame ← frame.write queryFrame.data
      return defaultFrame options true frame queryReplySize
    else return defaultFrame options false frame replySize

/-- The format of the query that a frame ends with. -/
def queryFormat (options : Options) : Option Query.Format → Option Query.Format
  | some format => some format
  | none => if options.defaultQuery then some options.queryFormat else none

/-- The runs that a frame reads. -/
def queryRuns (format : Option Query.Format) : List Run :=
  match format with
  | some format => Query.formatRuns format
  | none => []

/-- The runs whose answer a frame announces: those of the query, if there is one. -/
def announcedRuns (options : Options) (command : Command K)
    (queryFormatOverride : Option Query.Format) : List Run :=
  if (queryFormat options queryFormatOverride).isSome then
    queryRuns (queryFormat options queryFormatOverride)
  else command.readRuns

/-- What is in a frame. -/
theorem makeRaw_data {options : Options} (hoptions : options.queryFormat.Wf) {command : Command K}
    {override : Option Query.Format} (hoverride : ∀ format ∈ override, format.Wf) {raw : RawFrame}
    (h : makeRaw options command override = some raw) :
    ∃ size frame, Command.make CanData.empty command = some (size, frame) ∧
      raw.data.data = frame.data ++
        (queryRuns (queryFormat options override)).flatMap (Run.header 0x10) ∧
      raw.replyRequired = (queryFormat options override).isSome ∧
      raw.expectedReplySize =
        UInt8.ofNat ((announcedRuns options command override).map Run.replyLength).sum := by
  unfold makeRaw at h
  simp only [Option.bind_eq_bind] at h
  obtain ⟨⟨queryReplySize, queryFrame⟩, hquery, h⟩ := Option.bind_eq_some_iff.mp h
  obtain ⟨⟨replySize, frame⟩, hmake, h⟩ := Option.bind_eq_some_iff.mp h
  refine ⟨replySize, frame, hmake, ?_⟩
  rw [Query.makeFrame_eq hoptions] at hquery
  obtain ⟨queryFrame', hwrite, hpair⟩ := Option.map_eq_some_iff.mp hquery
  obtain ⟨rfl, rfl⟩ := Prod.mk.inj hpair
  rw [CanData.write_eq_some] at hwrite
  unfold announcedRuns
  cases override with
  | some format =>
    simp only at h
    obtain ⟨⟨size, frame'⟩, hformat, h⟩ := Option.bind_eq_some_iff.mp h
    rw [Query.makeFrame_eq (hoverride format rfl)] at hformat
    obtain ⟨frame'', hframe, hpair⟩ := Option.map_eq_some_iff.mp hformat
    obtain ⟨rfl, rfl⟩ := Prod.mk.inj hpair
    obtain rfl : defaultFrame options true frame'' _ = raw := Option.some.inj h
    rw [CanData.write_eq_some, Query.make_eq_runs] at hframe
    exact ⟨hframe, rfl, rfl⟩
  | none =>
    simp only at h
    split at h
    · rename_i hdefault
      obtain ⟨frame', hframe, h⟩ := Option.bind_eq_some_iff.mp h
      obtain rfl : defaultFrame options true frame' _ = raw := Option.some.inj h
      rw [CanData.write_eq_some, hwrite, Query.make_eq_runs] at hframe
      rw [queryFormat, if_pos hdefault]
      exact ⟨hframe, rfl, rfl⟩
    · rename_i hdefault
      obtain rfl : defaultFrame options false frame replySize = raw := Option.some.inj h
      rw [queryFormat, if_neg hdefault]
      exact ⟨(List.append_nil _).symm, rfl, (Command.make_eq_some hmake).2⟩

theorem queryRuns_ok {options : Options} (hoptions : options.queryFormat.Wf)
    {override : Option Query.Format} (hoverride : ∀ format ∈ override, format.Wf) :
    ∀ run ∈ queryRuns (queryFormat options override), run.Ok := by
  intro run hrun
  cases override with
  | some format => exact Query.formatRuns_ok (hoverride format rfl) run hrun
  | none =>
    rw [queryFormat] at hrun
    split at hrun
    · exact Query.formatRuns_ok hoptions run hrun
    · cases hrun

/-- **A frame does what it was made for.** A device that receives it, filled up with NOPs or not,
sets the mode and the registers of the command, and reads the registers of the command and those of
the query. The frame announces the size of the answer, or, where a query follows a command that reads
as well, the size of the query's part of it. -/
theorem makeRaw_accesses {options : Options} (hoptions : options.queryFormat.Wf)
    {command : Command K} {override : Option Query.Format}
    (hoverride : ∀ format ∈ override, format.Wf) {raw : RawFrame}
    (h : makeRaw options command override = some raw) (values : Values) (padding : Nat) :
    let bytes := raw.data.data ++ List.replicate padding kNop
    let query := queryRuns (queryFormat options override)
    accesses bytes =
      (command.modeRaw ++
        listed command.registers.1 (command.registers.2.map WriteCombiner.Value.cell)).map
          Access.write ++ (command.readRuns ++ query).map Access.read ∧
      (command.readRuns = [] ∨ (queryFormat options override).isNone →
        raw.expectedReplySize = UInt8.ofNat (values.reply (accesses bytes)).length) ∧
      ((queryFormat options override).isSome →
        raw.expectedReplySize = UInt8.ofNat (values.reply (query.map Access.read)).length) := by
  obtain ⟨size, frame, hmake, hdata, -, hsize⟩ := makeRaw_data hoptions hoverride h
  have hruns := queryRuns_ok hoptions hoverride
  have haccesses := Command.accesses_frame_make hmake hruns padding
  rw [← List.append_assoc, ← hdata] at haccesses
  refine ⟨haccesses, ?_, ?_⟩
  · intro hone
    have hannounced : announcedRuns options command override =
        command.readRuns ++ queryRuns (queryFormat options override) := by
      unfold announcedRuns
      rcases hone with hnone | hnone
      · rw [hnone, List.nil_append]
        split
        · rfl
        · rename_i hformat
          rw [Option.not_isSome_iff_eq_none.mp hformat]
          rfl
      · rw [Option.isNone_iff_eq_none.mp hnone]
        exact (List.append_nil _).symm
    rw [hsize, hannounced, haccesses, Values.reply, reads_append_write, ← Values.reply,
      length_reply values (List.forall_mem_append.mpr ⟨command.readRuns_ok, hruns⟩)]
  · intro hsome
    rw [hsize, announcedRuns, if_pos hsome, length_reply values hruns]

/-- A stopped motor is asked for its registers. -/
theorem makeRaw_accesses_stop :
    ∃ raw, makeRaw { id := 3 } (.stop : Command ℝ) none = some raw ∧
      accesses (raw.data.data ++ List.replicate 1 kNop) =
        [.write ⟨Register.kMode, .kInt8, [Mode.kStopped.code]⟩, .read ⟨0x00, 1, .kInt8⟩,
          .read ⟨0x01, 3, .kFloat⟩, .read ⟨0x0d, 3, .kInt8⟩] := by
  have hmake : ∃ raw, makeRaw { id := 3 } (.stop : Command ℝ) none = some raw := ⟨_, rfl⟩
  obtain ⟨raw, hraw⟩ := hmake
  have hwf : ({} : Query.Format).Wf := ⟨List.Pairwise.nil, by simp, Nat.zero_le _, by simp⟩
  have h := (makeRaw_accesses hwf (by simp) hraw (.constant 0) 1).1
  exact ⟨raw, hraw, h.trans (by decide)⟩

/-! ## Frames whose command is kept as a value -/

/-- The command that a kept one stands for. -/
def toCommand : ModeCommand K → Command K
  | .stopped => .stop
  | .position command =>
    .position { position := command.position, velocity := .num command.velocity } {}

/-- A frame in bytes. -/
def encodeFrame (queryReplySize : UInt8) (frame : CanFdFrame K) : RawFrame :=
  { bus := frame.bus
    arbitrationId := frame.arbitrationId
    destination := frame.destination
    source := frame.source
    replyRequired := frame.replyRequired
    data := (CanData.empty.write (writeBlocks (toCommand frame.command).blocks ++ frame.query)).getD
      CanData.empty
    expectedReplySize := queryReplySize }

/-- The bytes of a position command: the mode, then position and velocity as `float`s. -/
theorem writeBlocks_position (command : PositionCommand K) :
    writeBlocks (toCommand (.position command)).blocks =
      [0x01, 0x00, 0x0a, 0x0e, 0x20] ++ (writeNat 4 (Binary32.encode command.position) ++
        writeNat 4 (Binary32.encode (.num command.velocity))) := by
  have hcells : (toCommand (.position command)).registers.2.map WriteCombiner.Value.cell =
      (.kFloat, writeNat 4 (Binary32.encode command.position)) ::
        (.kFloat, writeNat 4 (Binary32.encode (.num command.velocity))) ::
          List.replicate 12 (.kIgnore, []) := rfl
  have hregisters : ∀ a b : List UInt8, encodeRegisters 0x00 .kIgnore Register.kCommandPosition
      ((.kFloat, a) :: (.kFloat, b) :: List.replicate 12 (.kIgnore, [])) =
        [0x0e, 0x20] ++ (a ++ b) := by
    intro a b
    simp [encodeRegisters, runLength, header, writeVaruint, Resolution.code, List.replicate,
      Register.kCommandPosition]
  have hblocks : (toCommand (.position command)).blocks =
      [(Register.kMode, [(.kInt8, [Mode.kPosition.code])]),
        (Register.kCommandPosition, (toCommand (.position command)).registers.2.map
          WriteCombiner.Value.cell)] := rfl
  have hmode : encodeRegisters 0x00 .kIgnore Register.kMode [(.kInt8, [Mode.kPosition.code])] =
      [0x01, 0x00, 0x0a] := by decide
  rw [hblocks, hcells, writeBlocks, List.flatMap_cons, List.flatMap_singleton, hregisters, hmode]
  simp only [List.cons_append, List.nil_append]

/-- The bytes of a stop command: the mode. -/
theorem writeBlocks_stop :
    writeBlocks (toCommand (.stopped : ModeCommand K)).blocks = [0x01, 0x00, 0x00] := by
  have hblocks : (toCommand (.stopped : ModeCommand K)).blocks =
      [(Register.kMode, [(.kInt8, [Mode.kStopped.code])]), (0, [])] := rfl
  rw [hblocks]
  decide

/-- There is room for a command and the default query. -/
theorem length_writeBlocks (command : ModeCommand K) :
    (writeBlocks (toCommand command).blocks ++ Query.make {}).length ≤ 64 := by
  rw [List.length_append]
  cases command with
  | stopped =>
    rw [writeBlocks_stop]
    decide
  | position command =>
    rw [writeBlocks_position]
    simp only [List.length_append, length_writeNat]
    decide

/-- **The frames with a value are the frames, encoded.** A controller with the defaults builds its
frames without an `abort`. -/
theorem makeRaw_toCommand (id bus : Int) (command : ModeCommand K) :
    makeRaw { id, bus } (toCommand command) none =
      some (encodeFrame 22 ((Controller.new { id, bus }).makeFrame command)) := by
  have hwf : ({} : Query.Format).Wf :=
    ⟨List.Pairwise.nil, by simp, Nat.zero_le _, by simp⟩
  have hquery : (CanData.empty.write (Query.make {})) =
      some ⟨Query.make {}, by decide⟩ := by
    rw [CanData.write_eq_some]
    rfl
  have hlength := length_writeBlocks command
  have hroom : (writeBlocks (toCommand command).blocks).length ≤ 64 := by
    rw [List.length_append] at hlength
    exact Nat.le_trans (Nat.le_add_right _ _) hlength
  have hreads : (toCommand command).readRuns = [] := by cases command <;> rfl
  have hwrite : CanData.empty.write (writeBlocks (toCommand command).blocks) =
      some ⟨writeBlocks (toCommand command).blocks, hroom⟩ := by
    rw [CanData.write_eq_some]
    rfl
  have hcommand : Command.make CanData.empty (toCommand command) =
      some (0, ⟨writeBlocks (toCommand command).blocks, hroom⟩) := by
    rw [Command.make_eq, hreads, List.flatMap_nil, List.append_nil, hwrite]
    rfl
  have hwhole : CanData.write ⟨writeBlocks (toCommand command).blocks, hroom⟩ (Query.make {}) =
      some ⟨writeBlocks (toCommand command).blocks ++ Query.make {}, hlength⟩ := by
    rw [CanData.write_eq_some]
  have hencode : CanData.empty.write (writeBlocks (toCommand command).blocks ++ Query.make {}) =
      some ⟨writeBlocks (toCommand command).blocks ++ Query.make {}, hlength⟩ := by
    rw [CanData.write_eq_some]
    rfl
  have hsize : UInt8.ofNat ((Query.formatRuns {}).map Run.replyLength).sum = 22 := by decide
  have hframe : ((Controller.new { id, bus }).makeFrame command).query = Query.make {} := rfl
  have hkept : ((Controller.new { id, bus }).makeFrame command).command = command := rfl
  rw [makeRaw, Query.makeFrame_eq hwf, hquery, hcommand, encodeFrame, hframe, hkept, hencode]
  simp only [Option.map_some, Option.bind_eq_bind, Option.bind_some, hwhole, hsize,
    Option.getD_some, if_true, pure, defaultFrame, makeFrame, Controller.new]

end Controller

end Moteus

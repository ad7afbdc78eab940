import RobotFramework.Moteus.Frames
import RobotFramework.Telemetry.Telemetry

/-!
# `Telemetry/Telemetry.cpp`: one cycle, in bytes

`cycleRaw` is `Telemetry::cycle` over a transport that takes and returns frames of bytes. It refines
`cycle`, whose frames keep the command as a value and whose replies are registers: for every motor
map and whatever the transport returns, no step ends in an `abort`, the frames are those of `cycle`,
encoded, and the map is the one `cycle` gets of the replies, decoded (`cycleRaw_eq`).

Where devices are on the other end that do as the frames say, the map has for each of them the
values it sent (`cycleRaw_devices`).
-/

namespace RobotFramework

open Cxx Moteus

/-- The transport of a cycle, in bytes. -/
abbrev RawBus := List RawFrame → List RawReply

namespace Telemetry

variable {K : Type} [Field K] [LinearOrder K] [FloorRing K] [Libm K]

/-! ## The code -/

/-- `MakePosition` of a controller, in bytes. -/
def rawFrame (c : Controller) (velocity : K) : Option RawFrame :=
  Controller.makeRaw c.options
    (.position { position := .nan, velocity := .num velocity } {}) none

/-- The frames of one cycle. -/
def rawFrames (velocityMap : Std.TreeMap Int K) :
    List (Int × Controller) → Option (List (Int × RawFrame))
  | [] => some []
  | (id, c) :: controllers => do
    let frame ← rawFrame c (velocityMap[id]?.getD 0)
    let frames ← rawFrames velocityMap controllers
    return (id, frame) :: frames

/-- The replies of a cycle, keyed by `frame.source`. -/
def rawServoData (servoData : Std.TreeMap Int (MotorTelemetry K)) :
    List RawReply → Option (Std.TreeMap Int (MotorTelemetry K))
  | [] => some servoData
  | reply :: replies => do
    let parsed ← Query.parseBytes reply.data
    let mt : MotorTelemetry K :=
      { temperature := parsed.temperature
        voltage := parsed.voltage
        velocity := parsed.velocity
        current := parsed.qCurrent
        mode := parsed.mode }
    rawServoData (servoData.insert reply.source mt) replies

def cycleRaw (controllers : Controllers) (velocityMap : Std.TreeMap Int K) (bus : RawBus) :
    Option (List (Int × RawFrame) × Std.TreeMap Int (MotorTelemetry K)) := do
  let commandFrames ← rawFrames velocityMap controllers.toList
  let replies := if commandFrames.isEmpty then [] else bus (commandFrames.map (·.2))
  let servoData ← rawServoData ∅ replies
  return (commandFrames, servoData)

/-! ## The refinement -/

/-- A reply as the registers in it. -/
def decodeReply (reply : RawReply) : ReplyFrame K :=
  { source := reply.source, items := Query.decode reply.data }

/-- A transport of bytes as one of values. -/
def abstractBus (bus : RawBus) : MotorBus K := fun frames =>
  (bus (frames.map (Controller.encodeFrame 22))).map decodeReply

theorem rawFrames_eq {controllers : List (Int × Controller)}
    (h : ∀ p ∈ controllers, ∃ bus, p.2 = Controller.new { id := p.1, bus })
    (velocityMap : Std.TreeMap Int K) :
    rawFrames velocityMap controllers = some (controllers.map fun p =>
      (p.1, Controller.encodeFrame 22 (p.2.makePosition
        { position := .nan, velocity := velocityMap[p.1]?.getD 0 }))) := by
  induction controllers with
  | nil => rfl
  | cons p controllers ih =>
    obtain ⟨id, c⟩ := p
    obtain ⟨bus, hc⟩ := h _ List.mem_cons_self
    simp only at hc
    subst hc
    have hframe : rawFrame (Controller.new { id, bus }) (velocityMap[id]?.getD 0) =
        some (Controller.encodeFrame 22 ((Controller.new { id, bus }).makePosition
          { position := .nan, velocity := velocityMap[id]?.getD 0 })) :=
      Controller.makeRaw_toCommand id bus
        (.position { position := .nan, velocity := velocityMap[id]?.getD 0 })
    rw [rawFrames, hframe, ih fun q hq => h q (List.mem_cons_of_mem _ hq)]
    rfl

theorem rawServoData_eq (replies : List RawReply) (data : Std.TreeMap Int (MotorTelemetry K)) :
    rawServoData data replies = some ((replies.map decodeReply).foldl
      (fun m frame => m.insert frame.source (parseReply frame)) data) := by
  induction replies generalizing data with
  | nil => rfl
  | cons reply replies ih =>
    rw [rawServoData, Query.parseBytes_decode]
    exact ih _

theorem cycleRaw_eq_some (servoMap : Std.TreeMap Int Int) (velocityMap : Std.TreeMap Int K)
    (bus : RawBus) :
    let abstract := cycle (controllers servoMap) velocityMap (abstractBus bus)
    cycleRaw (controllers servoMap) velocityMap bus =
      some (abstract.1.map fun p => (p.1, Controller.encodeFrame 22 p.2), abstract.2) := by
  have hcontrollers : ∀ p ∈ (controllers servoMap).toList,
      ∃ bus, p.2 = Controller.new { id := p.1, bus } := fun p hp => controllers_mem hp
  have hframes := rawFrames_eq hcontrollers velocityMap
  have hcommand : (controllers servoMap).toList.map (fun p =>
      (p.1, Controller.encodeFrame 22 (p.2.makePosition
        { position := .nan, velocity := velocityMap[p.1]?.getD 0 }))) =
      (commandFrames (controllers servoMap) velocityMap).map fun p =>
        (p.1, Controller.encodeFrame 22 p.2) := by
    rw [commandFrames, List.map_map]
    rfl
  rw [hcommand] at hframes
  unfold cycleRaw cycle
  simp only [hframes, Option.bind_eq_bind, Option.bind_some, rawServoData_eq, servoData,
    abstractBus, List.isEmpty_map, List.map_map]
  cases (commandFrames (controllers servoMap) velocityMap).isEmpty <;> rfl

/-- **`cycle` in bytes does what `cycle` does**, whatever comes back. -/
theorem cycleRaw_eq (servoMap : Std.TreeMap Int Int) (velocityMap : Std.TreeMap Int K)
    (bus : RawBus) :
    ∃ frames data, cycleRaw (controllers servoMap) velocityMap bus = some (frames, data) ∧
      frames = (commandFrames (controllers servoMap) velocityMap).map (fun p =>
        (p.1, Controller.encodeFrame 22 p.2)) ∧
      data = (cycle (controllers servoMap) velocityMap (abstractBus bus)).2 :=
  ⟨_, _, cycleRaw_eq_some servoMap velocityMap bus, rfl, rfl⟩

/-! ## Devices -/

/-- A bus with devices on it, each with the bytes of its registers: a frame is answered by its
destination, if there is one. Frames are filled up with NOPs, on either way. -/
def deviceBus (devices : Int → Option Values) (padding : RawFrame → Nat × Nat) : RawBus :=
  fun frames => frames.filterMap fun frame => (devices frame.destination).map fun values =>
    { source := frame.destination
      data := values.reply
          (accesses (frame.data.data ++ List.replicate (padding frame).1 kNop)) ++
        List.replicate (padding frame).2 kNop }

/-- A register of a device as it is read. -/
def seen (values : Values) (register : Nat) (resolution : Resolution) : Double K :=
  (Query.readRegister register resolution (values.bytes register resolution)).getD .nan

/-- What is reported of a device. -/
def report (values : Values) : MotorTelemetry K where
  temperature := seen values Register.kTemperature .kInt8
  voltage := seen values Register.kVoltage .kInt8
  velocity := seen values Register.kVelocity .kFloat
  current := .nan
  mode := (seen values Register.kMode .kInt8 : Double K).trunc

theorem formatRuns_default :
    Query.formatRuns {} = [⟨0x00, 1, .kInt8⟩, ⟨0x01, 3, .kFloat⟩, ⟨0x0d, 3, .kInt8⟩] := by
  decide

theorem format_default_wf : ({} : Query.Format).Wf :=
  ⟨List.Pairwise.nil, by simp, Nat.zero_le _, by simp⟩

/-- What is reported of a reply with the registers of the default format. -/
theorem parseReply_default (source : Int)
    (mode position velocity torque voltage temperature fault : Double K) :
    parseReply
      { source
        items := [⟨Register.kMode, mode⟩, ⟨Register.kPosition, position⟩,
          ⟨Register.kVelocity, velocity⟩, ⟨Register.kTorque, torque⟩,
          ⟨Register.kVoltage, voltage⟩, ⟨Register.kTemperature, temperature⟩,
          ⟨Register.kFault, fault⟩] } =
      { temperature, voltage, velocity, current := .nan, mode := mode.trunc } := rfl

/-- What a device is told by a frame of a cycle: mode and velocity, and the reads of the default
query. The position is left open. -/
def positionAccesses (velocity : K) : List Access :=
  [.write ⟨Register.kMode, .kInt8, [Mode.kPosition.code]⟩,
    .write ⟨Register.kCommandPosition, .kFloat, writeNat 4 (Binary32.encode (.nan : Double K))⟩,
    .write ⟨Register.kCommandVelocity, .kFloat, writeNat 4 (Binary32.encode (.num velocity))⟩] ++
  (Query.formatRuns {}).map Access.read

/-- What a device is told by a frame of a controller with the defaults. -/
def told : ModeCommand K → List Access
  | .stopped =>
    .write ⟨Register.kMode, .kInt8, [Mode.kStopped.code]⟩ ::
      (Query.formatRuns {}).map Access.read
  | .position command =>
    [.write ⟨Register.kMode, .kInt8, [Mode.kPosition.code]⟩,
      .write ⟨Register.kCommandPosition, .kFloat, writeNat 4 (Binary32.encode command.position)⟩,
      .write ⟨Register.kCommandVelocity, .kFloat,
        writeNat 4 (Binary32.encode (.num command.velocity))⟩] ++
    (Query.formatRuns {}).map Access.read

theorem accesses_frame (id bus : Int) (command : ModeCommand K) (padding : Nat) :
    accesses
      ((Controller.encodeFrame 22 ((Controller.new { id, bus }).makeFrame command)).data.data ++
        List.replicate padding kNop) = told command := by
  have hraw := Controller.makeRaw_toCommand (K := K) id bus command
  obtain ⟨size, frame, hmake, hdata, -⟩ :=
    Controller.makeRaw_data format_default_wf (by simp) hraw
  have haccesses :=
    Command.accesses_frame_make hmake (Query.formatRuns_ok format_default_wf) padding
  rw [← List.append_assoc] at haccesses
  rw [hdata]
  cases command with
  | stopped => exact haccesses
  | position command => exact haccesses

theorem accesses_position (id bus : Int) (velocity : K) (padding : Nat) :
    accesses ((Controller.encodeFrame 22 ((Controller.new { id, bus }).makePosition
      { position := .nan, velocity })).data.data ++ List.replicate padding kNop) =
      positionAccesses velocity :=
  accesses_frame id bus (.position { position := .nan, velocity }) padding

/-- The reply to these accesses, parsed. -/
theorem parseReply_position (source : Int) (velocity : K) (values : Values) (padding : Nat) :
    parseReply (decodeReply (K := K)
      { source
        data := values.reply (positionAccesses velocity) ++ List.replicate padding kNop }) =
      report values := by
  have hruns := Query.formatRuns_ok format_default_wf
  have hreply : values.reply (positionAccesses velocity) =
      values.reply ((Query.formatRuns {}).map Access.read) := rfl
  have hparse := Query.parseBytes_runs (K := K) values hruns padding
  rw [Query.parseBytes_decode, formatRuns_default, Option.some_inj] at hparse
  have hitems : ((([⟨0x00, 1, .kInt8⟩, ⟨0x01, 3, .kFloat⟩, ⟨0x0d, 3, .kInt8⟩] : List Run).flatMap
      values.raws).map (Query.item (K := K))) =
      [⟨Register.kMode, seen values Register.kMode .kInt8⟩,
        ⟨Register.kPosition, seen values Register.kPosition .kFloat⟩,
        ⟨Register.kVelocity, seen values Register.kVelocity .kFloat⟩,
        ⟨Register.kTorque, seen values Register.kTorque .kFloat⟩,
        ⟨Register.kVoltage, seen values Register.kVoltage .kInt8⟩,
        ⟨Register.kTemperature, seen values Register.kTemperature .kInt8⟩,
        ⟨Register.kFault, seen values Register.kFault .kInt8⟩] := rfl
  have hdefault := parseReply_default (K := K) source (seen values Register.kMode .kInt8)
    (seen values Register.kPosition .kFloat) (seen values Register.kVelocity .kFloat)
    (seen values Register.kTorque .kFloat) (seen values Register.kVoltage .kInt8)
    (seen values Register.kTemperature .kInt8) (seen values Register.kFault .kInt8)
  rw [hreply, formatRuns_default, report, ← hdefault, ← hitems, parseReply, parseReply, decodeReply,
    hparse]

/-- The reply to a frame of a cycle, parsed. -/
theorem parseReply_device (id bus : Int) (velocity : K) (values : Values) (sent back : Nat) :
    parseReply (decodeReply (K := K)
      { source := toInt8 id
        data := values.reply (accesses
            ((Controller.encodeFrame 22 ((Controller.new { id, bus }).makePosition
              { position := .nan, velocity })).data.data ++ List.replicate sent kNop)) ++
          List.replicate back kNop }) = report values := by
  rw [accesses_position, parseReply_position]

/-- The controllers, one for each entry of the map. -/
theorem mem_controllers_iff {servoMap : Std.TreeMap Int Int} {id : Int} {c : Controller} :
    (id, c) ∈ (controllers servoMap).toList ↔
      ∃ bus, servoMap[id]? = some bus ∧ c = Controller.new { id, bus } := by
  have hnodup : (servoMap.toList.map Prod.fst).Nodup := by
    rw [Std.TreeMap.map_fst_toList_eq_keys]
    exact servoMap.nodup_keys
  rw [controllers, mem_toList_foldl_insert_iff hnodup]
  constructor
  · rintro ⟨p, hp, rfl, rfl⟩
    exact ⟨p.2, Std.TreeMap.mem_toList_iff_getElem?_eq_some.mp hp, rfl⟩
  · rintro ⟨bus, hbus, rfl⟩
    exact ⟨(id, bus), Std.TreeMap.mem_toList_iff_getElem?_eq_some.mpr hbus, rfl, rfl⟩

/-- What comes back from a list, each from another element, has no key twice. -/
theorem nodup_filterMap {α β : Type} {l : List α} {f : α → Option β} {key : β → Int} {key' : α → Int}
    (hkey : ∀ a ∈ l, ∀ b ∈ f a, key b = key' a) (hl : (l.map key').Nodup) :
    ((l.filterMap f).map key).Nodup := by
  induction l with
  | nil => exact List.nodup_nil
  | cons a l ih =>
    rw [List.map_cons, List.nodup_cons] at hl
    have hrest := ih (fun c hc => hkey c (List.mem_cons_of_mem _ hc)) hl.2
    rw [List.filterMap_cons]
    cases hf : f a with
    | none => exact hrest
    | some b =>
      rw [List.map_cons, List.nodup_cons]
      refine ⟨fun hmem => hl.1 ?_, hrest⟩
      obtain ⟨b', hb', hsame⟩ := List.mem_map.mp hmem
      obtain ⟨c, hc, hfc⟩ := List.mem_filterMap.mp hb'
      have hcb := hkey c (List.mem_cons_of_mem _ hc) b' hfc
      have hab := hkey a List.mem_cons_self b hf
      rw [← hab, ← hsame, hcb]
      exact List.mem_map_of_mem hc

/-- The reply of a device to the frame of its controller. -/
def deviceReply (velocityMap : Std.TreeMap Int K) (devices : Int → Option Values)
    (padding : RawFrame → Nat × Nat) (p : Int × Controller) : Option RawReply :=
  let frame := Controller.encodeFrame 22 (p.2.makePosition
    { position := .nan, velocity := velocityMap[p.1]?.getD 0 })
  (devices frame.destination).map fun values =>
    { source := frame.destination
      data := values.reply
          (accesses (frame.data.data ++ List.replicate (padding frame).1 kNop)) ++
        List.replicate (padding frame).2 kNop }

theorem cycle_devices (controllers : Controllers) (velocityMap : Std.TreeMap Int K)
    (devices : Int → Option Values) (padding : RawFrame → Nat × Nat) :
    (cycle controllers velocityMap (abstractBus (deviceBus devices padding))).2 =
      servoData ((controllers.toList.filterMap (deviceReply velocityMap devices padding)).map
        decodeReply) := by
  have hbus : abstractBus (deviceBus devices padding)
      ((commandFrames controllers velocityMap).map (·.2)) =
      (controllers.toList.filterMap (deviceReply velocityMap devices padding)).map decodeReply := by
    rw [abstractBus, deviceBus, commandFrames, List.map_map, List.map_map, List.filterMap_map]
    rfl
  unfold cycle
  dsimp only
  rw [hbus]
  split
  · rename_i hempty
    have hnone : controllers.toList = [] := by
      rw [List.isEmpty_iff, commandFrames, List.map_eq_nil_iff] at hempty
      exact hempty
    rw [hnone]
    rfl
  · rfl

/-- It bears the ID of the motor, and is parsed as a report of the device. -/
theorem deviceReply_new {id : Int} (hid : 0 ≤ id ∧ id < 128) (bus : Int)
    (velocityMap : Std.TreeMap Int K) (devices : Int → Option Values)
    (padding : RawFrame → Nat × Nat) :
    ∃ f : Values → RawReply,
      deviceReply velocityMap devices padding (id, Controller.new { id, bus }) =
        (devices id).map f ∧
      ∀ values, (f values).source = id ∧ parseReply (decodeReply (K := K) (f values)) =
        report values := by
  obtain ⟨hlo, hhi⟩ := hid
  have hint8 : toInt8 id = id := Int.bmod_eq_of_le (by omega) (by omega)
  have hdest : (Controller.encodeFrame 22 ((Controller.new { id, bus }).makePosition
      { position := .nan, velocity := velocityMap[id]?.getD 0 })).destination = id := hint8
  unfold deviceReply
  dsimp only
  rw [hdest]
  exact ⟨_, rfl, fun values => ⟨rfl, parseReply_device id bus _ values _ _⟩⟩

/-- **Every motor of the map is reported with what its device sent**, and nothing else is. -/
theorem servoData_devices {servoMap : Std.TreeMap Int Int}
    (hids : ∀ id ∈ servoMap, 0 ≤ id ∧ id < 128) (velocityMap : Std.TreeMap Int K)
    (devices : Int → Option Values) (padding : RawFrame → Nat × Nat) (id : Int) :
    (cycle (controllers servoMap) velocityMap (abstractBus (deviceBus devices padding))).2[id]? =
      if id ∈ servoMap then (devices id).map report else none := by
  have hreply : ∀ p ∈ (controllers servoMap).toList, p.1 ∈ servoMap ∧
      ∃ f : Values → RawReply, deviceReply velocityMap devices padding p = (devices p.1).map f ∧
        ∀ values, (f values).source = p.1 ∧ parseReply (decodeReply (K := K) (f values)) =
          report values := by
    rintro ⟨id, c⟩ hp
    obtain ⟨bus, hbus, rfl⟩ := mem_controllers_iff.mp hp
    have hmem : id ∈ servoMap := Std.TreeMap.mem_iff_isSome_getElem?.mpr (by rw [hbus]; rfl)
    exact ⟨hmem, deviceReply_new (hids id hmem) bus velocityMap devices padding⟩
  have hkeys : ((controllers servoMap).toList.map Prod.fst).Nodup := by
    rw [Std.TreeMap.map_fst_toList_eq_keys]
    exact Std.TreeMap.nodup_keys
  have hnodup : (((controllers servoMap).toList.filterMap
      (deviceReply velocityMap devices padding)).map RawReply.source).Nodup := by
    refine nodup_filterMap (fun p hp reply h => ?_) hkeys
    obtain ⟨-, f, hf, hspec⟩ := hreply p hp
    rw [hf] at h
    obtain ⟨values, -, rfl⟩ := Option.map_eq_some_iff.mp h
    exact (hspec values).1
  rw [cycle_devices, servoData, List.foldl_map]
  refine Option.ext fun t => ?_
  have hiff : (id, t) ∈ (((controllers servoMap).toList.filterMap
      (deviceReply velocityMap devices padding)).foldl (fun m reply =>
        m.insert (decodeReply (K := K) reply).source (parseReply (decodeReply reply)))
          (∅ : Std.TreeMap Int (MotorTelemetry K))).toList ↔ _ :=
    mem_toList_foldl_insert_iff hnodup
  rw [← Std.TreeMap.mem_toList_iff_getElem?_eq_some, hiff]
  constructor
  · rintro ⟨reply, hmem, hsource, ht⟩
    obtain ⟨p, hp, hdevice⟩ := List.mem_filterMap.mp hmem
    obtain ⟨hin, f, hf, hspec⟩ := hreply p hp
    rw [hf] at hdevice
    obtain ⟨values, hvalues, rfl⟩ := Option.map_eq_some_iff.mp hdevice
    obtain ⟨hid, hreport⟩ := hspec values
    have hsame : p.1 = id := hid.symm.trans hsource
    rw [← hsame, if_pos hin, hvalues, ← ht, hreport]
    rfl
  · intro h
    split at h
    · rename_i hin
      obtain ⟨values, hvalues, rfl⟩ := Option.map_eq_some_iff.mp h
      obtain ⟨bus, hbus⟩ := Option.isSome_iff_exists.mp (Std.TreeMap.mem_iff_isSome_getElem?.mp hin)
      have hp : (id, Controller.new { id, bus }) ∈ (controllers servoMap).toList :=
        mem_controllers_iff.mpr ⟨bus, hbus, rfl⟩
      obtain ⟨-, f, hf, hspec⟩ := hreply _ hp
      rw [hvalues] at hf
      exact ⟨f values, List.mem_filterMap.mpr ⟨_, hp, hf⟩, hspec values⟩
    · cases h

/-- **A cycle reports every motor of the map with what its device sent**, and nothing else: a device
that is missing leaves no entry, one that no controller stands for is never asked. -/
theorem cycleRaw_devices {servoMap : Std.TreeMap Int Int}
    (hids : ∀ id ∈ servoMap, 0 ≤ id ∧ id < 128) (velocityMap : Std.TreeMap Int K)
    (devices : Int → Option Values) (padding : RawFrame → Nat × Nat) :
    ∃ frames data, cycleRaw (controllers servoMap) velocityMap (deviceBus devices padding) =
        some (frames, data) ∧
      ∀ id : Int, data[id]? = if id ∈ servoMap then (devices id).map report else none :=
  ⟨_, _, cycleRaw_eq_some servoMap velocityMap _,
    fun id => servoData_devices hids velocityMap devices padding id⟩

theorem ids_pair : ∀ id ∈ (.ofList [((1 : Int), (1 : Int)), (2, 4)] : Std.TreeMap Int Int),
    0 ≤ id ∧ id < 128 := by
  intro id hid
  rw [Std.TreeMap.mem_ofList] at hid
  simp only [List.map_cons, List.map_nil, List.contains_eq_mem, List.mem_cons, List.not_mem_nil,
    or_false, decide_eq_true_eq] at hid
  omega

/-- Two motors, of which only the first is there. -/
theorem cycleRaw_devices_one :
    let devices : Int → Option Values := fun id => if id = 1 then some (.constant 1) else none
    ∃ frames data, cycleRaw (controllers (.ofList [((1 : Int), (1 : Int)), (2, 4)]))
        (∅ : Std.TreeMap Int ℝ) (deviceBus devices fun _ => (0, 0)) = some (frames, data) ∧
      data[(1 : Int)]? = some (report (.constant 1)) ∧ data[(2 : Int)]? = none := by
  intro devices
  obtain ⟨frames, data, hcycle, hdata⟩ :=
    cycleRaw_devices (K := ℝ) ids_pair ∅ devices fun _ => (0, 0)
  exact ⟨frames, data, hcycle, (hdata 1).trans rfl, (hdata 2).trans rfl⟩

end Telemetry

end RobotFramework

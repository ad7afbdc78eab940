import RobotFramework.Main.Exit
import RobotFramework.Telemetry.Routing

/-!
# What the motors are told

The frames of a history go through the board to the buses, a cycle at a time: the motor block sends
one frame for each controller in one cycle, `SetStop` each frame in a cycle of its own. What the
devices see of a run does not depend on that: on every bus it is the history, as far as it concerns
the motors that the map has there (`World.bus_traffic`). A device that is there when the process has
ended has been told to stop, and nothing since (`World.exited_traffic`).
-/

namespace RobotFramework.Main

open Cxx Moteus Reactive Pi3Hat Telemetry

variable {K : Type}

/-- The motor map that controllers and transport are built from. -/
def World.servoMap (w : World K) : Std.TreeMap Int Int := yamlLoadMotorMap w.motorMap

/-! ## The frames of a run -/

/-- A frame with which a controller of the map stops its motor or gives it a velocity. -/
def Made (servoMap : Std.TreeMap Int Int) (p : Int × CanFdFrame K) : Prop :=
  ∃ bus, servoMap[p.1]? = some bus ∧
    (p.2 = (Controller.new { id := p.1, bus }).makeStop ∨
      ∃ velocity,
        p.2 = (Controller.new { id := p.1, bus }).makePosition { position := .nan, velocity })

theorem made_of_mem_stopFrames {servoMap : Std.TreeMap Int Int} {p : Int × CanFdFrame K}
    (hp : p ∈ stopFrames (controllers servoMap)) : Made servoMap p := by
  obtain ⟨⟨id, c⟩, hc, rfl⟩ := List.mem_map.mp hp
  obtain ⟨bus, hbus, rfl⟩ := mem_controllers_iff.mp hc
  exact ⟨bus, hbus, Or.inl rfl⟩

theorem made_of_mem_commandFrames [Field K] {servoMap : Std.TreeMap Int Int}
    {velocityMap : Std.TreeMap Int K} {p : Int × CanFdFrame K}
    (hp : p ∈ commandFrames (controllers servoMap) velocityMap) :
    Made servoMap p := by
  obtain ⟨⟨id, c⟩, hc, rfl⟩ := List.mem_map.mp hp
  obtain ⟨bus, hbus, rfl⟩ := mem_controllers_iff.mp hc
  exact ⟨bus, hbus, Or.inr ⟨_, rfl⟩⟩

theorem mem_stopFrames_of_setStop {cfg : Config K} {p : Int × CanFdFrame K}
    (hp : .frame p.1 p.2 ∈ setStop cfg) : p ∈ stopFrames cfg.controllers := by
  rw [← frames_setStop]
  exact mem_frames.mpr hp

variable [Field K] [LinearOrder K] [FloorRing K] [Libm K]

/-- A step puts out the frames of a motor cycle or stops controllers. -/
theorem frame_of_mem_next {cfg : Config K} {s : State K} {p : Int × CanFdFrame K}
    {input : Input K} (hp : .frame p.1 p.2 ∈ (next cfg input s).2) :
    p ∈ commandFrames cfg.controllers s.velocityMap ∨ p ∈ stopFrames cfg.controllers := by
  unfold next at hp
  cases hpc : s.pc with
  | head =>
    obtain ⟨currentTime, timers, heq⟩ := head_eq input s
    simp only [hpc, heq] at hp
    cases hp
  | receiver =>
    right
    simp only [hpc] at hp
    by_cases hdue : s.receives cfg
    · by_cases ht : s.udp.receive.2 = TIMEOUT
      · rw [receiver_timeout hdue ht, onTimeout] at hp
        split at hp <;> simp [logSub] at hp
      · by_cases hs : s.udp.receive.2 = STOP
        · rw [receiver_stop hdue hs] at hp
          apply mem_stopFrames_of_setStop
          simpa [onStop, logSub] using hp
        · rw [receiver_command hdue ht hs] at hp
          simp [onCommand, logSub] at hp
    · rw [receiver_idle hdue] at hp
      cases hp
  | camera =>
    simp only [hpc, camera] at hp
    split at hp <;> simp [logSub] at hp
  | motor =>
    left
    simp only [hpc] at hp
    obtain ⟨-, ⟨q, hq, heq⟩ | ⟨q, -, hlog⟩⟩ := mem_motor hp
    · obtain ⟨hid, hframe⟩ := Effect.frame.inj heq
      rw [Prod.ext hid hframe]
      exact hq
    · rcases mem_logMotor hlog with ⟨data, h⟩ | h <;> cases h
  | sender =>
    simp only [hpc, sender] at hp
    split at hp <;> simp [logSub] at hp
  | arduino =>
    simp only [hpc] at hp
    rcases mem_arduino hp with ⟨-, ⟨h, -⟩ | h | h⟩ <;> cases h
  | shutdown =>
    right
    simp only [hpc] at hp
    apply mem_stopFrames_of_setStop
    simpa [shutdown, log] using hp
  | exited =>
    simp only [hpc] at hp
    cases hp

/-- **Whatever goes out in a run is made by a controller of the map**, to stop its motor or to give
it a velocity. -/
theorem World.made_of_mem_frames {w : World K} {es : List (Event K)} {p : Int × CanFdFrame K}
    (hp : p ∈ frames (w.history es)) : Made w.servoMap p := by
  have hmem := mem_frames.mp hp
  rcases List.mem_append.mp hmem with hstart | htrace
  · rcases World.log_or_stop_of_mem_startup hstart with ⟨call, h, -⟩ | h
    · cases h
    · exact made_of_mem_stopFrames (mem_stopFrames_of_setStop h)
  · obtain ⟨pre, e, post, -, hout⟩ := Machine.mem_trace.mp htrace
    cases e with
    | step input =>
      rcases frame_of_mem_next hout with h | h
      · exact made_of_mem_commandFrames h
      · exact made_of_mem_stopFrames h
    | arrive d => cases hout
    | signal => cases hout
    | observe obs => cases hout

/-! ## The buses -/

/-- What the board puts on its lines for these cycles. -/
def World.transfers (w : World K) (enableAux : Bool) (cycles : List (List (Int × CanFdFrame K))) :
    List Transfer :=
  (cycles.map fun cycle => cycle.map fun p =>
    canFrame w.servoMap (Controller.encodeFrame 22 p.2)).flatMap (sendCan enableAux)

/-- The bus that the map has a motor on, and what arrives there for it. -/
theorem World.accesses_received (w : World K) {enableAux : Bool}
    (hmap : OnBoard enableAux w.servoMap) {es : List (Event K)}
    {cycles : List (List (Int × CanFdFrame K))} (hcycles : cycles.flatten = frames (w.history es))
    {bus : Int} (hbus : bus ∈ busOrder) :
    (received bus (w.transfers enableAux cycles)).map (fun frame => (frame.1, accesses frame.2)) =
      ((frames (w.history es)).filter fun p => w.servoMap[p.1]? = some bus).map fun p =>
        (BitVec.ofNat 32 (2 ^ 15 + p.1.toNat), told p.2.command) := by
  let onBus : Int × CanFdFrame K → Int := fun p => w.servoMap[p.1]?.getD 0
  have hmade : ∀ p ∈ frames (w.history es), w.servoMap[p.1]? = some (onBus p) ∧
      Controller.encodeFrame 22 p.2 = motorFrame p.1 (onBus p) p.2.command := by
    intro p hp
    obtain ⟨bus', hbus', hframe⟩ := World.made_of_mem_frames hp
    have hon : onBus p = bus' := by simp [onBus, hbus']
    rw [hon]
    refine ⟨hbus', ?_⟩
    rcases hframe with h | ⟨velocity, h⟩
    · rw [h]
      rfl
    · rw [h]
      rfl
  have hsent : (cycles.map fun cycle => cycle.map fun p =>
      canFrame w.servoMap (Controller.encodeFrame 22 p.2)).flatten =
      ((frames (w.history es)).map fun p => motorFrame p.1 (onBus p) p.2.command).map
        (canFrame w.servoMap) := by
    rw [← List.map_flatten, hcycles, List.map_map]
    apply List.map_congr_left
    intro p hp
    rw [(hmade p hp).2]
    rfl
  have hfilter : (frames (w.history es)).filter (onBus · = bus) =
      (frames (w.history es)).filter fun p => w.servoMap[p.1]? = some bus := by
    apply List.filter_congr
    intro p hp
    simp only [(hmade p hp).1, Option.some_inj]
  rw [World.transfers, received_flatten _ _ hbus, hsent,
    received_motorFrames hmap (fun p hp => (hmade p hp).1) hbus, List.map_map, hfilter]
  apply List.map_congr_left
  intro p hp
  have haccesses : accesses (canFrame w.servoMap (motorFrame p.1 (onBus p) p.2.command)).padded =
      told p.2.command := accesses_frame p.1 (onBus p) p.2.command _
  simp only [Function.comp_apply, haccesses]

/-- **On every bus there is the history**, as far as it concerns the motors that the map has there,
however it is spread over cycles: each is told to stop, or a velocity, and never a position. -/
theorem World.bus_traffic (w : World K) {enableAux : Bool} (hmap : OnBoard enableAux w.servoMap)
    {es : List (Event K)} {cycles : List (List (Int × CanFdFrame K))}
    (hcycles : cycles.flatten = frames (w.history es)) {bus : Int} (hbus : bus ∈ busOrder) :
    (received bus (w.transfers enableAux cycles)).map (fun frame => (frame.1, accesses frame.2)) =
        ((frames (w.history es)).filter fun p => w.servoMap[p.1]? = some bus).map (fun p =>
          (BitVec.ofNat 32 (2 ^ 15 + p.1.toNat), told p.2.command)) ∧
      ∀ frame ∈ received bus (w.transfers enableAux cycles),
        accesses frame.2 = told (.stopped : ModeCommand K) ∨
          ∃ velocity : K, accesses frame.2 = positionAccesses velocity := by
  have hreceived := w.accesses_received hmap hcycles hbus
  refine ⟨hreceived, ?_⟩
  intro frame hframe
  have hmem := List.mem_map_of_mem (f := fun frame => (frame.1, accesses frame.2)) hframe
  rw [hreceived] at hmem
  obtain ⟨p, hp, heq⟩ := List.mem_map.mp hmem
  have htold : told p.2.command = accesses frame.2 := congrArg Prod.snd heq
  obtain ⟨bus', -, h | ⟨velocity, h⟩⟩ := World.made_of_mem_frames (List.mem_filter.mp hp).1
  · left
    rw [← htold, h]
    rfl
  · right
    refine ⟨velocity, ?_⟩
    rw [← htold, h]
    rfl

theorem onBoard_bench (K : Type) [Field K] : OnBoard false (World.bench K).servoMap := by
  intro id bus hentry
  rw [← Std.TreeMap.mem_toList_iff_getElem?_eq_some] at hentry
  have hmem : (id, bus) ∈ [((1 : Int), (1 : Int)), (2, 2), (3, 3), (4, 4)] := hentry
  simp only [List.mem_cons, Prod.mk.injEq, List.not_mem_nil, or_false] at hmem
  rcases hmem with ⟨rfl, rfl⟩ | ⟨rfl, rfl⟩ | ⟨rfl, rfl⟩ | ⟨rfl, rfl⟩
  all_goals exact ⟨by decide, by decide, by decide⟩

/-- A signal on the bench: the second motor is told to stop twice before the loop and once behind
it. -/
theorem World.bus_traffic_signal :
    let w := World.bench ℝ
    let cycles := (frames (w.history [.signal, .step (.bench ℝ), .step (.bench ℝ)])).map ([·])
    (received 2 (w.transfers false cycles)).map (fun frame => (frame.1, accesses frame.2)) =
      List.replicate 3 (0x8002, told (.stopped : ModeCommand ℝ)) := by
  intro w cycles
  have hcycles : cycles.flatten =
      frames (w.history [.signal, .step (.bench ℝ), .step (.bench ℝ)]) :=
    List.flatMap_singleton' _
  have htraffic :=
    (w.bus_traffic (onBoard_bench ℝ) hcycles (by decide : (2 : Int) ∈ busOrder)).1
  exact htraffic.trans rfl

/-! ## The end of a run -/

/-- The mode of a device behind an access, where it was told one. -/
def modeAfter (mode : Option (List UInt8)) : Moteus.Access → Option (List UInt8)
  | .write raw => if raw.register = Register.kMode then some raw.bytes else mode
  | .read _ => mode

/-- The mode that the device with this ID has been told last, by what arrived on its bus. -/
def toldMode (id : Int) (arrived : List (BitVec 32 × List UInt8)) : Option (List UInt8) :=
  ((arrived.filter fun frame => (frame.1.toNat % 128 : Nat) = id).flatMap fun frame =>
    accesses frame.2).foldl modeAfter none

omit [Libm K] in
theorem foldl_told_stop (mode : Option (List UInt8)) :
    (told (.stopped : ModeCommand K)).foldl modeAfter mode = some [Mode.kStopped.code] := by
  rw [told, formatRuns_default]
  rfl

/-- The device with an ID takes the frames of that ID. -/
theorem World.flatMap_arrived (w : World K) {enableAux : Bool}
    (hmap : OnBoard enableAux w.servoMap) {es : List (Event K)}
    {cycles : List (List (Int × CanFdFrame K))} (hcycles : cycles.flatten = frames (w.history es))
    {id bus : Int} (hmotor : w.servoMap[id]? = some bus) :
    ((received bus (w.transfers enableAux cycles)).filter fun frame =>
        (frame.1.toNat % 128 : Nat) = id).flatMap (fun frame => accesses frame.2) =
      (framesOf id (w.history es)).flatMap fun frame => told frame.command := by
  have hreceived := w.accesses_received hmap hcycles (hmap id bus hmotor).2.1
  have hid : ∀ p ∈ frames (w.history es),
      ((BitVec.ofNat 32 (2 ^ 15 + p.1.toNat)).toNat % 128 : Nat) = p.1 := by
    intro p hp
    obtain ⟨bus', hbus', -⟩ := World.made_of_mem_frames hp
    have hrange := (hmap p.1 bus' hbus').1
    rw [BitVec.toNat_ofNat]
    omega
  calc ((received bus (w.transfers enableAux cycles)).filter fun frame =>
        (frame.1.toNat % 128 : Nat) = id).flatMap (fun frame => accesses frame.2)
      = (((received bus (w.transfers enableAux cycles)).map fun frame =>
          (frame.1, accesses frame.2)).filter fun frame =>
            (frame.1.toNat % 128 : Nat) = id).flatMap Prod.snd := by
        rw [List.filter_map, List.flatMap_map]
        rfl
    _ = ((frames (w.history es)).filter fun p => p.1 = id).flatMap fun p => told p.2.command := by
        rw [hreceived, List.filter_map, List.flatMap_map, List.filter_filter]
        congr 1
        apply List.filter_congr
        intro p hp
        simp only [Function.comp_apply, hid p hp]
        by_cases hsame : p.1 = id
        · simp [hsame, hmotor]
        · simp [hsame]
    _ = (framesOf id (w.history es)).flatMap fun frame => told frame.command := by
        unfold framesOf
        induction frames (w.history es) with
        | nil => rfl
        | cons p rest ih =>
          by_cases hsame : p.1 = id
          · simp [hsame, ih]
          · simp [hsame, ih]

/-- The last frame of a motor is a stop when the process has ended. -/
theorem World.framesOf_of_exited {w : World K} {es : List (Event K)}
    (h : (w.after es).pc = .exited) {id bus : Int} (hmotor : w.servoMap[id]? = some bus) :
    ∃ earlier, framesOf id (w.history es) =
      earlier ++ [(Controller.new { id, bus }).makeStop] := by
  have hp : (id, Controller.new { id, bus }) ∈ w.config.controllers.toList :=
    mem_controllers_iff.mpr ⟨bus, hmotor, rfl⟩
  obtain ⟨before, behind, heq, hbehind⟩ := World.history_of_exited h
  obtain ⟨hne, hall⟩ := framesOf_setStop (K := K) hp
  have hnil : framesOf id behind = [] := by
    unfold framesOf
    rw [hbehind]
    rfl
  refine ⟨framesOf id before ++ (framesOf id (setStop w.config)).dropLast, ?_⟩
  rw [heq, framesOf_append, framesOf_append, hnil, List.append_nil, List.append_assoc]
  congr 1
  have hlast := hall _ (List.getLast_mem hne)
  rw [← hlast]
  exact (List.dropLast_append_getLast hne).symm

/-- **The motors stand when the process has ended**: the mode that each has been told last, on the
bus that the map has it on, is to stop. -/
theorem World.exited_traffic (w : World K) {enableAux : Bool} (hmap : OnBoard enableAux w.servoMap)
    {es : List (Event K)} (h : (w.after es).pc = .exited)
    {cycles : List (List (Int × CanFdFrame K))} (hcycles : cycles.flatten = frames (w.history es))
    {id bus : Int} (hmotor : w.servoMap[id]? = some bus) :
    toldMode id (received bus (w.transfers enableAux cycles)) = some [Mode.kStopped.code] := by
  obtain ⟨earlier, hframes⟩ := World.framesOf_of_exited h hmotor
  rw [toldMode, w.flatMap_arrived hmap hcycles hmotor, hframes, List.flatMap_append,
    List.flatMap_singleton, List.foldl_append]
  exact foldl_told_stop _

/-- The third motor on the bench stands behind a signal. -/
theorem World.exited_traffic_signal :
    let w := World.bench ℝ
    let cycles := (frames (w.history [.signal, .step (.bench ℝ), .step (.bench ℝ)])).map ([·])
    toldMode 3 (received 3 (w.transfers false cycles)) = some [Mode.kStopped.code] := by
  intro w cycles
  have hexit : (w.after [.signal, .step (.bench ℝ), .step (.bench ℝ)]).pc = .exited := rfl
  exact w.exited_traffic (onBoard_bench ℝ) hexit (List.flatMap_singleton' _) rfl

end RobotFramework.Main

import RobotFramework.Main.Loop

/-!
# What each block does

One lemma for each way through a block, so that nothing later unfolds one. A block whose interval
has not passed only moves on (`*_idle`); otherwise it does its work and notes the time (`*_due`, and
for the receiver and the Arduino block one lemma for each branch).
-/

namespace RobotFramework.Main

open Cxx Moteus Reactive

variable {K : Type}

def TIMEOUT : Text := "TIMEOUT".toList

def STOP : Text := "STOP".toList

theorem TIMEOUT_ne_STOP : TIMEOUT ≠ STOP := by decide

/-! ## Noting the time -/

namespace State

@[simp] theorem stamp_pc (s : State K) (set : Timers → Int → Timers) :
    (s.stamp set).pc = s.pc := rfl

@[simp] theorem stamp_timeoutCount (s : State K) (set : Timers → Int → Timers) :
    (s.stamp set).timeoutCount = s.timeoutCount := rfl

@[simp] theorem stamp_udp (s : State K) (set : Timers → Int → Timers) :
    (s.stamp set).udp = s.udp := rfl

@[simp] theorem stamp_cmd (s : State K) (set : Timers → Int → Timers) :
    (s.stamp set).cmd = s.cmd := rfl

@[simp] theorem stamp_velocityMap (s : State K) (set : Timers → Int → Timers) :
    (s.stamp set).velocityMap = s.velocityMap := rfl

@[simp] theorem stamp_arduino (s : State K) (set : Timers → Int → Timers) :
    (s.stamp set).arduino = s.arduino := rfl

@[simp] theorem stamp_emergencyStop (s : State K) (set : Timers → Int → Timers) :
    (s.stamp set).emergencyStop = s.emergencyStop := rfl

@[simp] theorem stamp_manualStopFlag (s : State K) (set : Timers → Int → Timers) :
    (s.stamp set).manualStopFlag = s.manualStopFlag := rfl

end State

/-! ## The receiver -/

def State.receives (s : State K) (cfg : Config K) : Prop :=
  s.due (·.lastReciverTime) cfg.intervals.reciver = true

instance (s : State K) (cfg : Config K) : Decidable (s.receives cfg) :=
  inferInstanceAs (Decidable (_ = true))

/-- The state in which the receiver decides what to do with the text of its poll. -/
def State.polled (s : State K) : State K :=
  { s with udp := s.udp.receive.1, msg := s.udp.receive.2, pc := .camera }

def setReciver (timers : Timers) (t : Int) : Timers := { timers with lastReciverTime := t }

section

variable [Field K] [LinearOrder K] [Libm K] {cfg : Config K} {input : Input K} {s : State K}

theorem receiver_idle (h : ¬ s.receives cfg) :
    receiver cfg input s = ({ s with pc := .camera }, []) := if_neg h

theorem receiver_timeout (h : s.receives cfg) (hmsg : s.udp.receive.2 = TIMEOUT) :
    receiver cfg input s =
      ((onTimeout s.polled).1.stamp setReciver, .recv TIMEOUT :: (onTimeout s.polled).2) := by
  have hmsg' : s.udp.receive.2 = "TIMEOUT".toList := hmsg
  refine (if_pos h).trans ?_
  simp only [if_pos hmsg', State.polled]
  rw [hmsg']
  rfl

theorem receiver_stop (h : s.receives cfg) (hmsg : s.udp.receive.2 = STOP) :
    receiver cfg input s =
      ((onStop cfg input s.polled).1.stamp setReciver,
        .recv STOP :: (onStop cfg input s.polled).2) := by
  have hmsg' : s.udp.receive.2 = "STOP".toList := hmsg
  have hne : ¬ s.udp.receive.2 = "TIMEOUT".toList := fun ht => TIMEOUT_ne_STOP (ht.symm.trans hmsg)
  refine (if_pos h).trans ?_
  simp only [if_neg hne, if_pos hmsg', State.polled]
  rw [hmsg']
  rfl

theorem receiver_command (h : s.receives cfg) (ht : s.udp.receive.2 ≠ TIMEOUT)
    (hs : s.udp.receive.2 ≠ STOP) :
    receiver cfg input s =
      ((onCommand cfg s.polled).1.stamp setReciver,
        .recv s.udp.receive.2 :: (onCommand cfg s.polled).2) := by
  have ht' : ¬ s.udp.receive.2 = "TIMEOUT".toList := ht
  have hs' : ¬ s.udp.receive.2 = "STOP".toList := hs
  refine (if_pos h).trans ?_
  simp only [if_neg ht', if_neg hs', State.polled]
  rfl

end

/-! ## Camera and sender

Of these two blocks no more is needed than what they do not touch. -/

section

variable [Field K] [LinearOrder K] [FloorRing K]

theorem camera_eq (cfg : Config K) (s : State K) :
    ∃ timers senderMsg os, (∀ o ∈ os, ∃ call, o = Effect.log call) ∧
      camera cfg s = ({ s with pc := .motor, timers, senderMsg }, os) := by
  by_cases h : s.due (·.lastCameraTime) cfg.intervals.camera = true
  · have h' : ({ s with pc := .motor } : State K).due (·.lastCameraTime) cfg.intervals.camera =
        true := h
    unfold camera
    simp only [h', if_true]
    exact ⟨_, _, _, fun o ho => ⟨_, List.mem_singleton.mp ho⟩, rfl⟩
  · exact ⟨s.timers, s.senderMsg, [], by simp, if_neg h⟩

theorem sender_eq (cfg : Config K) (s : State K) :
    ∃ timers targetAddr os,
      (∀ o ∈ os, (∃ call, o = Effect.log call) ∨ ∃ target message, o = .sendTo target message) ∧
      sender cfg s = ({ s with pc := .arduino, timers, udp := { s.udp with targetAddr } }, os) := by
  by_cases h : s.due (·.lastSenderTime) cfg.intervals.sender = true
  · have h' : ({ s with pc := .arduino } : State K).due (·.lastSenderTime) cfg.intervals.sender =
        true := h
    unfold sender
    simp only [h', if_true]
    refine ⟨_, _, _, fun o ho => ?_, rfl⟩
    simp only [List.mem_cons, List.not_mem_nil, or_false] at ho
    rcases ho with rfl | rfl
    · exact Or.inl ⟨_, rfl⟩
    · exact Or.inr ⟨_, _, rfl⟩
  · exact ⟨s.timers, s.udp.targetAddr, [], by simp, if_neg h⟩

end

/-! ## Motors -/

def State.cycles (s : State K) (cfg : Config K) : Prop :=
  s.due (·.lastMotorTime) cfg.intervals.motor = true

instance (s : State K) (cfg : Config K) : Decidable (s.cycles cfg) :=
  inferInstanceAs (Decidable (_ = true))

def setMotor (timers : Timers) (t : Int) : Timers := { timers with lastMotorTime := t }

section

variable [Field K] [LinearOrder K] [FloorRing K] [Libm K]
variable {cfg : Config K} {input : Input K} {s : State K}

/-- The telemetry that the next motor cycle gets, in the order `main` reads it. -/
def State.servoStatus (s : State K) (cfg : Config K) (input : Input K) :
    List (Int × MotorTelemetry K) :=
  (Telemetry.cycle cfg.controllers s.velocityMap input.bus).2.toList

theorem motor_idle (h : ¬ s.cycles cfg) :
    motor cfg input s = ({ s with pc := .sender }, []) := if_neg h

theorem motor_due (h : s.cycles cfg) :
    motor cfg input s =
      (({ s with
          pc := .sender
          emergencyStop :=
            s.emergencyStop || (s.servoStatus cfg input).any fun p => overcurrent cfg p.2
          senderMsg :=
            { s.senderMsg with
                voltage := averageVoltage input.stack
                  ((s.servoStatus cfg input).map fun p => p.2.voltage) } } : State K).stamp
          setMotor,
        (Telemetry.commandFrames cfg.controllers s.velocityMap).map (fun p => .frame p.1 p.2) ++
          (s.servoStatus cfg input).flatMap fun p => logMotor cfg p.1 p.2) := if_pos h

end

/-! ## The Arduino -/

/-- The Arduino block is due and the Arduino is connected. -/
def State.commands (s : State K) (cfg : Config K) : Prop :=
  s.due (·.lastArduinoTime) cfg.intervals.arduino = true ∧ s.arduino.isConnected = true

instance (s : State K) (cfg : Config K) : Decidable (s.commands cfg) :=
  inferInstanceAs (Decidable (_ ∧ _))

def setArduino (timers : Timers) (t : Int) : Timers := { timers with lastArduinoTime := t }

def State.arduinoByte (s : State K) : Char :=
  if s.cmd.kick then 'K' else if s.cmd.dribble then 'D' else 'S'

def State.arduinoLog (s : State K) : Effect K :=
  logSub "arduino".toList
    (if s.cmd.kick then "Sent kick" else if s.cmd.dribble then "Sent dribble"
      else "Sent stop dribble").toList
    (if s.cmd.kick then .HATE else if s.cmd.dribble then .LOVE else .INFO)

section

variable {cfg : Config K} {input : Input K} {s : State K}

theorem sendCommand_eq {a : Arduino} (h : a.isConnected = true) (write : Arduino.WriteOutcome)
    (byte : Char) (message : String) (level : LogLevel) :
    sendCommand (K := K) a write byte message level =
      (if write.writes then [.serial byte] else []) ++
        [.command byte (write.writes && write.drains),
          logSub "arduino".toList message.toList level] := by
  unfold sendCommand
  rw [Arduino.sendCommand_of_isConnected h]
  cases write.writes <;> rfl

/-- **An Arduino step issues exactly one byte**, and a kick is taken back with it. -/
theorem arduino_due (h : s.commands cfg) :
    arduino cfg input s =
      (({ s with pc := .head, cmd := s.cmd.clearKick } : State K).stamp setArduino,
        (if input.write.writes then [.serial s.arduinoByte] else []) ++
          [.command s.arduinoByte (input.write.writes && input.write.drains), s.arduinoLog]) := by
  obtain ⟨hdue, hconn⟩ := h
  have hdue' : ({ s with pc := .head } : State K).due (·.lastArduinoTime) cfg.intervals.arduino =
      true := hdue
  unfold arduino State.arduinoByte State.arduinoLog
  by_cases hk : s.cmd.kick = true
  · simp only [hdue', hconn, hk, if_true]
    rw [sendCommand_eq hconn]
    rfl
  · -- Without a kick there is no flag to take back.
    have hcmd := CmdDecoder.clearKick_of_kick_eq_false (Bool.eq_false_iff.mpr hk)
    by_cases hd : s.cmd.dribble = true
    · simp only [hdue', hconn, hk, hd, hcmd, if_true, if_false, Bool.false_eq_true]
      rw [sendCommand_eq hconn]
      rfl
    · simp only [hdue', hconn, hk, hd, hcmd, if_true, if_false, Bool.false_eq_true]
      rw [sendCommand_eq hconn]
      rfl

/-- An Arduino step that is not due, or finds no Arduino, changes no more than the time. -/
theorem arduino_idle (input : Input K) (h : ¬ s.commands cfg) :
    ∃ timers, arduino cfg input s = ({ s with pc := .head, timers }, []) := by
  by_cases hdue : s.due (·.lastArduinoTime) cfg.intervals.arduino = true
  · have hdue' : ({ s with pc := .head } : State K).due (·.lastArduinoTime) cfg.intervals.arduino =
        true := hdue
    have hconn : ¬ s.arduino.isConnected = true := fun hc => h ⟨hdue, hc⟩
    refine ⟨s.timers.map fun timers => setArduino timers s.currentTime, ?_⟩
    unfold arduino
    simp only [hdue', hconn, if_true, if_false, Bool.false_eq_true]
    rfl
  · exact ⟨s.timers, if_neg hdue⟩

end

/-! ## The flow of control -/

def State.nextPc (s : State K) (cfg : Config K) : Pc :=
  match s.pc with
  | .head => if s.emergencyStop || s.manualStopFlag then .shutdown else .receiver
  | .receiver => if s.receives cfg ∧ s.udp.receive.2 = STOP then .exited else .camera
  | .camera => .motor
  | .motor => .sender
  | .sender => .arduino
  | .arduino => .head
  | .shutdown => .exited
  | .exited => .exited

theorem head_eq (input : Input K) (s : State K) :
    ∃ currentTime timers, head input s =
      ({ s with
          pc := if s.emergencyStop || s.manualStopFlag then .shutdown else .receiver
          currentTime
          timers }, []) := by
  unfold head
  cases s.emergencyStop <;> cases s.manualStopFlag <;> exact ⟨_, _, rfl⟩

section

variable [Field K] [LinearOrder K] [Libm K]

/-- The next step is a motor cycle that gets a current above the limit reported. -/
def State.Overcurrent [FloorRing K] (s : State K) (cfg : Config K) (input : Input K) : Prop :=
  s.pc = .motor ∧ s.cycles cfg ∧ ∃ p ∈ s.servoStatus cfg input, overcurrent cfg p.2

theorem receiver_flow (cfg : Config K) (input : Input K) (s : State K) :
    (receiver cfg input s).1.pc =
        (if s.receives cfg ∧ s.udp.receive.2 = STOP then .exited else .camera) ∧
      (receiver cfg input s).1.emergencyStop = s.emergencyStop := by
  by_cases hdue : s.receives cfg
  · by_cases ht : s.udp.receive.2 = TIMEOUT
    · rw [receiver_timeout hdue ht, if_neg fun h => TIMEOUT_ne_STOP (ht.symm.trans h.2)]
      simp only [onTimeout, State.stamp_pc, State.stamp_emergencyStop]
      split <;> exact ⟨rfl, rfl⟩
    · by_cases hs : s.udp.receive.2 = STOP
      · rw [receiver_stop hdue hs, if_pos ⟨hdue, hs⟩]
        exact ⟨rfl, rfl⟩
      · rw [receiver_command hdue ht hs, if_neg fun h => hs h.2]
        exact ⟨rfl, rfl⟩
  · rw [receiver_idle hdue, if_neg fun h => hdue h.1]
    exact ⟨rfl, rfl⟩

variable [FloorRing K]

theorem motor_flow (cfg : Config K) (input : Input K) (s : State K) :
    (motor cfg input s).1.pc = .sender ∧
      ((motor cfg input s).1.emergencyStop = true ↔
        s.emergencyStop = true ∨
          s.cycles cfg ∧ ∃ p ∈ s.servoStatus cfg input, overcurrent cfg p.2) := by
  by_cases hdue : s.cycles cfg
  · rw [motor_due hdue]
    refine ⟨rfl, ?_⟩
    simp only [State.stamp_emergencyStop, Bool.or_eq_true, List.any_eq_true, hdue, true_and]
  · rw [motor_idle hdue]
    refine ⟨rfl, ?_⟩
    simp only [hdue, false_and, or_false]

/-- **The flow of control**: where a step leads, and which step raises `emergency_stop`. -/
theorem next_flow (cfg : Config K) (input : Input K) (s : State K) :
    (next cfg input s).1.pc = s.nextPc cfg ∧
      ((next cfg input s).1.emergencyStop = true ↔
        s.emergencyStop = true ∨ s.Overcurrent cfg input) := by
  unfold next State.nextPc State.Overcurrent
  cases hpc : s.pc with
  | head =>
    obtain ⟨currentTime, timers, heq⟩ := head_eq input s
    simp [heq]
  | receiver => simpa using receiver_flow cfg input s
  | camera =>
    obtain ⟨timers, senderMsg, os, -, heq⟩ := camera_eq cfg s
    simp [heq]
  | motor => simpa using motor_flow cfg input s
  | sender =>
    obtain ⟨timers, targetAddr, os, -, heq⟩ := sender_eq cfg s
    simp [heq]
  | arduino =>
    by_cases hc : s.commands cfg
    · simp [arduino_due hc]
    · obtain ⟨timers, heq⟩ := arduino_idle input hc
      simp [heq]
  | shutdown => simp [shutdown]
  | exited => simp [hpc]

theorem process_motor (cfg : Config K) (input : Input K) {s : State K} (hpc : s.pc = .motor) :
    process cfg s (.step input) = motor cfg input s := by
  show next cfg input s = _
  simp only [next, hpc]

theorem process_arduino (cfg : Config K) (input : Input K) {s : State K} (hpc : s.pc = .arduino) :
    process cfg s (.step input) = arduino cfg input s := by
  show next cfg input s = _
  simp only [next, hpc]

theorem next_pc (cfg : Config K) (input : Input K) (s : State K) :
    (next cfg input s).1.pc = s.nextPc cfg := (next_flow cfg input s).1

theorem next_emergencyStop {cfg : Config K} {input : Input K} {s : State K} :
    (next cfg input s).1.emergencyStop = true ↔
      s.emergencyStop = true ∨ s.Overcurrent cfg input := (next_flow cfg input s).2

end

/-! ## Where effects come from -/

/-- The block that an effect of this kind comes from. Log entries, stop frames and what belongs to
the end of the process come from several. -/
def Effect.origin : Effect K → Option Pc
  | .recv _ => some .receiver
  | .frame _ f =>
    match f.command with
    | .position _ => some .motor
    | .stopped => none
  | .sendTo _ _ => some .sender
  | .command _ _ | .serial _ => some .arduino
  | .log _ | .disconnect | .closeLogs | .exit => none

theorem origin_of_mem_setStop {cfg : Config K} {o : Effect K} (ho : o ∈ setStop cfg) :
    o.origin = none := by
  simp only [setStop, Telemetry.stopFrames, List.map_map, List.mem_map] at ho
  obtain ⟨p, -, rfl⟩ := ho
  rfl

theorem origin_of_mem_onTimeout [Field K] {s : State K} {o : Effect K} (ho : o ∈ (onTimeout s).2) :
    o.origin = none := by
  simp only [onTimeout] at ho
  split at ho
  · rw [List.mem_singleton.mp ho]
    rfl
  · cases ho

theorem origin_of_mem_onStop [Field K] {cfg : Config K} {input : Input K} {s : State K}
    {o : Effect K} (ho : o ∈ (onStop cfg input s).2) : o.origin = none := by
  rcases List.mem_append.mp ho with ho | ho
  · rcases List.mem_append.mp ho with ho | ho
    · rw [List.mem_singleton.mp ho]
      rfl
    · exact origin_of_mem_setStop ho
  · simp only [List.mem_cons, List.not_mem_nil, or_false] at ho
    rcases ho with rfl | rfl <;> rfl

/-- What the shutdown puts out. -/
theorem mem_shutdown {cfg : Config K} {input : Input K} {s : State K} {o : Effect K}
    (ho : o ∈ (shutdown cfg input s).2) :
    o ∈ setStop cfg ∨ o = .disconnect ∨
      o = log "Emergency stop activated, shutting down".toList .HATE ∨ o = .closeLogs ∨
        o = .exit := by
  simpa [shutdown] using ho

theorem origin_of_mem_shutdown {cfg : Config K} {input : Input K} {s : State K} {o : Effect K}
    (ho : o ∈ (shutdown cfg input s).2) : o.origin = none := by
  rcases mem_shutdown ho with ho | rfl | rfl | rfl | rfl
  · exact origin_of_mem_setStop ho
  all_goals rfl

/-- What an Arduino step can put out. -/
theorem mem_arduino {cfg : Config K} {input : Input K} {s : State K} {o : Effect K}
    (ho : o ∈ (arduino cfg input s).2) :
    s.commands cfg ∧ (o = .serial s.arduinoByte ∧ input.write.writes = true ∨
      o = .command s.arduinoByte (input.write.writes && input.write.drains) ∨
        o = s.arduinoLog) := by
  by_cases h : s.commands cfg
  · refine ⟨h, ?_⟩
    rw [arduino_due h, List.mem_append, List.mem_cons, List.mem_singleton] at ho
    refine ho.imp_left fun ho => ?_
    split at ho
    · rename_i hwrites
      exact ⟨List.mem_singleton.mp ho, hwrites⟩
    · cases ho
  · obtain ⟨timers, heq⟩ := arduino_idle input h
    rw [heq] at ho
    cases ho

theorem origin_of_mem_arduino {cfg : Config K} {input : Input K} {s : State K} {o : Effect K}
    (ho : o ∈ (arduino cfg input s).2) : o.origin = none ∨ o.origin = some .arduino := by
  rcases mem_arduino ho with ⟨-, ⟨rfl, -⟩ | rfl | rfl⟩
  · exact Or.inr rfl
  · exact Or.inr rfl
  · exact Or.inl rfl

section

variable [Field K] [LinearOrder K] [Libm K]

omit [Libm K] in
theorem mem_logMotor {cfg : Config K} {motorId : Int} {r : MotorTelemetry K} {o : Effect K}
    (ho : o ∈ logMotor cfg motorId r) :
    (∃ data, o = .log
      { component := rframework, sub := some ("motor-".toList ++ intText motorId),
        numericData := data, level := .INFO }) ∨
      o = logSub ("motor-".toList ++ intText motorId) "Overcurrent detected".toList .CRIT := by
  refine (List.mem_cons.mp ho).imp (fun heq => ⟨_, heq⟩) fun ho => ?_
  split at ho
  · exact List.mem_singleton.mp ho
  · cases ho

omit [Libm K] in
theorem origin_of_mem_logMotor {cfg : Config K} {motorId : Int} {r : MotorTelemetry K}
    {o : Effect K} (ho : o ∈ logMotor cfg motorId r) : o.origin = none := by
  rcases mem_logMotor ho with ⟨data, rfl⟩ | rfl <;> rfl

theorem origin_of_mem_receiver {cfg : Config K} {input : Input K} {s : State K}
    {o : Effect K} (ho : o ∈ (receiver cfg input s).2) :
    o.origin = none ∨ o.origin = some .receiver := by
  by_cases hdue : s.receives cfg
  · by_cases ht : s.udp.receive.2 = TIMEOUT
    · rw [receiver_timeout hdue ht] at ho
      rcases List.mem_cons.mp ho with rfl | ho
      · exact Or.inr rfl
      · exact Or.inl (origin_of_mem_onTimeout ho)
    · by_cases hs : s.udp.receive.2 = STOP
      · rw [receiver_stop hdue hs] at ho
        rcases List.mem_cons.mp ho with rfl | ho
        · exact Or.inr rfl
        · exact Or.inl (origin_of_mem_onStop ho)
      · rw [receiver_command hdue ht hs] at ho
        rcases List.mem_cons.mp ho with rfl | ho
        · exact Or.inr rfl
        · rw [List.mem_singleton.mp ho]
          exact Or.inl rfl
  · rw [receiver_idle hdue] at ho
    cases ho

variable [FloorRing K]

/-- What a motor step can put out. -/
theorem mem_motor {cfg : Config K} {input : Input K} {s : State K} {o : Effect K}
    (ho : o ∈ (motor cfg input s).2) :
    s.cycles cfg ∧ ((∃ p ∈ Telemetry.commandFrames cfg.controllers s.velocityMap,
        o = .frame p.1 p.2) ∨ ∃ p ∈ s.servoStatus cfg input, o ∈ logMotor cfg p.1 p.2) := by
  by_cases h : s.cycles cfg
  · refine ⟨h, ?_⟩
    rw [motor_due h] at ho
    refine (List.mem_append.mp ho).imp (fun ho => ?_) List.mem_flatMap.mp
    obtain ⟨p, hp, rfl⟩ := List.mem_map.mp ho
    exact ⟨p, hp, rfl⟩
  · rw [motor_idle h] at ho
    cases ho

theorem origin_of_mem_motor {cfg : Config K} {input : Input K} {s : State K} {o : Effect K}
    (ho : o ∈ (motor cfg input s).2) : o.origin = none ∨ o.origin = some .motor := by
  rcases mem_motor ho with ⟨-, ⟨p, hp, rfl⟩ | ⟨p, -, ho⟩⟩
  · simp only [Telemetry.commandFrames, List.mem_map] at hp
    obtain ⟨c, -, rfl⟩ := hp
    exact Or.inr rfl
  · exact Or.inl (origin_of_mem_logMotor ho)

variable {cfg : Config K} {s : State K} {o : Effect K}

/-- **A step puts out nothing but what its block puts out.** -/
theorem origin_of_mem_next {input : Input K} (ho : o ∈ (next cfg input s).2) :
    o.origin = none ∨ o.origin = some s.pc := by
  unfold next at ho
  cases hpc : s.pc with
  | head =>
    obtain ⟨currentTime, timers, heq⟩ := head_eq input s
    simp only [hpc, heq] at ho
    cases ho
  | receiver =>
    simp only [hpc] at ho
    exact origin_of_mem_receiver ho
  | camera =>
    simp only [hpc] at ho
    obtain ⟨timers, senderMsg, os, hos, heq⟩ := camera_eq cfg s
    rw [heq] at ho
    obtain ⟨call, rfl⟩ := hos o ho
    exact Or.inl rfl
  | motor =>
    simp only [hpc] at ho
    exact origin_of_mem_motor ho
  | sender =>
    simp only [hpc] at ho
    obtain ⟨timers, targetAddr, os, hos, heq⟩ := sender_eq cfg s
    rw [heq] at ho
    rcases hos o ho with ⟨call, rfl⟩ | ⟨target, message, rfl⟩
    · exact Or.inl rfl
    · exact Or.inr rfl
  | arduino =>
    simp only [hpc] at ho
    exact origin_of_mem_arduino ho
  | shutdown =>
    simp only [hpc] at ho
    exact Or.inl (origin_of_mem_shutdown ho)
  | exited =>
    simp only [hpc] at ho
    cases ho

/-- An effect with an origin is put out by a step of that block. -/
theorem step_of_origin {e : Event K} (ho : o ∈ (process cfg s e).2) {pc : Pc}
    (hpc : o.origin = some pc) : ∃ input, e = .step input ∧ s.pc = pc := by
  cases e with
  | step input =>
    refine ⟨input, rfl, ?_⟩
    have ho' : o ∈ (next cfg input s).2 := ho
    rcases origin_of_mem_next ho' with h | h
    · rw [h] at hpc
      cases hpc
    · exact Option.some.inj (h.symm.trans hpc)
  | arrive d => cases ho
  | signal => cases ho
  | observe obs => cases ho

end

end RobotFramework.Main

import RobotFramework.Main.Loop

/-!
# `RobotFramework.cpp`: `main` up to the loop

What `main` does before it enters the loop, from the command line and the configuration files it
finds. Variables the source leaves uninitialised are part of the `World` the process starts in: the
velocities of the decoder are such variables, its two flags are not.
-/

namespace RobotFramework.Main

open Cxx Moteus Reactive

/-- What the process finds when it starts: its argument, the configuration files (absent or
unreadable ones are `none`, an error its text), the socket's queue, the serial ports and the camera,
and the contents of memory that nothing initialises. -/
structure World (K : Type) where
  argv1 : Option Text
  mainConfig : Except Text (Intervals × K)
  velocityLimits : Option (VelocityLimits K)
  motorMap : Option (List (Int × Int))
  network : Option NetworkConfig
  clientAddr : SockAddr
  targetAddr : SockAddr
  pending : List Datagram
  present : Text → Bool
  testPort : Text → Bool
  found : Arduino.ConnectOutcome
  connected : Arduino.ConnectOutcome
  openCam : Bool
  cmd : CmdDecoder K
  senderMsg : TelemetryMsg K

variable {K : Type}

/-- The mode an argument selects, and what is logged about it. -/
def parseMode (argv1 : Option Text) : Int × List (Effect K) :=
  let safe : Effect K := log "Starting in SAFE mode".toList .INFO
  match argv1 with
  | some arg =>
    if arg = "-s".toList ∨ arg = "-safe".toList then (0, [safe])
    else if arg = "-c".toList ∨ arg = "-capped".toList then
      (1, [log "Starting in CAPPED mode".toList .INFO])
    else if arg = "-unsafe".toList then (2, [log "Starting in UNSAFE mode".toList .WARN])
    else (0, [log ("Unknown flag or argument: ".toList ++ arg) .WARN, safe])
  | none => (0, [safe])

theorem log_of_mem_parseMode {argv1 : Option Text} {o : Effect K} (ho : o ∈ (parseMode argv1).2) :
    ∃ message level, o = log message level := by
  unfold parseMode at ho
  cases argv1 with
  | none => exact ⟨_, _, List.mem_singleton.mp ho⟩
  | some arg =>
    simp only at ho
    split_ifs at ho
    · exact ⟨_, _, List.mem_singleton.mp ho⟩
    · exact ⟨_, _, List.mem_singleton.mp ho⟩
    · exact ⟨_, _, List.mem_singleton.mp ho⟩
    · rcases List.mem_cons.mp ho with ho | ho
      · exact ⟨_, _, ho⟩
      · exact ⟨_, _, List.mem_singleton.mp ho⟩

namespace World

variable [Field K] [Libm K]

def mode (w : World K) : Int := (parseMode (K := K) w.argv1).1

def limits (w : World K) : Intervals × K :=
  match w.mainConfig with
  | .ok config => config
  | .error _ => ({ reciver := 5, sender := 1000, arduino := 100, camera := 200, motor := 20 }, 5.0)

def config (w : World K) : Config K :=
  { controllers := Telemetry.controllers (Telemetry.yamlLoadMotorMap w.motorMap)
    wheel := WheelMath.new w.velocityLimits w.mode
    currentLimit := w.limits.2
    intervals := w.limits.1 }

/-- The Arduino behind `findArduino` and `connect`. -/
def bootArduino (w : World K) : Arduino :=
  let a := (Arduino.new.findArduino w.present w.testPort w.found).1
  (a.connect a.connectedPort w.connected).1

/-- The variables of `main` where it enters the loop. -/
def start (w : World K) : State K :=
  { pc := .head
    currentTime := 0
    timers := none
    timeoutCount := 0
    udp := Udp.new w.network w.clientAddr w.targetAddr w.pending
    msg := []
    cmd := { w.cmd with kick := false, dribble := false }
    velocityMap := ∅
    senderMsg := w.senderMsg
    arduino := w.bootArduino
    emergencyStop := false
    manualStopFlag := false
    ballObservation := ⟨false, .num 0, .num 0, .num 0, .num 0, .num 0⟩ }

def configLogs (w : World K) : List (Effect K) :=
  let (intervals, currentLimit) := w.limits
  let interval (n : Int) : Double K := .num n
  let configData : Std.TreeMap String (Double K) := .ofList
    [("Reciever Interval", interval intervals.reciver),
      ("Sender Interval", interval intervals.sender),
      ("Arduino Interval", interval intervals.arduino),
      ("Camera Interval", interval intervals.camera),
      ("Motor Interval", interval intervals.motor), ("Current Limit", .num currentLimit)]
  [log "Loading configs...".toList .INFO] ++
    (match w.mainConfig with
    | .ok _ => [log "Successfully loaded configs!".toList .INFO]
    | .error what =>
      [log ("Failed to load configs: ".toList ++ what) .WARN,
        log ("Failed to load configs: ".toList ++ what) .WARN,
        log ("Using fallback values:".toList ++ what) .WARN]) ++
    [.log { component := rframework, numericData := configData, level := .INFO }]

/-- What can be observed of `main` before it enters the loop. Every controller is stopped twice, by
the constructor of `Telemetry` and by `main`. -/
def startup (w : World K) : List (Effect K) :=
  [log "--- ROBOTFRAMEWORK STARTING ---".toList .LOVE] ++ (parseMode w.argv1).2 ++ w.configLogs ++
    setStop w.config ++
    [logSub "arduino".toList "Searching for Arduino...".toList .INFO,
      logSub "arduino".toList "Connecting to Arduino port...".toList .INFO] ++
    (if w.openCam then [logSub "camball".toList "Camera thread started".toList .INFO] else []) ++
    setStop w.config ++
    [log "Sent stop to all controllers".toList .DONE,
      log ("Sending port at: ".toList ++ intText w.start.udp.senderPort) .LOVE,
      log ("Recieving port at: ".toList ++ intText w.start.udp.receiverPort) .LOVE,
      log "Entering main control loop".toList .LOVE]

omit [Libm K] in
theorem log_of_mem_configLogs {w : World K} {o : Effect K} (ho : o ∈ w.configLogs) :
    ∃ call, o = .log call ∧ call.component = rframework ∧ call.sub = none := by
  unfold configLogs at ho
  cases hc : w.mainConfig with
  | ok config =>
    simp only [hc, List.mem_append, List.mem_cons, List.not_mem_nil, or_false] at ho
    rcases ho with (ho | ho) | ho <;> exact ⟨_, ho, rfl, rfl⟩
  | error what =>
    simp only [hc, List.mem_append, List.mem_cons, List.not_mem_nil, or_false] at ho
    rcases ho with (ho | ho | ho | ho) | ho <;> exact ⟨_, ho, rfl, rfl⟩

/-- Before the loop there are only log entries and stop frames. -/
theorem log_or_stop_of_mem_startup {w : World K} {o : Effect K} (ho : o ∈ w.startup) :
    (∃ call, o = .log call ∧ call.component = rframework ∧ call.sub ≠ some rframework) ∨
      o ∈ setStop w.config := by
  have hmain : ∀ {message : Text} {level : LogLevel}, o = log message level →
      ∃ call, o = .log call ∧ call.component = rframework ∧ call.sub ≠ some rframework :=
    fun ho => ⟨_, ho, rfl, by simp⟩
  have hsub : ∀ {sub message : Text} {level : LogLevel}, sub ≠ rframework →
      o = logSub sub message level →
      ∃ call, o = .log call ∧ call.component = rframework ∧ call.sub ≠ some rframework :=
    fun hne ho => ⟨_, ho, rfl, fun heq => hne (Option.some.inj heq)⟩
  simp only [startup, List.mem_append, List.mem_cons, List.not_mem_nil, or_false] at ho
  rcases ho with ((((((ho | ho) | ho) | ho) | ho) | ho) | ho) | ho
  · exact Or.inl (hmain ho)
  · obtain ⟨message, level, ho⟩ := log_of_mem_parseMode ho
    exact Or.inl (hmain ho)
  · obtain ⟨call, ho, hcomponent, hnone⟩ := log_of_mem_configLogs ho
    exact Or.inl ⟨call, ho, hcomponent, by simp [hnone]⟩
  · exact Or.inr ho
  · rcases ho with ho | ho
    · exact Or.inl (hsub (by decide) ho)
    · exact Or.inl (hsub (by decide) ho)
  · split at ho
    · exact Or.inl (hsub (by decide) (List.mem_singleton.mp ho))
    · cases ho
  · exact Or.inr ho
  · rcases ho with ho | ho | ho | ho <;> exact Or.inl (hmain ho)

variable [LinearOrder K] [FloorRing K]

def after (w : World K) (es : List (Event K)) : State K := (process w.config).after w.start es

/-- All that can be observed of the process up to then. -/
def history (w : World K) (es : List (Event K)) : List (Effect K) :=
  w.startup ++ (process w.config).trace w.start es

theorem after_append (w : World K) (es fs : List (Event K)) :
    w.after (es ++ fs) = (process w.config).after (w.after es) fs :=
  Machine.after_append _ _ _

theorem after_snoc (w : World K) (es : List (Event K)) (e : Event K) :
    w.after (es ++ [e]) = (process w.config (w.after es) e).1 :=
  Machine.after_snoc _ _ _

theorem history_snoc (w : World K) (es : List (Event K)) (e : Event K) :
    w.history (es ++ [e]) = w.history es ++ (process w.config (w.after es) e).2 := by
  unfold history
  rw [Machine.trace_snoc, ← List.append_assoc]
  rfl

/-! ## A robot on the bench -/

/-- A robot on the bench: the fallback motors, limits and network, an Arduino, every block due in
every iteration. -/
def bench (K : Type) [Field K] : World K :=
  { argv1 := none
    mainConfig := .ok ({ reciver := 0, sender := 0, arduino := 0, camera := 0, motor := 0 }, 5)
    velocityLimits := none
    motorMap := none
    network := none
    clientAddr := .inet 0 0
    targetAddr := .inet 0 0
    pending := []
    present := fun _ => true
    testPort := fun _ => true
    found := ⟨true, true, true⟩
    connected := ⟨true, true, true⟩
    openCam := false
    cmd := ⟨0, 0, 0, 0, false, false, 0⟩
    senderMsg := ⟨false, .num 0, ⟨false, .num 0, .num 0, .num 0, .num 0, .num 0⟩⟩ }

end World

/-- A step on the bench: no motor answers, and every call to the serial port succeeds. -/
def Input.bench (K : Type) [Field K] : Input K :=
  { now := 0, bus := fun _ => [], stack := fun _ => .num 0, write := ⟨true, true⟩, closes := true }

/-- One turn of the loop on the bench. -/
def turn (K : Type) [Field K] : List (Event K) := List.replicate 6 (.step (.bench K))

def arrival (text : String) : Event K := .arrive ⟨text.toList, .inet 0 0⟩

end RobotFramework.Main

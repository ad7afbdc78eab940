import RobotFramework.Lib.Reactive
import RobotFramework.Main.State

/-!
# `RobotFramework.cpp`: the main control loop

One definition for each block of the loop body, in the order of the source, each under the name of
the comment that heads it there. A block whose interval has not passed does nothing but move on.
-/

namespace RobotFramework.Main

open Cxx Moteus Reactive

variable {K : Type}

/-! ## Texts -/

def rframework : Text := "rframework".toList

def log (message : Text) (level : LogLevel) : Effect K :=
  .log { component := rframework, message, level }

def logSub (sub message : Text) (level : LogLevel) : Effect K :=
  .log { component := rframework, sub := some sub, message, level }

/-! ## The loop head and the timers -/

def TIMEOUT_LIMIT : Int := 3

/-- `current_time - last >= interval` -/
def State.due (s : State K) (last : Timers → Int) (interval : Int) : Bool :=
  match s.timers with
  | some timers => interval * 1000000 ≤ s.currentTime - last timers
  | none => false

/-- Note that a periodic task has run. -/
def State.stamp (s : State K) (set : Timers → Int → Timers) : State K :=
  { s with timers := s.timers.map fun timers => set timers s.currentTime }

/-- The condition of the loop, and the clock. -/
def head (input : Input K) (s : State K) : State K × List (Effect K) :=
  if !s.emergencyStop && !s.manualStopFlag then
    ({ s with
        pc := .receiver
        currentTime := input.now
        timers := some (s.timers.getD (Timers.all input.now)) }, [])
  else ({ s with pc := .shutdown }, [])

/-! ## UDP receiver -/

/-- `{{1, zero}, {2, zero}, {3, zero}, {4, zero}}` -/
def zeroMap [Zero K] : Std.TreeMap Int K := .ofList [((1 : Int), (0 : K)), (2, 0), (3, 0), (4, 0)]

/-- The wheel velocities under the motor IDs 1 to 4. -/
def velocityMapOf (wheelVelocity : Fin 4 → K) : Std.TreeMap Int K :=
  .ofList [((1 : Int), wheelVelocity 0), (2, wheelVelocity 1), (3, wheelVelocity 2),
    (4, wheelVelocity 3)]

def setStop (cfg : Config K) : List (Effect K) :=
  (Telemetry.stopFrames cfg.controllers).map fun p => .frame p.1 p.2

section

variable [Field K] [LinearOrder K] [Libm K]

/-- The receive poll returned `TIMEOUT`. -/
def onTimeout (s : State K) : State K × List (Effect K) :=
  let timeoutCount := s.timeoutCount + 1
  if TIMEOUT_LIMIT ≤ timeoutCount.toInt then
    ({ s with timeoutCount, velocityMap := zeroMap },
      [logSub "reciever".toList "UDP TIMEOUT - stopping motors".toList .WARN])
  else ({ s with timeoutCount }, [])

/-- The receive poll returned `STOP`: the process ends here. -/
def onStop (cfg : Config K) (input : Input K) (s : State K) : State K × List (Effect K) :=
  ({ s with
      velocityMap := zeroMap
      arduino := s.arduino.disconnect input.closes
      pc := .exited },
    [logSub "reciever".toList "UDP STOP".toList .HATE] ++ setStop cfg ++ [.disconnect, .exit])

/-- The receive poll returned anything else. -/
def onCommand (cfg : Config K) (s : State K) : State K × List (Effect K) :=
  let cmd := s.cmd.decodeCmd s.msg
  let wheelVelocity := cfg.wheel.calculate cmd.velocityX cmd.velocityY cmd.velocityW
  let s : State K := { s with
    timeoutCount := 0
    cmd := cmd
    velocityMap := velocityMapOf wheelVelocity }
  (s.stamp fun timers t => { timers with lastKnownMessage := t },
    [logSub "reciever".toList ("Message Recieved: ".toList ++ s.msg) .INFO])

def receiver (cfg : Config K) (input : Input K) (s : State K) : State K × List (Effect K) :=
  if s.due (·.lastReciverTime) cfg.intervals.reciver then
    let (udp, msg) := s.udp.receive
    let s := { s with udp := udp, msg := msg, pc := .camera }
    let (s, effects) :=
      if msg = "TIMEOUT".toList then onTimeout s
      else if msg = "STOP".toList then onStop cfg input s
      else onCommand cfg s
    (s.stamp fun timers t => { timers with lastReciverTime := t }, .recv msg :: effects)
  else ({ s with pc := .camera }, [])

end

section

variable [Field K] [LinearOrder K] [FloorRing K] [Libm K]

/-! ## Camera ball detection -/

def camera (cfg : Config K) (s : State K) : State K × List (Effect K) :=
  let s := { s with pc := .motor }
  if s.due (·.lastCameraTime) cfg.intervals.camera then
    let obs := s.ballObservation
    let s := { s with senderMsg := { s.senderMsg with obs := obs, ballPresent := obs.found } }
    let message :=
      "ball_detected=".toList ++ (if obs.found then "true".toList else "false".toList) ++
        " px=".toList ++ obs.px.toText ++
        " py=".toList ++ obs.py.toText ++
        " r=".toList ++ obs.radius.toText ++
        " b=".toList ++ obs.bearing.toText ++
        " c=".toList ++ obs.confidence.toText
    (s.stamp fun timers t => { timers with lastCameraTime := t },
      [logSub "camball".toList message .INFO])
  else (s, [])

/-! ## Motor telemetry and safety check -/

/-- The reply of a motor reports a current above the limit. -/
def overcurrent (cfg : Config K) (r : MotorTelemetry K) : Bool :=
  r.current.gt (.num cfg.currentLimit)

def logMotor (cfg : Config K) (motorId : Int) (r : MotorTelemetry K) : List (Effect K) :=
  let sub := "motor-".toList ++ intText motorId
  let data : Std.TreeMap String (Double K) := .ofList
    [("temperature", r.temperature), ("voltage", r.voltage), ("velocity", r.velocity),
      ("current", r.current), ("mode", .num r.mode)]
  .log { component := rframework, sub := some sub, numericData := data, level := .INFO } ::
    if overcurrent cfg r then [logSub sub "Overcurrent detected".toList .CRIT] else []

/-- The average over the four slots of `voltage`. The slots were written in the order of `written`;
a slot beyond them still holds what stood on the stack. (A fifth entry of `written` is a write past
the end of the array, which is undefined and no part of the average.) -/
def averageVoltage (stack : Nat → Double K) (written : List (Double K)) : Double K :=
  let voltage i := written[i]?.getD (stack i)
  ((List.range 4).foldl (fun sum i => sum.add (voltage i)) (Double.num 0)).divPos 4

def motor (cfg : Config K) (input : Input K) (s : State K) : State K × List (Effect K) :=
  let s := { s with pc := .sender }
  if s.due (·.lastMotorTime) cfg.intervals.motor then
    let (frames, servoStatus) := Telemetry.cycle cfg.controllers s.velocityMap input.bus
    let status := servoStatus.toList
    let voltage := averageVoltage input.stack (status.map fun p => p.2.voltage)
    let s := { s with
      emergencyStop := s.emergencyStop || status.any fun p => overcurrent cfg p.2
      senderMsg := { s.senderMsg with voltage := voltage } }
    (s.stamp fun timers t => { timers with lastMotorTime := t },
      frames.map (fun p => .frame p.1 p.2) ++ status.flatMap fun p => logMotor cfg p.1 p.2)
  else (s, [])

/-! ## UDP telemetry sender -/

def telemetryText (msg : TelemetryMsg K) (tsMs : Int) : Text :=
  "state=active".toList ++
    ",voltage=".toList ++ msg.voltage.toText ++
    ",ball=".toList ++ (if msg.obs.found then "1".toList else "0".toList) ++
    ",px=".toList ++ msg.obs.px.toText ++
    ",py=".toList ++ msg.obs.py.toText ++
    ",r=".toList ++ msg.obs.radius.toText ++
    ",bearing=".toList ++ msg.obs.bearing.toText ++
    ",conf=".toList ++ msg.obs.confidence.toText ++
    ",ts_ms=".toList ++ intText tsMs

def sender (cfg : Config K) (s : State K) : State K × List (Effect K) :=
  let s := { s with pc := .arduino }
  if s.due (·.lastSenderTime) cfg.intervals.sender then
    let msg := telemetryText s.senderMsg (s.currentTime.tdiv 1000000)
    let ((target, message), udp) := s.udp.send msg
    ({ s with udp := udp }.stamp fun timers t => { timers with lastSenderTime := t },
      [logSub "sender".toList msg .INFO, .sendTo target message])
  else (s, [])

end

/-! ## Arduino commands -/

/-- One `sendCommand`, with the entry logged behind it whatever it returned. -/
def sendCommand (a : Arduino) (write : Arduino.WriteOutcome) (byte : Char) (message : String)
    (level : LogLevel) : List (Effect K) :=
  let (ok, bytes) := a.sendCommand byte write
  bytes.map .serial ++ [.command byte ok, logSub "arduino".toList message.toList level]

def arduino (cfg : Config K) (input : Input K) (s : State K) : State K × List (Effect K) :=
  let s := { s with pc := .head }
  if s.due (·.lastArduinoTime) cfg.intervals.arduino then
    let (s, effects) :=
      if s.arduino.isConnected then
        if s.cmd.kick then
          ({ s with cmd := s.cmd.clearKick },
            sendCommand s.arduino input.write 'K' "Sent kick" .HATE)
        else if s.cmd.dribble then
          (s, sendCommand s.arduino input.write 'D' "Sent dribble" .LOVE)
        else (s, sendCommand s.arduino input.write 'S' "Sent stop dribble" .INFO)
      else (s, [])
    (s.stamp fun timers t => { timers with lastArduinoTime := t }, effects)
  else (s, [])

/-! ## Behind the loop -/

def shutdown (cfg : Config K) (input : Input K) (s : State K) : State K × List (Effect K) :=
  ({ s with arduino := s.arduino.disconnect input.closes, pc := .exited },
    setStop cfg ++
      [.disconnect, log "Emergency stop activated, shutting down".toList .HATE, .closeLogs, .exit])

/-! ## The process -/

variable [Field K] [LinearOrder K] [FloorRing K] [Libm K]

def next (cfg : Config K) (input : Input K) (s : State K) : State K × List (Effect K) :=
  match s.pc with
  | .head => head input s
  | .receiver => receiver cfg input s
  | .camera => camera cfg s
  | .motor => motor cfg input s
  | .sender => sender cfg s
  | .arduino => arduino cfg input s
  | .shutdown => shutdown cfg input s
  | .exited => (s, [])

/-- The process: `main`, interleaved with what happens to it. -/
def process (cfg : Config K) : Machine (State K) (Event K) (Effect K) := fun s e =>
  match e with
  | .step input => next cfg input s
  | .arrive d => ({ s with udp := s.udp.arrive d }, [])
  | .signal => ({ s with manualStopFlag := true }, [])
  | .observe obs => ({ s with ballObservation := obs }, [])

end RobotFramework.Main

import RobotFramework.Arduino.Host
import RobotFramework.Logger.Entry
import RobotFramework.Math.WheelMath
import RobotFramework.Networks.Decode
import RobotFramework.Networks.Udp
import RobotFramework.Telemetry.Telemetry

/-!
# `RobotFramework.cpp`: the state of `main`

The local and static variables of `main`, the atomics it shares with the signal handler and the
camera thread, and its place in the loop (`Pc`). A step of the loop body runs without interruption
as far as the rest of the model is concerned; between two of them datagrams arrive, signals are
delivered and the camera thread publishes observations.
-/

namespace RobotFramework

open Cxx Moteus

structure BallObservation (K : Type) where
  found : Bool
  px : Double K
  py : Double K
  radius : Double K
  bearing : Double K
  confidence : Double K

structure TelemetryMsg (K : Type) where
  ballPresent : Bool
  voltage : Double K
  obs : BallObservation K

namespace Main

/-- The intervals of the periodic tasks, in milliseconds. -/
structure Intervals where
  reciver : Int
  sender : Int
  arduino : Int
  camera : Int
  motor : Int

structure Config (K : Type) where
  controllers : Controllers
  wheel : WheelMath K
  currentLimit : K
  intervals : Intervals

/-- The places between the steps of the loop body, the code behind the loop, and the end of the
process. -/
inductive Pc where
  | head
  | receiver
  | camera
  | motor
  | sender
  | arduino
  | shutdown
  | exited
deriving DecidableEq

/-- The static timers, in nanoseconds. -/
structure Timers where
  lastReciverTime : Int
  lastMotorTime : Int
  lastCameraTime : Int
  lastSenderTime : Int
  lastArduinoTime : Int
  lastKnownMessage : Int
deriving DecidableEq

def Timers.all (currentTime : Int) : Timers :=
  ⟨currentTime, currentTime, currentTime, currentTime, currentTime, currentTime⟩

/-- The variables of `main`. `timers` is absent until the first iteration initialises it. -/
structure State (K : Type) where
  pc : Pc
  currentTime : Int
  timers : Option Timers
  timeoutCount : BitVec 32
  udp : Udp
  msg : Text
  cmd : CmdDecoder K
  velocityMap : Std.TreeMap Int K
  senderMsg : TelemetryMsg K
  arduino : Arduino
  emergencyStop : Bool
  manualStopFlag : Bool
  ballObservation : BallObservation K

/-- What can be observed of the process. -/
inductive Effect (K : Type) where
  | recv (msg : Text)
  /-- The controller with this ID put a frame on its bus. -/
  | frame (id : Int) (frame : CanFdFrame K)
  | sendTo (target : SockAddr) (message : Text)
  /-- `sendCommand` was called with this byte and returned this. -/
  | command (byte : Char) (ok : Bool)
  /-- A byte went out on the serial line. -/
  | serial (byte : Char)
  | disconnect
  | log (call : LogCall K)
  | closeLogs
  | exit

/-- What a step takes from the world: the clock, the answers of the motor bus, what stands on the
stack where `voltage[4]` will be, and how the calls to the serial port end. -/
structure Input (K : Type) where
  now : Int
  bus : MotorBus K
  stack : Nat → Double K
  write : Arduino.WriteOutcome
  closes : Bool

/-- What happens to the process: the next step of `main`, a datagram, a signal (`signalHandler`), an
observation of the camera thread. -/
inductive Event (K : Type) where
  | step (input : Input K)
  | arrive (d : Datagram)
  | signal
  | observe (obs : BallObservation K)

end Main

end RobotFramework

import RobotFramework.Lib.Stream

/-!
# `Arduino/arduino.cpp`: the host's side of the serial link

The calls into LibSerial may throw; which of them do is an argument of each operation. Two of its
rules are used: `Open` throws if the port is open already, and a `Close` that throws leaves it open.
-/

namespace RobotFramework

open Cxx

/-- `class Arduino`, with the state of its serial port. Nothing but `connect` makes it connected,
and then the port is open. -/
structure Arduino where
  serialOpen : Bool
  connectedPort : Text
  isConnected : Bool
  open_of_isConnected : isConnected = true → serialOpen = true

namespace Arduino

/-- `Arduino::Arduino` -/
def new : Arduino := ⟨false, [], false, fun h => by cases h⟩

/-- `disconnect`; `closes` says whether `Close`, if called, succeeds. -/
def disconnect (a : Arduino) (closes : Bool) : Arduino :=
  { serialOpen := if a.isConnected && a.serialOpen then !closes else a.serialOpen
    connectedPort := []
    isConnected := false
    open_of_isConnected := fun h => by cases h }

/-- Which of the calls of `connect` succeed. -/
structure ConnectOutcome where
  closes : Bool
  opens : Bool
  configures : Bool

def connect (a : Arduino) (port : Text) (o : ConnectOutcome) : Arduino × Bool :=
  let a := if a.isConnected then a.disconnect o.closes else a
  if a.serialOpen || !o.opens then
    -- `Open` throws.
    ({ a with isConnected := false, open_of_isConnected := fun h => by cases h }, false)
  else if !o.configures then
    -- One of the calls behind `Open` throws: the port stays open.
    ({ a with
        serialOpen := true
        isConnected := false
        open_of_isConnected := fun h => by cases h }, false)
  else (⟨true, port, true, fun _ => rfl⟩, true)

/-- The ports `findArduino` tries, in order. -/
def ports : List Text :=
  ["/dev/ttyUSB".toList, "/dev/ttyACM".toList].flatMap fun pattern =>
    (List.range 10).map fun i => pattern ++ Nat.toDigits 10 i

/-- `findArduino`: connect to the first port that exists and passes the test. -/
def findArduino (a : Arduino) (present testPort : Text → Bool) (o : ConnectOutcome) :
    Arduino × Bool :=
  match ports.find? fun port => present port && testPort port with
  | some port => a.connect port o
  | none => (a, false)

structure WriteOutcome where
  writes : Bool
  drains : Bool

def sendCommand (a : Arduino) (command : Char) (o : WriteOutcome) : Bool × List Char :=
  if !a.isConnected || !a.serialOpen then (false, [])
  else if !o.writes then (false, [])
  else if !o.drains then (false, [command])
  else (true, [command])

theorem sendCommand_of_isConnected {a : Arduino} (h : a.isConnected = true) (command : Char)
    (o : WriteOutcome) :
    a.sendCommand command o = (o.writes && o.drains, if o.writes then [command] else []) := by
  unfold sendCommand
  rw [h, a.open_of_isConnected h]
  cases o.writes <;> cases o.drains <;> rfl

end Arduino

end RobotFramework

import RobotFramework.Moteus.Query

/-!
# `mjbots/moteus/moteus.h`: controllers and their frames

A `Controller` fixes its query request once, when it is built, and appends it to every frame it
makes. Of the data of a frame the mode command is kept as a value instead of bytes (its floating
point encoding is not modelled); the query request is kept as bytes.
-/

namespace Moteus

open Cxx

def toInt8 (n : Int) : Int := n.bmod 256

/-- The fields of `PositionMode::Command` that the default position format transmits. -/
structure PositionCommand (K : Type) where
  position : Double K
  velocity : K

inductive ModeCommand (K : Type) where
  | stopped
  | position (command : PositionCommand K)

/-- `CanFdFrame`, outgoing. -/
structure CanFdFrame (K : Type) where
  bus : Int
  arbitrationId : BitVec 32
  destination : Int
  source : Int
  replyRequired : Bool
  command : ModeCommand K
  query : List UInt8

/-- `CanFdFrame`, incoming: the source that answered and the registers it answers with. -/
structure ReplyFrame (K : Type) where
  source : Int
  items : List (Query.Item K)

/-- `Controller::Options`, as far as they differ from the defaults or are used by `MakeFrame`. -/
structure Options where
  id : Int := 1
  bus : Int := 0
  queryFormat : Query.Format := {}
  canPrefix : BitVec 32 := 0
  defaultQuery : Bool := true

structure Controller where
  options : Options
  queryFrame : List UInt8

namespace Controller

def new (options : Options) : Controller :=
  { options, queryFrame := Query.make options.queryFormat }

variable {K : Type}

/-- `MakeFrame`, without a query format to override the default one. -/
def makeFrame (c : Controller) (command : ModeCommand K) : CanFdFrame K :=
  let destination := toInt8 c.options.id
  let source := 0  -- `DefaultFrame` leaves the source at its default
  let replyRequired := c.options.defaultQuery
  { bus := toInt8 c.options.bus
    arbitrationId := BitVec.ofInt 32 destination ||| BitVec.ofInt 32 (source * 256) |||
      (if replyRequired then 0x8000 else 0) ||| c.options.canPrefix <<< 16
    destination
    source
    replyRequired
    command
    query := if c.options.defaultQuery then c.queryFrame else [] }

def makePosition (c : Controller) (command : PositionCommand K) : CanFdFrame K :=
  c.makeFrame (.position command)

def makeStop (c : Controller) : CanFdFrame K := c.makeFrame .stopped

end Controller

/-! ## What a device answers -/

/-- The registers of a motor controller, by number, at the moment it is asked. -/
abbrev Registers (K : Type) := Nat → Double K

/-- A device answers exactly the registers that the request in the frame asks for. -/
def answer {K : Type} (registers : Registers K) (frame : CanFdFrame K) : ReplyFrame K :=
  { source := frame.destination
    items := (requested frame.query).map fun r => ⟨r.1, registers r.1⟩ }

end Moteus

import RobotFramework.Lib.Double
import RobotFramework.Moteus.Multiplex

/-!
# `mjbots/moteus/moteus_protocol.h`: queries

`Query::Format` says per register whether and how it is asked for, `Query::Make` writes the request,
`Query::Parse` reads the reply. A field of `Query::Result` is NaN until the reply brings its
register (`parse_qCurrent_eq_nan`), and with the format a controller has by default the q-axis
current is not among the registers asked for (`requested_default`).
-/

namespace Moteus

open Cxx

/-! ## Registers -/

namespace Register

@[match_pattern] def kMode : Nat := 0x000
@[match_pattern] def kPosition : Nat := 0x001
@[match_pattern] def kVelocity : Nat := 0x002
@[match_pattern] def kTorque : Nat := 0x003
@[match_pattern] def kQCurrent : Nat := 0x004
@[match_pattern] def kDCurrent : Nat := 0x005
@[match_pattern] def kAbsPosition : Nat := 0x006
@[match_pattern] def kPower : Nat := 0x007
@[match_pattern] def kMotorTemperature : Nat := 0x00a
@[match_pattern] def kTrajectoryComplete : Nat := 0x00b
@[match_pattern] def kHomeState : Nat := 0x00c
@[match_pattern] def kVoltage : Nat := 0x00d
@[match_pattern] def kTemperature : Nat := 0x00e
@[match_pattern] def kFault : Nat := 0x00f
@[match_pattern] def kAux1GpioStatus : Nat := 0x05e
@[match_pattern] def kAux2GpioStatus : Nat := 0x05f
@[match_pattern] def kAux1PwmInputPeriod : Nat := 0x072
@[match_pattern] def kAux1PwmInputDutyCycle : Nat := 0x073
@[match_pattern] def kAux2PwmInputPeriod : Nat := 0x074
@[match_pattern] def kAux2PwmInputDutyCycle : Nat := 0x075

end Register

namespace Query

def kMaxExtra : Nat := 16

/-! ## The request -/

structure ItemFormat where
  registerNumber : Nat
  resolution : Resolution
deriving DecidableEq

/-- `Query::Format`, with the defaults of the source. `extra` holds the entries before the first
unused one, sorted by register. -/
structure Format where
  mode : Resolution := .kInt8
  position : Resolution := .kFloat
  velocity : Resolution := .kFloat
  torque : Resolution := .kFloat
  qCurrent : Resolution := .kIgnore
  dCurrent : Resolution := .kIgnore
  absPosition : Resolution := .kIgnore
  power : Resolution := .kIgnore
  motorTemperature : Resolution := .kIgnore
  trajectoryComplete : Resolution := .kIgnore
  homeState : Resolution := .kIgnore
  voltage : Resolution := .kInt8
  temperature : Resolution := .kInt8
  fault : Resolution := .kInt8
  aux1Gpio : Resolution := .kIgnore
  aux2Gpio : Resolution := .kIgnore
  aux1PwmInputPeriodUs : Resolution := .kIgnore
  aux1PwmInputDutyCycle : Resolution := .kIgnore
  aux2PwmInputPeriodUs : Resolution := .kIgnore
  aux2PwmInputDutyCycle : Resolution := .kIgnore
  extra : List ItemFormat := []

/-- The resolutions of `count` registers from `register` on, by the sorted entries of `extra`. -/
def extraResolutions : Nat → Nat → List ItemFormat → List Resolution
  | 0, _, _ => []
  | count + 1, register, [] => .kIgnore :: extraResolutions count (register + 1) []
  | count + 1, register, item :: items =>
    if item.registerNumber = register then
      item.resolution :: extraResolutions count (register + 1) items
    else .kIgnore :: extraResolutions count (register + 1) (item :: items)

/-- The last block of `Query::Make`: from the first to the last register of `extra`. -/
def makeExtra (extra : List ItemFormat) : List UInt8 :=
  match extra.head?, extra.getLast? with
  | some first, some last =>
    readHeaders first.registerNumber
      (extraResolutions (last.registerNumber - first.registerNumber + 1) first.registerNumber extra)
  | _, _ => []

def make (format : Format) : List UInt8 :=
  readHeaders Register.kMode
      [format.mode, format.position, format.velocity, format.torque, format.qCurrent,
        format.dCurrent, format.absPosition, format.power] ++
    readHeaders Register.kMotorTemperature
      [format.motorTemperature, format.trajectoryComplete, format.homeState, format.voltage,
        format.temperature, format.fault] ++
    readHeaders Register.kAux1GpioStatus [format.aux1Gpio, format.aux2Gpio] ++
    readHeaders Register.kAux1PwmInputPeriod
      [format.aux1PwmInputPeriodUs, format.aux1PwmInputDutyCycle, format.aux2PwmInputPeriodUs,
        format.aux2PwmInputDutyCycle] ++
    makeExtra format.extra

/-- What a controller with the default format is asked for: no current. -/
theorem requested_default :
    requested (make {}) =
      [(Register.kMode, .kInt8), (Register.kPosition, .kFloat), (Register.kVelocity, .kFloat),
        (Register.kTorque, .kFloat), (Register.kVoltage, .kInt8), (Register.kTemperature, .kInt8),
        (Register.kFault, .kInt8)] := by
  decide

/-! ## The reply -/

/-- A register in a reply, with the value the parser reads for it. -/
structure Item (K : Type) where
  register : Nat
  value : Double K

structure Result (K : Type) where
  mode : Int := 0
  position : Double K := .nan
  velocity : Double K := .nan
  torque : Double K := .nan
  qCurrent : Double K := .nan
  dCurrent : Double K := .nan
  absPosition : Double K := .nan
  power : Double K := .nan
  motorTemperature : Double K := .nan
  trajectoryComplete : Bool := false
  homeState : Int := 0
  voltage : Double K := .nan
  temperature : Double K := .nan
  fault : Int := 0
  aux1Gpio : Int := 0
  aux2Gpio : Int := 0
  aux1PwmInputPeriodUs : Int := 0
  aux1PwmInputDutyCycle : Double K
  aux2PwmInputPeriodUs : Int := 0
  aux2PwmInputDutyCycle : Double K
  extra : List (Item K) := []

variable {K : Type} [Field K] [LinearOrder K] [FloorRing K] [Libm K]

omit [LinearOrder K] [FloorRing K] [Libm K] in
def Result.new : Result K := { aux1PwmInputDutyCycle := .num 0, aux2PwmInputDutyCycle := .num 0 }

/-- One turn of the loop of `Query::Parse`. -/
def parseItem (result : Result K) (item : Item K) : Result K :=
  match item.register with
  | Register.kMode => { result with mode := item.value.trunc }
  | Register.kPosition => { result with position := item.value }
  | Register.kVelocity => { result with velocity := item.value }
  | Register.kTorque => { result with torque := item.value }
  | Register.kQCurrent => { result with qCurrent := item.value }
  | Register.kDCurrent => { result with dCurrent := item.value }
  | Register.kAbsPosition => { result with absPosition := item.value }
  | Register.kPower => { result with power := item.value }
  | Register.kMotorTemperature => { result with motorTemperature := item.value }
  | Register.kTrajectoryComplete => { result with trajectoryComplete := item.value.trunc != 0 }
  | Register.kHomeState => { result with homeState := item.value.trunc }
  | Register.kVoltage => { result with voltage := item.value }
  | Register.kTemperature => { result with temperature := item.value }
  | Register.kFault => { result with fault := item.value.trunc }
  | Register.kAux1GpioStatus => { result with aux1Gpio := item.value.trunc }
  | Register.kAux2GpioStatus => { result with aux2Gpio := item.value.trunc }
  | Register.kAux1PwmInputPeriod => { result with aux1PwmInputPeriodUs := item.value.trunc }
  | Register.kAux1PwmInputDutyCycle => { result with aux1PwmInputDutyCycle := item.value }
  | Register.kAux2PwmInputPeriod => { result with aux2PwmInputPeriodUs := item.value.trunc }
  | Register.kAux2PwmInputDutyCycle => { result with aux2PwmInputDutyCycle := item.value }
  | _ =>
    if result.extra.length < kMaxExtra then { result with extra := result.extra ++ [item] }
    else result

def parse (items : List (Item K)) : Result K := items.foldl parseItem Result.new

theorem parseItem_qCurrent {result : Result K} {item : Item K}
    (h : item.register ≠ Register.kQCurrent) :
    (parseItem result item).qCurrent = result.qCurrent := by
  unfold parseItem
  split
  case h_5 hq => exact absurd hq h
  case h_21 => split <;> rfl
  all_goals rfl

/-- **A register that is not in the reply is not reported.** -/
theorem parse_qCurrent_eq_nan {items : List (Item K)}
    (h : ∀ item ∈ items, item.register ≠ Register.kQCurrent) : (parse items).qCurrent = .nan := by
  suffices hgen : ∀ result : Result K,
      (items.foldl parseItem result).qCurrent = result.qCurrent from hgen Result.new
  induction items with
  | nil => intro result; rfl
  | cons item items ih =>
    intro result
    rw [List.foldl_cons, ih fun i hi => h i (List.mem_cons_of_mem _ hi),
      parseItem_qCurrent (h item List.mem_cons_self)]

end Query

end Moteus

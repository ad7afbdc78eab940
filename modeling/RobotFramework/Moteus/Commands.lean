import RobotFramework.Moteus.Device

/-!
# `mjbots/moteus/moteus_protocol.h`: commands

A command sets a mode, or writes registers, or both: the registers go through a `WriteCombiner`, each
at the resolution its `Format` has for it, or are written by hand where there is only one of them
(`writeMode`, `combine`, `writeOne`). Some commands only read, and return how long the answer will
be. Whichever way it was made, a device reads back the mode and the registers that are not ignored,
in order, with the values that went in (`accesses_frame_make`).
-/

namespace Moteus

open Cxx

/-! ## The commands -/

/-- `Mode` -/
inductive Mode where
  | kStopped
  | kFault
  | kEnabling
  | kCalibrating
  | kCalibrationComplete
  | kPwm
  | kVoltage
  | kVoltageFoc
  | kVoltageDq
  | kCurrent
  | kPosition
  | kPositionTimeout
  | kZeroVelocity
  | kStayWithin
  | kMeasureInd
  | kBrake
deriving DecidableEq

def Mode.code : Mode → UInt8
  | kStopped => 0
  | kFault => 1
  | kEnabling => 2
  | kCalibrating => 3
  | kCalibrationComplete => 4
  | kPwm => 5
  | kVoltage => 6
  | kVoltageFoc => 7
  | kVoltageDq => 8
  | kCurrent => 9
  | kPosition => 10
  | kPositionTimeout => 11
  | kZeroVelocity => 12
  | kStayWithin => 13
  | kMeasureInd => 14
  | kBrake => 15

namespace Register

def kVFocTheta : Nat := 0x018
def kCommandQCurrent : Nat := 0x01c
def kCommandPosition : Nat := 0x020
def kCommandVelocity : Nat := 0x021
def kCommandKdScale : Nat := 0x024
def kCommandStayWithinLowerBound : Nat := 0x040
def kAux1GpioCommand : Nat := 0x05c
def kClockTrim : Nat := 0x071
def kAux1Pwm1 : Nat := 0x076
def kRegisterMapVersion : Nat := 0x102
def kSetOutputNearest : Nat := 0x130
def kSetOutputExact : Nat := 0x131
def kRequireReindex : Nat := 0x132
def kRecapturePositionVelocity : Nat := 0x133

end Register

/-- `PositionMode::Command` -/
structure PositionMode.Command (K : Type) [Zero K] [One K] where
  position : Double K := .num 0
  velocity : Double K := .num 0
  feedforwardTorque : Double K := .num 0
  kpScale : Double K := .num 1
  kdScale : Double K := .num 1
  maximumTorque : Double K := .nan
  stopPosition : Double K := .nan
  watchdogTimeout : Double K := .nan
  velocityLimit : Double K := .nan
  accelLimit : Double K := .nan
  fixedVoltageOverride : Double K := .nan
  ilimitScale : Double K := .num 1
  fixedCurrentOverride : Double K := .nan
  ignorePositionBounds : Double K := .num 0

/-- `PositionMode::Format` -/
structure PositionMode.Format where
  position : Resolution := .kFloat
  velocity : Resolution := .kFloat
  feedforwardTorque : Resolution := .kIgnore
  kpScale : Resolution := .kIgnore
  kdScale : Resolution := .kIgnore
  maximumTorque : Resolution := .kIgnore
  stopPosition : Resolution := .kIgnore
  watchdogTimeout : Resolution := .kIgnore
  velocityLimit : Resolution := .kIgnore
  accelLimit : Resolution := .kIgnore
  fixedVoltageOverride : Resolution := .kIgnore
  ilimitScale : Resolution := .kIgnore
  fixedCurrentOverride : Resolution := .kIgnore
  ignorePositionBounds : Resolution := .kIgnore

/-- `VFOCMode::Command` -/
structure VFOCMode.Command (K : Type) where
  thetaRad : Double K
  voltage : Double K
  thetaRadRate : Double K

/-- `VFOCMode::Format` -/
structure VFOCMode.Format where
  thetaRad : Resolution := .kFloat
  voltage : Resolution := .kFloat
  thetaRadRate : Resolution := .kFloat

/-- `CurrentMode::Command` -/
structure CurrentMode.Command (K : Type) where
  dA : Double K
  qA : Double K

/-- `CurrentMode::Format` -/
structure CurrentMode.Format where
  dA : Resolution := .kFloat
  qA : Resolution := .kFloat

/-- `StayWithinMode::Command` -/
structure StayWithinMode.Command (K : Type) [Zero K] [One K] where
  lowerBound : Double K := .nan
  upperBound : Double K := .nan
  feedforwardTorque : Double K := .num 0
  kpScale : Double K := .num 1
  kdScale : Double K := .num 1
  maximumTorque : Double K := .num 0
  watchdogTimeout : Double K := .nan
  ilimitScale : Double K := .num 1
  ignorePositionBounds : Double K := .num 0

/-- `StayWithinMode::Format` -/
structure StayWithinMode.Format where
  lowerBound : Resolution := .kFloat
  upperBound : Resolution := .kFloat
  feedforwardTorque : Resolution := .kIgnore
  kpScale : Resolution := .kIgnore
  kdScale : Resolution := .kIgnore
  maximumTorque : Resolution := .kIgnore
  watchdogTimeout : Resolution := .kIgnore
  ilimitScale : Resolution := .kIgnore
  ignorePositionBounds : Resolution := .kIgnore

/-- What a `Controller` can be told, with the format where there is one. A `GenericQuery` is only made
to ask for the schema version. -/
inductive Command (K : Type) [Zero K] [One K] where
  | empty
  | stop
  | brake
  | position (command : PositionMode.Command K) (format : PositionMode.Format)
  | vfoc (command : VFOCMode.Command K) (format : VFOCMode.Format)
  | current (command : CurrentMode.Command K) (format : CurrentMode.Format)
  | stayWithin (command : StayWithinMode.Command K) (format : StayWithinMode.Format)
  | zeroVelocity (kdScale : Double K) (format : Resolution)
  | gpioWrite (aux1 aux2 : Int) (format1 format2 : Resolution)
  | gpioRead (format1 format2 : Resolution)
  | outputNearest (position : Double K)
  | outputExact (position : Double K)
  | requireReindex
  | recapturePositionVelocity
  | clockTrim (trim : Int)
  | auxPwmWrite (pwm : Fin 10 → Double K) (format : Fin 10 → Resolution)
  | schemaVersionQuery

/-! ## Registers -/

variable {K : Type} [Field K] [LinearOrder K] [FloorRing K]

/-- A value that is written at a resolution. -/
def WriteCombiner.Value.of (write : Resolution → Option (List UInt8)) (resolution : Resolution) :
    WriteCombiner.Value :=
  (resolution, write resolution)

open WriteCombiner (Value)

/-- The registers of `PositionMode::Make`. -/
def PositionMode.values [Libm K] (command : PositionMode.Command K)
    (format : PositionMode.Format) : List Value :=
  [Value.of (writePosition command.position) format.position,
    Value.of (writeVelocity command.velocity) format.velocity,
    Value.of (writeTorque command.feedforwardTorque) format.feedforwardTorque,
    Value.of (writePwm command.kpScale) format.kpScale,
    Value.of (writePwm command.kdScale) format.kdScale,
    Value.of (writeTorque command.maximumTorque) format.maximumTorque,
    Value.of (writePosition command.stopPosition) format.stopPosition,
    Value.of (writeTime command.watchdogTimeout) format.watchdogTimeout,
    Value.of (writeVelocity command.velocityLimit) format.velocityLimit,
    Value.of (writeAccel command.accelLimit) format.accelLimit,
    Value.of (writeVoltage command.fixedVoltageOverride) format.fixedVoltageOverride,
    Value.of (writePwm command.ilimitScale) format.ilimitScale,
    Value.of (writeCurrent command.fixedCurrentOverride) format.fixedCurrentOverride,
    Value.of (writeIntAs (K := K) command.ignorePositionBounds.trunc) format.ignorePositionBounds]

/-- The registers of `StayWithinMode::Make`. -/
def StayWithinMode.values [Libm K] (command : StayWithinMode.Command K)
    (format : StayWithinMode.Format) : List Value :=
  [Value.of (writePosition command.lowerBound) format.lowerBound,
    Value.of (writePosition command.upperBound) format.upperBound,
    Value.of (writeTorque command.feedforwardTorque) format.feedforwardTorque,
    Value.of (writePwm command.kpScale) format.kpScale,
    Value.of (writePwm command.kdScale) format.kdScale,
    Value.of (writeTorque command.maximumTorque) format.maximumTorque,
    Value.of (writeTime command.watchdogTimeout) format.watchdogTimeout,
    Value.of (writePwm command.ilimitScale) format.ilimitScale,
    Value.of (writeIntAs (K := K) command.ignorePositionBounds.trunc) format.ignorePositionBounds]

/-- The registers of `AuxPwmWrite::Make`: what is no number is left out. -/
def AuxPwmWrite.values [Libm K] (pwm : Fin 10 → Double K) (format : Fin 10 → Resolution) :
    List Value :=
  (List.finRange 10).map fun i =>
    if (pwm i).value?.isSome then Value.of (writePwm (pwm i)) (format i) else (.kIgnore, none)

/-! ## `Make` -/

/-- The mode is an `int8_t` in register 0. -/
def writeMode (frame : CanData) (mode : Mode) : Option CanData := do
  let frame ← frame.write [0x00 ||| 0x01]
  let frame ← frame.write [UInt8.ofNat Register.kMode]
  frame.write [mode.code]

/-- Registers by a `WriteCombiner`, from the first one on. -/
def combine (frame : CanData) (startRegister : Nat) (values : List Value) : Option CanData :=
  let combiner : WriteCombiner :=
    { baseCommand := 0x00, startRegister, resolutions := values.map Prod.fst }
  (combiner.writeCells frame (values.map Prod.snd)).map Prod.snd

/-- One register by hand. -/
def writeOne (frame : CanData) (command : UInt8) (register : Nat) (value : List UInt8) :
    Option CanData := do
  let frame ← frame.write [command ||| 0x01]
  let frame ← frame.write (writeVaruint 5 register)
  frame.write value

namespace Command

variable [Libm K]

/-- The registers of `VFOCMode::Make`. To ask for one of the four that are left out is an `abort`. -/
def vfocValues (command : VFOCMode.Command K) (format : VFOCMode.Format) : List Value :=
  [Value.of (writePwm (command.thetaRad.divPos Libm.pi).rounded) format.thetaRad,
    Value.of (writeVoltage command.voltage) format.voltage,
    (.kIgnore, none), (.kIgnore, none), (.kIgnore, none), (.kIgnore, none),
    Value.of (writeVelocity (command.thetaRadRate.divPos Libm.pi).rounded) format.thetaRadRate]

def currentValues (command : CurrentMode.Command K) (format : CurrentMode.Format) : List Value :=
  [Value.of (writeCurrent command.qA) format.qA, Value.of (writeCurrent command.dA) format.dA]

def gpioValues (aux1 aux2 : Int) (format1 format2 : Resolution) : List Value :=
  [Value.of (writeIntAs (K := K) aux1) format1, Value.of (writeIntAs (K := K) aux2) format2]

/-- What the `Make` of a command writes to the frame besides reads. -/
def makeWrites (frame : CanData) : Command K → Option CanData
  | stop => writeMode frame .kStopped
  | brake => writeMode frame .kBrake
  | position command format => do
    let frame ← writeMode frame .kPosition
    combine frame Register.kCommandPosition (PositionMode.values command format)
  | vfoc command format => do
    let frame ← writeMode frame .kVoltageFoc
    combine frame Register.kVFocTheta (vfocValues command format)
  | current command format => do
    let frame ← writeMode frame .kCurrent
    combine frame Register.kCommandQCurrent (currentValues command format)
  | stayWithin command format => do
    let frame ← writeMode frame .kStayWithin
    combine frame Register.kCommandStayWithinLowerBound (StayWithinMode.values command format)
  | zeroVelocity kdScale format => do
    let frame ← writeMode frame .kZeroVelocity
    if format ≠ .kIgnore then
      combine frame Register.kCommandKdScale [Value.of (writePwm kdScale) format]
    else some frame
  | gpioWrite aux1 aux2 format1 format2 =>
    combine frame Register.kAux1GpioCommand (gpioValues (K := K) aux1 aux2 format1 format2)
  | outputNearest target =>
    writeOne frame 0x0c Register.kSetOutputNearest (writeNat 4 (Binary32.encode target))
  | outputExact target =>
    writeOne frame 0x0c Register.kSetOutputExact (writeNat 4 (Binary32.encode target))
  | requireReindex => writeOne frame 0x00 Register.kRequireReindex (writeInt 1 1)
  | recapturePositionVelocity =>
    writeOne frame 0x00 Register.kRecapturePositionVelocity (writeInt 1 1)
  | clockTrim trim => writeOne frame 0x08 Register.kClockTrim (writeInt 4 trim)
  | auxPwmWrite pwm format => combine frame Register.kAux1Pwm1 (AuxPwmWrite.values pwm format)
  | empty => some frame
  | gpioRead _ _ => some frame
  | schemaVersionQuery => some frame

/-- The `Make` of each command: the reply size that it returns, and the frame. Those that read have
one combiner for all their registers, like a block of a query. -/
def make (frame : CanData) : Command K → Option (UInt8 × CanData)
  | gpioRead format1 format2 =>
    Query.makeBlock frame (Register.kAux1GpioStatus, [format1, format2])
  | schemaVersionQuery => Query.makeBlock frame (Register.kRegisterMapVersion, [.kInt32])
  | command => (command.makeWrites frame).map fun frame => (0, frame)

/-! ## What a device makes of it -/

/-- The mode a command sets, if it sets one. -/
def mode : Command K → Option Mode
  | stop => some .kStopped
  | brake => some .kBrake
  | position _ _ => some .kPosition
  | vfoc _ _ => some .kVoltageFoc
  | current _ _ => some .kCurrent
  | stayWithin _ _ => some .kStayWithin
  | zeroVelocity _ _ => some .kZeroVelocity
  | _ => none

/-- The registers a command writes besides, from the first one on. -/
def registers : Command K → Nat × List Value
  | empty => (0, [])
  | stop => (0, [])
  | brake => (0, [])
  | position command format => (Register.kCommandPosition, PositionMode.values command format)
  | vfoc command format => (Register.kVFocTheta, vfocValues command format)
  | current command format => (Register.kCommandQCurrent, currentValues command format)
  | stayWithin command format =>
    (Register.kCommandStayWithinLowerBound, StayWithinMode.values command format)
  | zeroVelocity kdScale format => (Register.kCommandKdScale, [Value.of (writePwm kdScale) format])
  | gpioWrite aux1 aux2 format1 format2 =>
    (Register.kAux1GpioCommand, gpioValues (K := K) aux1 aux2 format1 format2)
  | outputNearest target => (Register.kSetOutputNearest, [Value.of (writePosition target) .kFloat])
  | outputExact target => (Register.kSetOutputExact, [Value.of (writePosition target) .kFloat])
  | requireReindex => (Register.kRequireReindex, [Value.of (writeIntAs (K := K) 1) .kInt8])
  | recapturePositionVelocity =>
    (Register.kRecapturePositionVelocity, [Value.of (writeIntAs (K := K) 1) .kInt8])
  | clockTrim trim => (Register.kClockTrim, [Value.of (writeIntAs (K := K) trim) .kInt32])
  | auxPwmWrite pwm format => (Register.kAux1Pwm1, AuxPwmWrite.values pwm format)
  | gpioRead _ _ => (0, [])
  | schemaVersionQuery => (0, [])

/-- The runs a command reads. -/
def readRuns : Command K → List Run
  | gpioRead format1 format2 => runs .kIgnore Register.kAux1GpioStatus [format1, format2]
  | schemaVersionQuery => runs .kIgnore Register.kRegisterMapVersion [.kInt32]
  | _ => []

/-- The blocks of a command. -/
def blocks (command : Command K) : List (Nat × List Cell) :=
  (match command.mode with
    | some mode => [(Register.kMode, [(.kInt8, [mode.code])])]
    | none => []) ++ [(command.registers.1, command.registers.2.map Value.cell)]

end Command

/-! ### The three ways to write -/

theorem writeMode_eq (frame : CanData) (mode : Mode) :
    writeMode frame mode =
      frame.write (encodeRegisters 0x00 .kIgnore Register.kMode [(.kInt8, [mode.code])]) := by
  have hbytes : encodeRegisters 0x00 .kIgnore Register.kMode [(.kInt8, [mode.code])] =
      [0x00 ||| 0x01] ++ ([UInt8.ofNat Register.kMode] ++ [mode.code]) := rfl
  rw [hbytes, ← CanData.write_append, writeMode]
  simp only [Option.bind_eq_bind, ← CanData.write_append]

/-- A value that can be written, of the size of its resolution. -/
def WriteCombiner.Value.Ok (value : Value) : Prop :=
  value.1 ≠ .kIgnore → ∃ raw, value.2 = some raw ∧ raw.length = value.1.size

theorem combine_eq {values : List Value} (hvalues : ∀ value ∈ values, value.Ok) (frame : CanData)
    (startRegister : Nat) :
    combine frame startRegister values =
      frame.write (encodeRegisters 0x00 .kIgnore startRegister (values.map Value.cell)) := by
  let combiner : WriteCombiner :=
    { baseCommand := 0x00, startRegister, resolutions := values.map Prod.fst }
  have hsome : ∀ value ∈ values, value.1 ≠ .kIgnore → value.2.isSome := by
    intro value hvalue hne
    obtain ⟨raw, hraw, -⟩ := hvalues value hvalue hne
    rw [hraw]
    rfl
  have hat : combiner.At (values.map Value.cell) := by
    show (values.map Prod.fst).drop 0 = (values.map Value.cell).map Prod.fst
    rw [List.drop_zero, List.map_map]
    rfl
  have hwrite := WriteCombiner.writeCells_eq hsome hat frame
  show (combiner.writeCells frame (values.map Prod.snd)).map Prod.snd = _
  rw [hwrite, Option.map_map]
  exact congrFun Option.map_id _

theorem writeOne_eq (frame : CanData) {resolution : Resolution} (hne : resolution ≠ .kIgnore)
    (register : Nat) (value : List UInt8) :
    writeOne frame resolution.code register value =
      frame.write (encodeRegisters 0x00 .kIgnore register [(resolution, value)]) := by
  have hcode : resolution.code ||| 0x01 = 0x00 + resolution.code + UInt8.ofNat 1 := by
    cases resolution <;> decide
  have hbytes : encodeRegisters 0x00 .kIgnore register [(resolution, value)] =
      [resolution.code ||| 0x01] ++ (writeVaruint 5 register ++ value) := by
    rw [encodeRegisters, if_neg (not_or.mpr ⟨hne, hne⟩), if_neg hne, encodeRegisters,
      List.append_nil, hcode]
    simp [header, runLength]
  rw [hbytes, ← CanData.write_append, writeOne]
  simp only [Option.bind_eq_bind, ← CanData.write_append]

/-! ### Values that can be written -/

theorem value_ok {write : Resolution → Option (List UInt8)}
    (h : ∀ resolution ≠ Resolution.kIgnore, ∃ raw, write resolution = some raw ∧
      raw.length = resolution.size) (resolution : Resolution) : (Value.of write resolution).Ok :=
  fun hne => h resolution hne

theorem writeMapped_ok [Libm K] (value : Double K) (scale : Scale K) :
    ∀ resolution ≠ Resolution.kIgnore, ∃ raw, writeMapped value scale resolution = some raw ∧
      raw.length = resolution.size := by
  intro resolution hne
  cases resolution with
  | kIgnore => exact absurd rfl hne
  | kFloat => exact ⟨_, rfl, length_writeNat _ _⟩
  | _ => exact ⟨_, rfl, length_writeInt _ _⟩

theorem writeIntAs_ok (value : Int) :
    ∀ resolution ≠ Resolution.kIgnore, ∃ raw, writeIntAs (K := K) value resolution = some raw ∧
      raw.length = resolution.size := by
  intro resolution hne
  cases resolution with
  | kIgnore => exact absurd rfl hne
  | kFloat => exact ⟨_, rfl, length_writeNat _ _⟩
  | _ => exact ⟨_, rfl, length_writeInt _ _⟩

theorem ignored_ok (value : Option (List UInt8)) : WriteCombiner.Value.Ok (.kIgnore, value) :=
  fun hne => absurd rfl hne

theorem Command.registers_ok [Libm K] (command : Command K) :
    ∀ value ∈ command.registers.2, value.Ok := by
  have hmapped : ∀ (value : Double K) (scale : Scale K) (resolution : Resolution),
      (Value.of (writeMapped value scale) resolution).Ok :=
    fun value scale => value_ok (writeMapped_ok value scale)
  have hint : ∀ (value : Int) (resolution : Resolution),
      (Value.of (writeIntAs (K := K) value) resolution).Ok :=
    fun value => value_ok (writeIntAs_ok value)
  cases command with
  | auxPwmWrite pwm format =>
    intro value hvalue
    obtain ⟨i, -, rfl⟩ := List.mem_map.mp hvalue
    split
    · exact hmapped _ _ _
    · exact ignored_ok none
  | stop => exact List.forall_mem_nil _
  | brake => exact List.forall_mem_nil _
  | empty => exact List.forall_mem_nil _
  | gpioRead format1 format2 => exact List.forall_mem_nil _
  | schemaVersionQuery => exact List.forall_mem_nil _
  | position command format =>
    simp only [registers, PositionMode.values, List.forall_mem_cons]
    exact ⟨hmapped _ _ _, hmapped _ _ _, hmapped _ _ _, hmapped _ _ _, hmapped _ _ _, hmapped _ _ _,
      hmapped _ _ _, hmapped _ _ _, hmapped _ _ _, hmapped _ _ _, hmapped _ _ _, hmapped _ _ _,
      hmapped _ _ _, hint _ _, List.forall_mem_nil _⟩
  | vfoc command format =>
    simp only [registers, vfocValues, List.forall_mem_cons]
    exact ⟨hmapped _ _ _, hmapped _ _ _, ignored_ok _, ignored_ok _, ignored_ok _, ignored_ok _,
      hmapped _ _ _, List.forall_mem_nil _⟩
  | current command format =>
    simp only [registers, currentValues, List.forall_mem_cons]
    exact ⟨hmapped _ _ _, hmapped _ _ _, List.forall_mem_nil _⟩
  | stayWithin command format =>
    simp only [registers, StayWithinMode.values, List.forall_mem_cons]
    exact ⟨hmapped _ _ _, hmapped _ _ _, hmapped _ _ _, hmapped _ _ _, hmapped _ _ _, hmapped _ _ _,
      hmapped _ _ _, hmapped _ _ _, hint _ _, List.forall_mem_nil _⟩
  | zeroVelocity kdScale format =>
    simp only [registers, List.forall_mem_cons]
    exact ⟨hmapped _ _ _, List.forall_mem_nil _⟩
  | gpioWrite aux1 aux2 format1 format2 =>
    simp only [registers, gpioValues, List.forall_mem_cons]
    exact ⟨hint _ _, hint _ _, List.forall_mem_nil _⟩
  | outputNearest target =>
    simp only [registers, List.forall_mem_cons]
    exact ⟨hmapped _ _ _, List.forall_mem_nil _⟩
  | outputExact target =>
    simp only [registers, List.forall_mem_cons]
    exact ⟨hmapped _ _ _, List.forall_mem_nil _⟩
  | requireReindex =>
    simp only [registers, List.forall_mem_cons]
    exact ⟨hint _ _, List.forall_mem_nil _⟩
  | recapturePositionVelocity =>
    simp only [registers, List.forall_mem_cons]
    exact ⟨hint _ _, List.forall_mem_nil _⟩
  | clockTrim trim =>
    simp only [registers, List.forall_mem_cons]
    exact ⟨hint _ _, List.forall_mem_nil _⟩

namespace Command

variable [Libm K]

theorem makeWrites_eq (frame : CanData) (command : Command K) :
    makeWrites frame command = frame.write (writeBlocks command.blocks) := by
  have hok := command.registers_ok
  -- A mode and registers through the combiner.
  have hboth : ∀ (mode : Mode) (start : Nat) (values : List Value), (∀ v ∈ values, v.Ok) →
      ((writeMode frame mode).bind fun frame => combine frame start values) =
        frame.write (writeBlocks [(Register.kMode, [(.kInt8, [mode.code])]),
          (start, values.map Value.cell)]) := by
    intro mode start values hvalues
    simp only [combine_eq hvalues, writeMode_eq, CanData.write_append, writeBlocks,
      List.flatMap_cons, List.flatMap_nil, List.append_nil]
  have hone : ∀ resolution : Resolution, resolution ≠ .kIgnore → _ :=
    fun _ hne => writeOne_eq frame hne
  cases command with
  | stop =>
    rw [makeWrites, writeMode_eq]
    rfl
  | brake =>
    rw [makeWrites, writeMode_eq]
    rfl
  | position command format => exact hboth _ _ _ hok
  | vfoc command format => exact hboth _ _ _ hok
  | current command format => exact hboth _ _ _ hok
  | stayWithin command format => exact hboth _ _ _ hok
  | zeroVelocity kdScale format =>
    rw [makeWrites]
    by_cases hignore : format = .kIgnore
    · subst hignore
      simp only [ne_eq, not_true_eq_false, if_false, Option.bind_eq_bind, Option.bind_fun_some]
      rw [writeMode_eq]
      rfl
    · simp only [ne_eq, hignore, not_false_eq_true, if_true]
      exact hboth _ _ _ hok
  | gpioWrite aux1 aux2 format1 format2 =>
    exact (combine_eq hok frame _).trans (congrArg frame.write (List.append_nil _).symm)
  | outputNearest target =>
    exact (hone .kFloat (by decide) _ _).trans (congrArg frame.write (List.append_nil _).symm)
  | outputExact target =>
    exact (hone .kFloat (by decide) _ _).trans (congrArg frame.write (List.append_nil _).symm)
  | requireReindex =>
    exact (hone .kInt8 (by decide) _ _).trans (congrArg frame.write (List.append_nil _).symm)
  | recapturePositionVelocity =>
    exact (hone .kInt8 (by decide) _ _).trans (congrArg frame.write (List.append_nil _).symm)
  | clockTrim trim =>
    exact (hone .kInt32 (by decide) _ _).trans (congrArg frame.write (List.append_nil _).symm)
  | auxPwmWrite pwm format =>
    exact (combine_eq hok frame _).trans (congrArg frame.write (List.append_nil _).symm)
  | empty => exact (CanData.write_nil frame).symm
  | gpioRead format1 format2 => exact (CanData.write_nil frame).symm
  | schemaVersionQuery => exact (CanData.write_nil frame).symm

/-- **Every `Make` writes the blocks of its command and what it reads**, or ends in `abort` for want
of room, and returns the length of the answer. -/
theorem make_eq (frame : CanData) (command : Command K) :
    make frame command =
      (frame.write (writeBlocks command.blocks ++
        command.readRuns.flatMap (Run.header 0x10))).map fun frame =>
          (UInt8.ofNat (command.readRuns.map Run.replyLength).sum, frame) := by
  have hblock : ∀ block : Nat × List Resolution, Query.makeBlock frame block =
      (frame.write ((runs .kIgnore block.1 block.2).flatMap (Run.header 0x10))).map fun frame =>
        (UInt8.ofNat ((runs .kIgnore block.1 block.2).map Run.replyLength).sum, frame) := by
    intro block
    rw [Query.makeBlock_eq, readHeaders, writeCombiner_runs]
  have hwrites : ((makeWrites frame command).map fun frame => ((0 : UInt8), frame)) =
      (frame.write (writeBlocks command.blocks ++ [])).map fun frame => (UInt8.ofNat 0, frame) := by
    rw [makeWrites_eq, List.append_nil]
    rfl
  cases command with
  | gpioRead format1 format2 => exact hblock _
  | schemaVersionQuery => exact hblock _
  | _ => exact hwrites

theorem registers_length (command : Command K) :
    command.registers.1 + command.registers.2.length ≤ 1000 ∧ command.registers.2.length ≤ 14 := by
  cases command with
  | auxPwmWrite pwm format => simp [registers, AuxPwmWrite.values, Register.kAux1Pwm1]
  | _ => exact ⟨Nat.le_of_ble_eq_true rfl, Nat.le_of_ble_eq_true rfl⟩

theorem blocks_ok (command : Command K) :
    ∀ block ∈ command.blocks, MultiplexParser.Block block.1 block.2 := by
  have hok := command.registers_ok
  obtain ⟨hregister, hlength⟩ := command.registers_length
  have hregisters : MultiplexParser.Block command.registers.1
      (command.registers.2.map Value.cell) := by
    refine ⟨?_, by rw [List.length_map]; omega, by rw [List.length_map]; omega⟩
    intro cell hcell hne
    obtain ⟨value, hvalue, rfl⟩ := List.mem_map.mp hcell
    obtain ⟨raw, hraw, hsize⟩ := hok value hvalue hne
    rw [Value.cell, hraw]
    exact hsize
  have hmode : ∀ mode : Mode, MultiplexParser.Block Register.kMode [(.kInt8, [mode.code])] := by
    intro mode
    refine ⟨?_, by simp, by simp [Register.kMode]⟩
    intro cell hcell _
    rw [List.mem_singleton.mp hcell]
    rfl
  intro block hblock
  rw [blocks, List.mem_append, List.mem_singleton] at hblock
  rcases hblock with hblock | rfl
  · split at hblock
    · rw [List.mem_singleton.mp hblock]
      exact hmode _
    · cases hblock
  · exact hregisters

/-- The mode that a command sets, as it is written. -/
def modeRaw (command : Command K) : List MultiplexParser.Raw :=
  match command.mode with
  | some mode => [⟨Register.kMode, .kInt8, [mode.code]⟩]
  | none => []

theorem listedBlocks_blocks (command : Command K) :
    MultiplexParser.listedBlocks command.blocks = command.modeRaw ++
      listed command.registers.1 (command.registers.2.map Value.cell) := by
  rw [MultiplexParser.listedBlocks, blocks, List.flatMap_append, List.flatMap_singleton, modeRaw]
  cases command.mode <;> rfl

omit [LinearOrder K] [FloorRing K] [Libm K] in
theorem readRuns_ok (command : Command K) : ∀ run ∈ command.readRuns, run.Ok := by
  have hruns : ∀ (register : Nat) (resolutions : List Resolution), register ≤ 0x102 →
      resolutions.length ≤ 2 → ∀ run ∈ runs .kIgnore register resolutions, run.Ok := by
    intro register resolutions hregister hlength run hrun
    obtain ⟨hne, hpos, -, hbound, hcount⟩ := runs_mem hrun
    have hfilter := List.length_filter_le (fun r : Resolution => decide (r ≠ .kIgnore)) resolutions
    exact ⟨hne, ⟨hpos, by omega⟩, by omega⟩
  cases command with
  | gpioRead format1 format2 => exact hruns _ _ (by decide) (Nat.le_refl 2)
  | schemaVersionQuery => exact hruns _ _ (by decide) (by decide)
  | _ => exact List.forall_mem_nil _

/-- The frame of a command and the size that its `Make` returns. -/
theorem make_eq_some {command : Command K} {size : UInt8} {frame : CanData}
    (h : make CanData.empty command = some (size, frame)) :
    frame.data = writeBlocks command.blocks ++ command.readRuns.flatMap (Run.header 0x10) ∧
      size = UInt8.ofNat (command.readRuns.map Run.replyLength).sum := by
  rw [make_eq] at h
  obtain ⟨frame', hwrite, hpair⟩ := Option.map_eq_some_iff.mp h
  obtain ⟨rfl, rfl⟩ := Prod.mk.inj hpair
  rw [CanData.write_eq_some] at hwrite
  exact ⟨hwrite, rfl⟩

/-- **A device reads back what was commanded**: the mode, and each register that is not ignored with
the value that went in, then the reads of the command and those of the query behind it. -/
theorem accesses_frame_make {command : Command K} {size : UInt8} {frame : CanData}
    (h : make CanData.empty command = some (size, frame)) {l : List Run}
    (hl : ∀ run ∈ l, run.Ok) (padding : Nat) :
    accesses (frame.data ++ (l.flatMap (Run.header 0x10) ++ List.replicate padding kNop)) =
      (command.modeRaw ++
        listed command.registers.1 (command.registers.2.map Value.cell)).map Access.write ++
        (command.readRuns ++ l).map Access.read := by
  have hruns : ∀ run ∈ command.readRuns ++ l, run.Ok :=
    List.forall_mem_append.mpr ⟨command.readRuns_ok, hl⟩
  have haccesses := accesses_frame command.blocks_ok hruns padding
  rw [List.flatMap_append, List.append_assoc] at haccesses
  rw [(make_eq_some h).1, List.append_assoc, haccesses, listedBlocks_blocks]

end Command

end Moteus

import RobotFramework.Lib.Binary32
import RobotFramework.Lib.Bytes
import RobotFramework.Moteus.Multiplex

/-!
# `mjbots/moteus/moteus_multiplex.h`: values in a frame

A value goes into a frame at one of four resolutions. The three integer ones count multiples of a
scale that the kind of the value fixes: what is too large for them saturates, what is no number
becomes the least integer of the width, which is kept free for it. The fourth one is a `float`.
-/

namespace Moteus

open Cxx

/-! ## Frames -/

/-- `CanData`, with the bytes up to `size`. -/
structure CanData where
  data : List UInt8
  size_le : data.length ≤ 64

namespace CanData

def empty : CanData := ⟨[], by decide⟩

/-- `WriteCanData::Write`. A frame that has no room is an `abort`. -/
def write (frame : CanData) (bytes : List UInt8) : Option CanData :=
  if h : (frame.data ++ bytes).length ≤ 64 then some ⟨frame.data ++ bytes, h⟩ else none

@[simp] theorem write_nil (frame : CanData) : frame.write [] = some frame := by
  obtain ⟨data, h⟩ := frame
  simp [write, h]

theorem write_eq_some {frame frame' : CanData} {bytes : List UInt8} :
    frame.write bytes = some frame' ↔ frame'.data = frame.data ++ bytes := by
  obtain ⟨data', h'⟩ := frame'
  unfold write
  split
  · rw [Option.some_inj, CanData.mk.injEq, eq_comm]
  · rename_i h
    constructor
    · intro hnone
      cases hnone
    · intro heq
      simp only at heq
      exact absurd (heq ▸ h') h

theorem write_eq_none {frame : CanData} {bytes : List UInt8} :
    frame.write bytes = none ↔ 64 < frame.data.length + bytes.length := by
  unfold write
  split
  · rename_i h
    rw [List.length_append] at h
    exact iff_of_false (by simp) (by omega)
  · rename_i h
    rw [List.length_append] at h
    exact iff_of_true rfl (by omega)

/-- Two writes are one: there is room for both or an `abort` on the way. -/
theorem write_append (frame : CanData) (bytes bytes' : List UInt8) :
    ((frame.write bytes).bind fun frame => frame.write bytes') = frame.write (bytes ++ bytes') := by
  cases hfirst : frame.write bytes with
  | none =>
    symm
    rw [write_eq_none] at hfirst
    rw [Option.bind_none, write_eq_none, List.length_append]
    omega
  | some frame' =>
    rw [write_eq_some] at hfirst
    rw [Option.bind_some]
    cases hsecond : frame'.write bytes' with
    | none =>
      symm
      rw [write_eq_none, hfirst, List.length_append] at hsecond
      rw [write_eq_none, List.length_append]
      omega
    | some frame'' =>
      symm
      rw [write_eq_some, hfirst, List.append_assoc] at hsecond
      rw [write_eq_some, hsecond]

end CanData

/-! ## Scales -/

/-- `ResolutionSize` -/
def Resolution.size : Resolution → Nat
  | kInt8 => 1
  | kInt16 => 2
  | kInt32 => 4
  | kFloat => 4
  | kIgnore => 1

/-- What one step of each of the integer resolutions stands for. -/
structure Scale (K : Type) where
  int8 : K
  int16 : K
  int32 : K

/-- Scales as they are written down. -/
def Scale.literal {K : Type} [Libm K] (int8 int16 int32 : K) : Scale K :=
  ⟨Libm.round int8, Libm.round int16, Libm.round int32⟩

/-- The kinds of values, as `ReadConcrete` takes them. -/
inductive Concrete where
  | kInt
  | kPosition
  | kVelocity
  | kTorque
  | kPwm
  | kVoltage
  | kTemperature
  | kTime
  | kCurrent
  | kTheta
  | kPower
  | kAcceleration
deriving DecidableEq

section

variable {K : Type} [Field K] [Libm K]

/-- `kMappingValues` -/
def kMappingValues : Concrete → Scale K
  | .kInt => .literal 1.0 1.0 1.0
  | .kPosition => .literal 0.01 0.0001 0.00001
  | .kVelocity => .literal 0.1 0.00025 0.00001
  | .kTorque => .literal 0.5 0.01 0.001
  | .kPwm => .literal (1.0 / 127.0) (1.0 / 32767.0) (1.0 / 2147483647.0)
  | .kVoltage => .literal 0.5 0.1 0.001
  | .kTemperature => .literal 1.0 0.1 0.001
  | .kTime => .literal 0.01 0.001 0.000001
  | .kCurrent => .literal 1.0 0.1 0.001
  | .kTheta =>
    .literal (Libm.round (1.0 / 127.0) * Libm.pi) (Libm.round (1.0 / 32767.0) * Libm.pi)
      (Libm.round (1.0 / 2147483647.0) * Libm.pi)
  | .kPower => .literal 10.0 0.05 0.0001
  | .kAcceleration => .literal 0.05 0.001 0.00001

/-! ## Reading -/

/-- `Nanify`: the least integer of the width stands for NaN. -/
def nanify (max value : Int) : Double K := if value = -max - 1 then .nan else .num value

/-- The product with a scale, which is positive. -/
def Double.scaled : Double K → K → Double K
  | .num x, scale => .num (Libm.round (x * scale))
  | .negZero, _ => .negZero
  | .nan negative, _ => .nan negative
  | .inf negative, _ => .inf negative

/-- `ReadMapped` of the bytes of one value. There is no reading what is ignored (`abort`). -/
def readMapped (scale : Scale K) : Resolution → List UInt8 → Option (Double K)
  | .kInt8, raw => some (Double.scaled (nanify 127 (readInt raw)) scale.int8)
  | .kInt16, raw => some (Double.scaled (nanify 32767 (readInt raw)) scale.int16)
  | .kInt32, raw => some (Double.scaled (nanify 2147483647 (readInt raw)) scale.int32)
  | .kFloat, raw => some (Binary32.decode (readNat raw))
  | .kIgnore, _ => none

/-- `ReadConcrete` of the bytes of one value. -/
def readConcrete (res : Resolution) (concrete : Concrete) (raw : List UInt8) :
    Option (Double K) :=
  readMapped (kMappingValues concrete) res raw

theorem readMapped_isSome {scale : Scale K} {res : Resolution} (h : res ≠ .kIgnore)
    (raw : List UInt8) : ∃ x, readMapped scale res raw = some x := by
  cases res with
  | kIgnore => exact absurd rfl h
  | _ => exact ⟨_, rfl⟩

/-! ## Writing -/

variable [LinearOrder K] [FloorRing K]

/-- `Saturate` -/
def saturate (max : Int) (value : Double K) (scale : K) : Int :=
  match value.value? with
  | some x =>
    let scaled := Libm.round (x / scale)
    if scaled < -max then -max else if max < scaled then max else Double.truncate scaled
  | none => -max - 1

/-- `WriteMapped`, as the bytes it writes. There is no writing what is ignored (`abort`). -/
def writeMapped (value : Double K) (scale : Scale K) : Resolution → Option (List UInt8)
  | .kInt8 => some (writeInt 1 (saturate 127 value scale.int8))
  | .kInt16 => some (writeInt 2 (saturate 32767 value scale.int16))
  | .kInt32 => some (writeInt 4 (saturate 2147483647 value scale.int32))
  | .kFloat => some (writeNat 4 (Binary32.encode value))
  | .kIgnore => none

def writePosition (value : Double K) : Resolution → Option (List UInt8) :=
  writeMapped value (.literal 0.01 0.0001 0.00001)

def writeVelocity (value : Double K) : Resolution → Option (List UInt8) :=
  writeMapped value (.literal 0.1 0.00025 0.00001)

def writeAccel (value : Double K) : Resolution → Option (List UInt8) :=
  writeMapped value (.literal 0.05 0.001 0.00001)

def writeTorque (value : Double K) : Resolution → Option (List UInt8) :=
  writeMapped value (.literal 0.5 0.01 0.001)

def writePwm (value : Double K) : Resolution → Option (List UInt8) :=
  writeMapped value (.literal (1.0 / 127.0) (1.0 / 32767.0) (1.0 / 2147483647.0))

def writeVoltage (value : Double K) : Resolution → Option (List UInt8) :=
  writeMapped value (.literal 0.5 0.1 0.001)

def writeTime (value : Double K) : Resolution → Option (List UInt8) :=
  writeMapped value (.literal 0.01 0.001 0.000001)

def writeCurrent (value : Double K) : Resolution → Option (List UInt8) :=
  writeMapped value (.literal 1.0 0.1 0.001)

/-- `WriteInt` of an `int32_t`. -/
def writeIntAs (value : Int) : Resolution → Option (List UInt8)
  | .kInt8 => some (writeInt 1 (Max.max (-127) (min 127 value)))
  | .kInt16 => some (writeInt 2 (Max.max (-32767) (min 32767 value)))
  | .kInt32 => some (writeInt 4 value)
  | .kFloat => some (writeNat 4 (Binary32.encode (.num (value : K))))
  | .kIgnore => none

end

end Moteus

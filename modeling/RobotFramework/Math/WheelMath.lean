import Mathlib.Algebra.Order.Field.Basic
import Mathlib.Data.Fin.VecNotation
import RobotFramework.Lib.Double

/-!
# `Math/wheel_math.cpp`: inverse kinematics and the speed limits

`calculate` turns the commanded velocity of the robot into the velocities of its four wheels. The
mode decides what happens to a command beyond the limits: SAFE (0) stops all wheels, CAPPED (1)
scales the whole command down, UNSAFE (anything else) lets it pass.

The four rows of the kinematics differ only in the drive angle and the distance of the wheel, so
they are one definition (`wheelRow`). Note that the source exchanges the two linear components
before it applies the rows: the row multiplies `velocity_y` by the sine and `velocity_x` by the
cosine.
-/

namespace RobotFramework

open Cxx

section Constants

variable (K : Type) [Field K] [Libm K]

/-! ## Constants of the robot -/

def WHEEL_1 : K × K := (63.6 / 1000.0, 36.87 / 1000.0)
def WHEEL_2 : K × K := (52.14 / 1000.0, -52.14 / 1000.0)
def WHEEL_3 : K × K := (-52.14 / 1000.0, -52.14 / 1000.0)
def WHEEL_4 : K × K := (-63.6 / 1000.0, 36.87 / 1000.0)

def W1_ANG : K := 30
def W2_ANG : K := -45
def W3_ANG : K := -130
def W4_ANG : K := 150

def W1_RAD : K := W1_ANG K * (Libm.pi / 180.0)
def W2_RAD : K := W2_ANG K * (Libm.pi / 180.0)
def W3_RAD : K := W3_ANG K * (Libm.pi / 180.0)
def W4_RAD : K := W4_ANG K * (Libm.pi / 180.0)

def WHEEL_RADIUS : K := 33.5 / 1000.0

end Constants

variable {K : Type}

/-- The velocity limits of `Safety.yaml`. -/
structure VelocityLimits (K : Type) where
  xLimit : K
  yLimit : K
  wLimit : K

/-- `class Wheel_math`: limits, mode and wheel distances. -/
structure WheelMath (K : Type) extends VelocityLimits K where
  mode : Int
  wheelDist1 : K
  wheelDist2 : K
  wheelDist3 : K
  wheelDist4 : K

namespace WheelMath

def initalizeMath [Field K] (config : Option (VelocityLimits K)) : VelocityLimits K :=
  config.getD { xLimit := 0.5, yLimit := 0.5, wLimit := 0.1 }

/-- `Wheel_math::Wheel_math` followed by `setMode`. -/
def new [Field K] [Libm K] (config : Option (VelocityLimits K)) (baseMode : Int) : WheelMath K :=
  { initalizeMath config with
    mode := baseMode
    wheelDist1 := Libm.hypot (WHEEL_1 K).1 (WHEEL_1 K).2
    wheelDist2 := Libm.hypot (WHEEL_2 K).1 (WHEEL_2 K).2
    wheelDist3 := Libm.hypot (WHEEL_3 K).1 (WHEEL_3 K).2
    wheelDist4 := Libm.hypot (WHEEL_4 K).1 (WHEEL_4 K).2 }

def stopVel [Zero K] : Fin 4 → K := fun _ => 0

section Limits

variable [Field K] [LinearOrder K]

/-- A component beyond its limit lowers the scale. -/
def cap (limit velocity scale : K) : K :=
  if |velocity| > limit then min scale (limit / |velocity|) else scale

def scale (wm : WheelMath K) (velocityX velocityY velocityW : K) : K :=
  let scale := 1
  let scale := cap wm.xLimit velocityX scale
  let scale := cap wm.yLimit velocityY scale
  cap wm.wLimit velocityW scale

def Within (wm : WheelMath K) (velocityX velocityY velocityW : K) : Prop :=
  |velocityX| ≤ wm.xLimit ∧ |velocityY| ≤ wm.yLimit ∧ |velocityW| ≤ wm.wLimit

@[simp] theorem scale_of_within {wm : WheelMath K} {velocityX velocityY velocityW : K}
    (h : wm.Within velocityX velocityY velocityW) :
    wm.scale velocityX velocityY velocityW = 1 := by
  obtain ⟨hx, hy, hw⟩ := h
  simp [scale, cap, not_lt.mpr hx, not_lt.mpr hy, not_lt.mpr hw]

end Limits

/-! ## The rows -/

variable [Field K] [Libm K]

/-- One row of the omni wheel kinematics, for a wheel driving at `angle` at distance `dist`. -/
def wheelRow (angle dist vx vy w : K) : K :=
  (vx * Libm.sin angle + vy * Libm.cos angle + w * dist) / WHEEL_RADIUS K

def wheelRad (K : Type) [Field K] [Libm K] : Fin 4 → K :=
  ![W1_RAD K, W2_RAD K, W3_RAD K, W4_RAD K]

def wheelDist (wm : WheelMath K) : Fin 4 → K :=
  ![wm.wheelDist1, wm.wheelDist2, wm.wheelDist3, wm.wheelDist4]

/-- The wheel velocities of a motion that passed the limit check. -/
def kinematics (wm : WheelMath K) (velocityX velocityY velocityW : K) : Fin 4 → K :=
  let vy := velocityX
  let vx := velocityY
  ![wheelRow (W1_RAD K) wm.wheelDist1 vx vy velocityW,
    wheelRow (W2_RAD K) wm.wheelDist2 vx vy velocityW,
    wheelRow (W3_RAD K) wm.wheelDist3 vx vy velocityW,
    wheelRow (W4_RAD K) wm.wheelDist4 vx vy velocityW]

/-- Every wheel turns by its own row. -/
theorem kinematics_apply (wm : WheelMath K) (velocityX velocityY velocityW : K) (i : Fin 4) :
    wm.kinematics velocityX velocityY velocityW i =
      wheelRow (wheelRad K i) (wm.wheelDist i) velocityY velocityX velocityW :=
  match i with
  | 0 | 1 | 2 | 3 => rfl

/-! ## `calculate` -/

variable [LinearOrder K]

def calculate (wm : WheelMath K) (velocityX velocityY velocityW : K) : Fin 4 → K :=
  if wm.mode = 0 then
    -- Safe mode, stops movement
    if |velocityX| > wm.xLimit then stopVel
    else if |velocityY| > wm.yLimit then stopVel
    else if |velocityW| > wm.wLimit then stopVel
    else wm.kinematics velocityX velocityY velocityW
  else if wm.mode = 1 then
    -- Capped mode, scales down movement if values exceed
    let scale := wm.scale velocityX velocityY velocityW
    wm.kinematics (velocityX * scale) (velocityY * scale) (velocityW * scale)
  else wm.kinematics velocityX velocityY velocityW

/-- Within the limits the modes agree. -/
theorem calculate_of_within {wm : WheelMath K} {velocityX velocityY velocityW : K}
    (h : wm.Within velocityX velocityY velocityW) :
    wm.calculate velocityX velocityY velocityW = wm.kinematics velocityX velocityY velocityW := by
  obtain ⟨hx, hy, hw⟩ := h
  unfold calculate
  split
  · simp [not_lt.mpr hx, not_lt.mpr hy, not_lt.mpr hw]
  · split
    · simp [scale_of_within ⟨hx, hy, hw⟩]
    · rfl

/-- In UNSAFE mode every command passes. -/
theorem calculate_of_uncapped {wm : WheelMath K} (h₀ : wm.mode ≠ 0) (h₁ : wm.mode ≠ 1)
    (velocityX velocityY velocityW : K) :
    wm.calculate velocityX velocityY velocityW = wm.kinematics velocityX velocityY velocityW := by
  unfold calculate
  rw [if_neg h₀, if_neg h₁]

end WheelMath

end RobotFramework

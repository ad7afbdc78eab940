import Mathlib.Analysis.SpecialFunctions.Trigonometric.Basic
import Mathlib.Tactic.NormNum
import RobotFramework.Math.WheelMath

/-!
# The wheels over the reals

What holds of `calculate` when its arithmetic is exact. The two limiting modes keep every wheel
within one bound (`abs_calculate_le`), by different means: SAFE mode lets nothing beyond the limits
pass, CAPPED mode scales it down by a factor that no component can undo (`within_scale`).
-/

namespace RobotFramework

open Cxx

/-- Real functions and exact numbers; the conversion to `int` saturates, as that of an ARM processor
does. -/
noncomputable instance : Libm ℝ where
  pi := Real.pi
  sin := Real.sin
  cos := Real.cos
  hypot x y := √(x ^ 2 + y ^ 2)
  round x := x
  castInt
    | .num x => if x < 0 then -2147483648 else 2147483647
    | .inf negative => if negative then -2147483648 else 2147483647
    | _ => 0

theorem WHEEL_RADIUS_pos : 0 < WHEEL_RADIUS ℝ := by
  unfold WHEEL_RADIUS
  norm_num

namespace WheelMath

theorem wheelDist_pos (config : Option (VelocityLimits ℝ)) (mode : Int) (i : Fin 4) :
    0 < (new config mode).wheelDist i := by
  have hypot_pos : ∀ x y : ℝ, x ≠ 0 → 0 < Libm.hypot x y := fun x y hx =>
    Real.sqrt_pos.mpr (by positivity)
  match i with
  | 0 => exact hypot_pos _ _ (by norm_num [WHEEL_1])
  | 1 => exact hypot_pos _ _ (by norm_num [WHEEL_2])
  | 2 => exact hypot_pos _ _ (by norm_num [WHEEL_3])
  | 3 => exact hypot_pos _ _ (by norm_num [WHEEL_4])

/-! ## The bound -/

/-- What a wheel can be asked for by a motion within the limits. -/
noncomputable def bound (wm : WheelMath ℝ) (i : Fin 4) : ℝ :=
  (wm.xLimit * |Real.cos (wheelRad ℝ i)| + wm.yLimit * |Real.sin (wheelRad ℝ i)| +
    wm.wLimit * wm.wheelDist i) / WHEEL_RADIUS ℝ

/-- A motion within the limits keeps every wheel within the bound. -/
theorem abs_kinematics_le {wm : WheelMath ℝ} {velocityX velocityY velocityW : ℝ}
    (h : wm.Within velocityX velocityY velocityW) {i : Fin 4} (hd : 0 ≤ wm.wheelDist i) :
    |wm.kinematics velocityX velocityY velocityW i| ≤ wm.bound i := by
  obtain ⟨hx, hy, hw⟩ := h
  have hr := WHEEL_RADIUS_pos
  rw [kinematics_apply, wheelRow, bound, abs_div, abs_of_pos hr]
  refine div_le_div_of_nonneg_right ?_ hr.le
  calc |velocityY * Libm.sin (wheelRad ℝ i) + velocityX * Libm.cos (wheelRad ℝ i) +
          velocityW * wm.wheelDist i|
      ≤ |velocityY * Libm.sin (wheelRad ℝ i)| + |velocityX * Libm.cos (wheelRad ℝ i)| +
          |velocityW * wm.wheelDist i| := abs_add_three _ _ _
    _ = |velocityY| * |Real.sin (wheelRad ℝ i)| + |velocityX| * |Real.cos (wheelRad ℝ i)| +
          |velocityW| * wm.wheelDist i := by
        rw [abs_mul, abs_mul, abs_mul, abs_of_nonneg hd]
        rfl
    _ ≤ wm.yLimit * |Real.sin (wheelRad ℝ i)| + wm.xLimit * |Real.cos (wheelRad ℝ i)| +
          wm.wLimit * wm.wheelDist i := by gcongr
    _ = wm.xLimit * |Real.cos (wheelRad ℝ i)| + wm.yLimit * |Real.sin (wheelRad ℝ i)| +
          wm.wLimit * wm.wheelDist i := by ring

/-! ## CAPPED mode -/

theorem cap_le (limit velocity scale : ℝ) : cap limit velocity scale ≤ scale := by
  unfold cap
  split
  · exact min_le_left _ _
  · exact le_rfl

theorem cap_nonneg {limit scale : ℝ} (hlimit : 0 ≤ limit) (hscale : 0 ≤ scale) (velocity : ℝ) :
    0 ≤ cap limit velocity scale := by
  unfold cap
  split
  · exact le_min hscale (by positivity)
  · exact hscale

theorem abs_mul_cap_le {limit scale : ℝ} (hlimit : 0 ≤ limit) (hscale : scale ≤ 1) (velocity : ℝ) :
    |velocity| * cap limit velocity scale ≤ limit := by
  by_cases h : |velocity| > limit
  · have hpos : 0 < |velocity| := hlimit.trans_lt h
    calc |velocity| * cap limit velocity scale
        ≤ |velocity| * (limit / |velocity|) := by
          unfold cap
          rw [if_pos h]
          exact mul_le_mul_of_nonneg_left (min_le_right _ _) hpos.le
      _ = limit := mul_div_cancel₀ _ hpos.ne'
  · calc |velocity| * cap limit velocity scale
        ≤ |velocity| * 1 :=
          mul_le_mul_of_nonneg_left ((cap_le _ _ _).trans hscale) (abs_nonneg _)
      _ ≤ limit := by rw [mul_one]; exact not_lt.mp h

/-- **A scaled motion is within the limits**: each component was capped, and the caps behind its own
only lowered the scale. -/
theorem within_scale {wm : WheelMath ℝ} (hx : 0 ≤ wm.xLimit) (hy : 0 ≤ wm.yLimit)
    (hw : 0 ≤ wm.wLimit) (velocityX velocityY velocityW : ℝ) :
    let scale := wm.scale velocityX velocityY velocityW
    wm.Within (velocityX * scale) (velocityY * scale) (velocityW * scale) := by
  intro scale
  have hnonneg : 0 ≤ scale :=
    cap_nonneg hw (cap_nonneg hy (cap_nonneg hx zero_le_one _) _) _
  have habs : ∀ v : ℝ, |v * scale| = |v| * scale := fun v => by rw [abs_mul, abs_of_nonneg hnonneg]
  have hcap₁ := cap_le wm.xLimit velocityX 1
  have hcap₂ := (cap_le wm.yLimit velocityY _).trans hcap₁
  refine ⟨?_, ?_, ?_⟩
  · calc |velocityX * scale| = |velocityX| * scale := habs _
      _ ≤ |velocityX| * cap wm.xLimit velocityX 1 :=
          mul_le_mul_of_nonneg_left ((cap_le _ _ _).trans (cap_le _ _ _)) (abs_nonneg _)
      _ ≤ wm.xLimit := abs_mul_cap_le hx le_rfl _
  · calc |velocityY * scale| = |velocityY| * scale := habs _
      _ ≤ |velocityY| * cap wm.yLimit velocityY (cap wm.xLimit velocityX 1) :=
          mul_le_mul_of_nonneg_left (cap_le _ _ _) (abs_nonneg _)
      _ ≤ wm.yLimit := abs_mul_cap_le hy hcap₁ _
  · calc |velocityW * scale| = |velocityW| * scale := habs _
      _ ≤ wm.wLimit := abs_mul_cap_le hw hcap₂ _

/-! ## Both limiting modes -/

theorem bound_nonneg {wm : WheelMath ℝ} (hx : 0 ≤ wm.xLimit) (hy : 0 ≤ wm.yLimit)
    (hw : 0 ≤ wm.wLimit) {i : Fin 4} (hd : 0 ≤ wm.wheelDist i) : 0 ≤ wm.bound i := by
  have hr := WHEEL_RADIUS_pos
  unfold bound
  positivity

/-- **In the limiting modes no command, however large, makes a wheel exceed the bound.** -/
theorem abs_calculate_le {wm : WheelMath ℝ} (hmode : wm.mode = 0 ∨ wm.mode = 1)
    (hx : 0 ≤ wm.xLimit) (hy : 0 ≤ wm.yLimit) (hw : 0 ≤ wm.wLimit) {i : Fin 4}
    (hd : 0 ≤ wm.wheelDist i) (velocityX velocityY velocityW : ℝ) :
    |wm.calculate velocityX velocityY velocityW i| ≤ wm.bound i := by
  have hstop : |stopVel i| ≤ wm.bound i := by
    rw [stopVel, abs_zero]
    exact bound_nonneg hx hy hw hd
  unfold calculate
  rcases hmode with hmode | hmode
  · rw [if_pos hmode]
    by_cases hvx : |velocityX| > wm.xLimit
    · rw [if_pos hvx]
      exact hstop
    by_cases hvy : |velocityY| > wm.yLimit
    · rw [if_neg hvx, if_pos hvy]
      exact hstop
    by_cases hvw : |velocityW| > wm.wLimit
    · rw [if_neg hvx, if_neg hvy, if_pos hvw]
      exact hstop
    rw [if_neg hvx, if_neg hvy, if_neg hvw]
    exact abs_kinematics_le ⟨not_lt.mp hvx, not_lt.mp hvy, not_lt.mp hvw⟩ hd
  · rw [if_neg (by omega), if_pos hmode]
    exact abs_kinematics_le (within_scale hx hy hw _ _ _) hd

end WheelMath

end RobotFramework

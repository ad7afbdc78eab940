import RobotFramework.Math.Capping

/-!
# The mirror image of a command

The robot is built symmetrically: wheels 1 and 4 sit at mirrored positions, and so do wheels 2 and
3. A wheel's mirror image drives at the angle `π` minus its own, which is so for wheels 1 and 4.
Wheel 3 however drives at -130 degrees and not at -135, the mirror image of wheel 2.

`calculate_mirrored_iff`: the image of a command does not drive the wheels as the image of what the
command drives them, except where no linear motion is left.
-/

namespace RobotFramework

open Cxx

namespace WheelMath

/-- Wheel velocities that are each other's image: the mirror exchanges left and right, that is
wheels 1 and 4 and wheels 2 and 3, and reverses the sense in which a wheel turns. -/
def Mirrored (u v : Fin 4 → ℝ) : Prop := ∀ i, u i.rev = -v i

theorem mirrored_iff {u v : Fin 4 → ℝ} :
    Mirrored u v ↔ (u 3 = -v 0 ∧ u 2 = -v 1) ∧ u 0 = -v 3 ∧ u 1 = -v 2 := by
  constructor
  · intro h
    exact ⟨⟨h 0, h 1⟩, h 3, h 2⟩
  · rintro ⟨⟨h₀, h₁⟩, h₃, h₂⟩ i
    fin_cases i
    · exact h₀
    · exact h₁
    · exact h₂
    · exact h₃

/-! ## The wheels -/

theorem WHEEL_4_eq : WHEEL_4 ℝ = (-(WHEEL_1 ℝ).1, (WHEEL_1 ℝ).2) := by
  unfold WHEEL_4 WHEEL_1
  rw [neg_div]

theorem WHEEL_3_eq : WHEEL_3 ℝ = (-(WHEEL_2 ℝ).1, (WHEEL_2 ℝ).2) := by
  unfold WHEEL_3 WHEEL_2
  rw [neg_div]

theorem hypot_neg (x y : ℝ) : Libm.hypot (-x) y = Libm.hypot x y := by
  show √((-x) ^ 2 + y ^ 2) = √(x ^ 2 + y ^ 2)
  rw [neg_sq]

/-- Mirrored positions are at the same distance. -/
theorem wheelDist_mirrored (config : Option (VelocityLimits ℝ)) (mode : Int) :
    (new config mode).wheelDist 3 = (new config mode).wheelDist 0 ∧
      (new config mode).wheelDist 2 = (new config mode).wheelDist 1 := by
  constructor
  · show Libm.hypot (WHEEL_4 ℝ).1 (WHEEL_4 ℝ).2 = Libm.hypot (WHEEL_1 ℝ).1 (WHEEL_1 ℝ).2
    rw [WHEEL_4_eq, hypot_neg]
  · show Libm.hypot (WHEEL_3 ℝ).1 (WHEEL_3 ℝ).2 = Libm.hypot (WHEEL_2 ℝ).1 (WHEEL_2 ℝ).2
    rw [WHEEL_3_eq, hypot_neg]

theorem radians (degrees : ℝ) : degrees * (Real.pi / 180.0) = Real.pi * degrees / 180 := by
  norm_num
  ring

theorem W4_RAD_eq : W4_RAD ℝ = Real.pi - W1_RAD ℝ := by
  have h4 : W4_RAD ℝ = Real.pi * 150 / 180 := radians 150
  have h1 : W1_RAD ℝ = Real.pi * 30 / 180 := radians 30
  rw [h4, h1]
  ring

theorem W2_RAD_eq : W2_RAD ℝ = -(Real.pi * 45 / 180) := by
  have h2 : W2_RAD ℝ = Real.pi * -45 / 180 := radians (-45)
  rw [h2]
  ring

/-- The image of a drive at -50 degrees, and not at the -45 of wheel 2. -/
theorem W3_RAD_eq : W3_RAD ℝ = -(Real.pi - Real.pi * 50 / 180) := by
  have h3 : W3_RAD ℝ = Real.pi * -130 / 180 := radians (-130)
  rw [h3]
  ring

theorem sin_W3_lt : Real.sin (W3_RAD ℝ) < Real.sin (W2_RAD ℝ) := by
  have hpi := Real.pi_pos
  rw [W3_RAD_eq, W2_RAD_eq, Real.sin_neg, Real.sin_neg, Real.sin_pi_sub]
  apply neg_lt_neg
  apply Real.sin_lt_sin_of_lt_of_le_pi_div_two <;> linarith

theorem cos_W3_add_pos : 0 < Real.cos (W3_RAD ℝ) + Real.cos (W2_RAD ℝ) := by
  have hpi := Real.pi_pos
  have hlt : Real.cos (Real.pi * 50 / 180) < Real.cos (Real.pi * 45 / 180) := by
    apply Real.cos_lt_cos_of_nonneg_of_le_pi <;> linarith
  rw [W3_RAD_eq, W2_RAD_eq, Real.cos_neg, Real.cos_neg, Real.cos_pi_sub]
  linarith

/-! ## Rows and their images -/

/-- When two wheels at one distance answer a command and its image as images of each other. -/
theorem row_mirrored_iff (a b dist vx vy w : ℝ) :
    wheelRow b dist vx vy w = -wheelRow a dist (-vx) vy (-w) ↔
      vx * (Real.sin b - Real.sin a) + vy * (Real.cos b + Real.cos a) = 0 := by
  have hr : WHEEL_RADIUS ℝ ≠ 0 := WHEEL_RADIUS_pos.ne'
  have hsum : wheelRow b dist vx vy w + wheelRow a dist (-vx) vy (-w) =
      (vx * (Real.sin b - Real.sin a) + vy * (Real.cos b + Real.cos a)) / WHEEL_RADIUS ℝ := by
    show (vx * Real.sin b + vy * Real.cos b + w * dist) / WHEEL_RADIUS ℝ +
      (-vx * Real.sin a + vy * Real.cos a + -w * dist) / WHEEL_RADIUS ℝ = _
    ring
  rw [eq_neg_iff_add_eq_zero, hsum, div_eq_zero_iff, or_iff_left hr]

/-- Wheels at mirrored angles always do. -/
theorem row_mirrored (a dist vx vy w : ℝ) :
    wheelRow (Real.pi - a) dist vx vy w = -wheelRow a dist (-vx) vy (-w) := by
  rw [row_mirrored_iff, Real.sin_pi_sub, Real.cos_pi_sub]
  ring

/-- The kinematics mirrors just the commands without a linear motion. -/
theorem kinematics_mirrored_iff {wm : WheelMath ℝ} (h₃ : wm.wheelDist 3 = wm.wheelDist 0)
    (h₂ : wm.wheelDist 2 = wm.wheelDist 1) (velocityX velocityY velocityW : ℝ) :
    Mirrored (wm.kinematics velocityX velocityY velocityW)
        (wm.kinematics velocityX (-velocityY) (-velocityW)) ↔ velocityX = 0 ∧ velocityY = 0 := by
  have hfront : ∀ vx w,
      wheelRow (W4_RAD ℝ) (wm.wheelDist 0) vx velocityX w =
          -wheelRow (W1_RAD ℝ) (wm.wheelDist 0) (-vx) velocityX (-w) ∧
        wheelRow (W1_RAD ℝ) (wm.wheelDist 0) vx velocityX w =
          -wheelRow (W4_RAD ℝ) (wm.wheelDist 0) (-vx) velocityX (-w) := by
    intro vx w
    have himage := row_mirrored (W1_RAD ℝ) (wm.wheelDist 0)
    rw [W4_RAD_eq]
    refine ⟨himage _ _ _, ?_⟩
    rw [himage, neg_neg, neg_neg, neg_neg]
  rw [mirrored_iff]
  simp only [kinematics_apply, h₃, h₂]
  show ((wheelRow (W4_RAD ℝ) _ _ _ _ = _ ∧
      wheelRow (W3_RAD ℝ) _ _ _ _ = -wheelRow (W2_RAD ℝ) _ _ _ _) ∧
    wheelRow (W1_RAD ℝ) _ _ _ _ = _ ∧
      wheelRow (W2_RAD ℝ) _ _ _ _ = -wheelRow (W3_RAD ℝ) _ _ _ _) ↔ _
  rw [row_mirrored_iff (W2_RAD ℝ) (W3_RAD ℝ), row_mirrored_iff (W3_RAD ℝ) (W2_RAD ℝ)]
  -- The two wheels in front are mirror images always, so what is left is about those behind.
  have hsin := sin_W3_lt
  have hcos := cos_W3_add_pos
  constructor
  · rintro ⟨⟨-, h⟩, -, h'⟩
    constructor
    · have hx : velocityX * (Real.cos (W3_RAD ℝ) + Real.cos (W2_RAD ℝ)) = 0 := by linarith
      exact (mul_eq_zero.mp hx).resolve_right hcos.ne'
    · have hy : velocityY * (Real.sin (W2_RAD ℝ) - Real.sin (W3_RAD ℝ)) = 0 := by linarith
      exact (mul_eq_zero.mp hy).resolve_right (sub_pos.mpr hsin).ne'
  · rintro ⟨rfl, rfl⟩
    exact ⟨⟨(hfront _ _).1, by ring⟩, (hfront _ _).2, by ring⟩

/-! ## The modes -/

theorem mirrored_smul_iff {s : ℝ} {u v : Fin 4 → ℝ} :
    Mirrored (s • u) (s • v) ↔ s = 0 ∨ Mirrored u v := by
  have hcancel : ∀ a b : ℝ, s * a = -(s * b) ↔ s = 0 ∨ a = -b := by
    intro a b
    rw [← mul_neg, mul_eq_mul_left_iff, or_comm]
  simp only [Mirrored, Pi.smul_apply, smul_eq_mul, hcancel, forall_or_left]

/-- A mode lets as much through of the image as of the command itself. -/
theorem factor_image (wm : WheelMath ℝ) (velocityX velocityY velocityW : ℝ) :
    wm.factor velocityX (-velocityY) (-velocityW) = wm.factor velocityX velocityY velocityW := by
  have hscale : wm.scale velocityX (-velocityY) (-velocityW) =
      wm.scale velocityX velocityY velocityW := by
    simp only [scale, cap, abs_neg]
  by_cases hwithin : wm.Within velocityX velocityY velocityW
  · have himage : wm.Within velocityX (-velocityY) (-velocityW) := by
      simpa only [Within, abs_neg] using hwithin
    rw [factor_of_within hwithin, factor_of_within himage]
  · have himage : ¬ wm.Within velocityX (-velocityY) (-velocityW) := by
      simpa only [Within, abs_neg] using hwithin
    by_cases hsafe : wm.mode = 0
    · rw [factor_of_safe hsafe hwithin, factor_of_safe hsafe himage]
    · by_cases hcapped : wm.mode = 1
      · rw [factor_of_capped hcapped, factor_of_capped hcapped, hscale]
      · rw [factor_of_uncapped hsafe hcapped, factor_of_uncapped hsafe hcapped]

/-- Nothing of a command is let through in SAFE mode when it is beyond a limit, and in CAPPED mode
when it is beyond a limit that leaves nothing of a component. -/
theorem factor_eq_zero_iff {wm : WheelMath ℝ} {velocityX velocityY velocityW : ℝ} :
    wm.factor velocityX velocityY velocityW = 0 ↔
      wm.mode = 0 ∧ exceeded wm.toVelocityLimits velocityX velocityY velocityW ≠ [] ∨
      wm.mode = 1 ∧
        (∃ c ∈ exceeded wm.toVelocityLimits velocityX velocityY velocityW, c.1 / |c.2| = 0) ∧
        ∀ c ∈ exceeded wm.toVelocityLimits velocityX velocityY velocityW, 0 ≤ c.1 / |c.2| := by
  by_cases hsafe : wm.mode = 0
  · have hcapped : wm.mode ≠ 1 := by omega
    by_cases hnil : exceeded wm.toVelocityLimits velocityX velocityY velocityW = []
    · simp [factor, hsafe, hnil]
    · simp [factor, hsafe, hnil]
  · by_cases hcapped : wm.mode = 1
    · rw [factor_of_capped hcapped, scale_eq_zero_iff]
      simp [hcapped]
    · rw [factor_of_uncapped hsafe hcapped]
      simp [hsafe, hcapped]

/-- **When the image of a command drives the wheels as the image of what the command drives them**:
only where no linear motion is left of it, because there is none or because the mode lets none
through. -/
theorem calculate_mirrored_iff (config : Option (VelocityLimits ℝ)) (mode : Int)
    (velocityX velocityY velocityW : ℝ) :
    Mirrored ((new config mode).calculate velocityX velocityY velocityW)
        ((new config mode).calculate velocityX (-velocityY) (-velocityW)) ↔
      velocityX = 0 ∧ velocityY = 0 ∨
      mode = 0 ∧ exceeded (initalizeMath config) velocityX velocityY velocityW ≠ [] ∨
      mode = 1 ∧
        (∃ c ∈ exceeded (initalizeMath config) velocityX velocityY velocityW, c.1 / |c.2| = 0) ∧
        ∀ c ∈ exceeded (initalizeMath config) velocityX velocityY velocityW, 0 ≤ c.1 / |c.2| := by
  obtain ⟨h₃, h₂⟩ := wheelDist_mirrored config mode
  rw [calculate_eq_smul, calculate_eq_smul, factor_image, mirrored_smul_iff,
    kinematics_mirrored_iff h₃ h₂, factor_eq_zero_iff, or_comm]
  exact Iff.rfl

/-- Straight ahead, within the limits: the robot veers. -/
theorem ahead_not_mirrored :
    ¬ Mirrored ((new none 0 : WheelMath ℝ).calculate 0.5 0 0)
      ((new none 0 : WheelMath ℝ).calculate 0.5 (-0) (-0)) := by
  have hwithin : (new none 0 : WheelMath ℝ).Within 0.5 0 0 := by
    show |(0.5 : ℝ)| ≤ 0.5 ∧ |(0 : ℝ)| ≤ 0.5 ∧ |(0 : ℝ)| ≤ 0.1
    norm_num
  obtain ⟨h₃, h₂⟩ := wheelDist_mirrored none 0
  rw [neg_zero, calculate_of_within hwithin]
  have himage := kinematics_mirrored_iff h₃ h₂ 0.5 0 0
  rw [neg_zero] at himage
  rw [himage]
  rintro ⟨hahead, -⟩
  norm_num at hahead

end WheelMath

end RobotFramework

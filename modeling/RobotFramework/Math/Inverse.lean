import Mathlib.LinearAlgebra.Basis.VectorSpace
import RobotFramework.Math.Mirror

/-!
# Forward kinematics

The robot can be told to move in every direction: the kinematics is injective (`ker_kinematicsMap`),
so it has a linear left inverse, which recovers the command from the wheel velocities. Wheels 1 and
4, driving at an angle and at its mirror image, give the forward velocity by their difference; their
sum and wheel 2 give the other two.
-/

namespace RobotFramework

open Cxx

namespace WheelMath

/-- The kinematics as a linear map, from a command to the wheels. -/
noncomputable def kinematicsMap (wm : WheelMath ℝ) : ℝ × ℝ × ℝ →ₗ[ℝ] Fin 4 → ℝ where
  toFun v := wm.kinematics v.1 v.2.1 v.2.2
  map_add' u v := by
    funext i
    simp only [kinematics_apply, wheelRow, Pi.add_apply, Prod.fst_add, Prod.snd_add]
    ring
  map_smul' s v := by
    rw [RingHom.id_apply, ← kinematics_smul]
    simp only [Prod.smul_fst, Prod.smul_snd, smul_eq_mul, mul_comm s]

theorem W1_RAD_eq : W1_RAD ℝ = Real.pi / 6 := by
  have h1 : W1_RAD ℝ = Real.pi * 30 / 180 := radians 30
  rw [h1]
  ring

theorem sin_W2_neg : Real.sin (W2_RAD ℝ) < 0 := by
  have hpi := Real.pi_pos
  rw [W2_RAD_eq, Real.sin_neg, Left.neg_neg_iff]
  apply Real.sin_pos_of_pos_of_lt_pi <;> linarith

/-- A row that does not turn its wheel. -/
theorem wheelRow_eq_zero {angle dist vx vy w : ℝ} (h : wheelRow angle dist vx vy w = 0) :
    vx * Real.sin angle + vy * Real.cos angle + w * dist = 0 :=
  (div_eq_zero_iff.mp h).resolve_right WHEEL_RADIUS_pos.ne'

/-- **Only the zero command leaves all wheels at rest.** -/
theorem eq_zero_of_kinematics {wm : WheelMath ℝ} (h₁ : 0 < wm.wheelDist1) (h₂ : 0 < wm.wheelDist2)
    (h₁₄ : wm.wheelDist1 = wm.wheelDist4) {velocityX velocityY velocityW : ℝ}
    (h : wm.kinematics velocityX velocityY velocityW = 0) :
    velocityX = 0 ∧ velocityY = 0 ∧ velocityW = 0 := by
  have hfirst : velocityY * Real.sin (W1_RAD ℝ) + velocityX * Real.cos (W1_RAD ℝ) +
      velocityW * wm.wheelDist1 = 0 := wheelRow_eq_zero (congrFun h 0)
  have hsecond : velocityY * Real.sin (W2_RAD ℝ) + velocityX * Real.cos (W2_RAD ℝ) +
      velocityW * wm.wheelDist2 = 0 := wheelRow_eq_zero (congrFun h 1)
  have hfourth : velocityY * Real.sin (W4_RAD ℝ) + velocityX * Real.cos (W4_RAD ℝ) +
      velocityW * wm.wheelDist4 = 0 := wheelRow_eq_zero (congrFun h 3)
  rw [W4_RAD_eq, Real.sin_pi_sub, Real.cos_pi_sub, ← h₁₄] at hfourth
  have hcos : 0 < Real.cos (W1_RAD ℝ) := by
    rw [W1_RAD_eq, Real.cos_pi_div_six]
    positivity
  have hsin : Real.sin (W1_RAD ℝ) = 1 / 2 := by rw [W1_RAD_eq, Real.sin_pi_div_six]
  -- The difference of wheels 1 and 4 is the forward velocity alone.
  have hx : velocityX = 0 := by
    have : velocityX * Real.cos (W1_RAD ℝ) = 0 := by linarith
    exact (mul_eq_zero.mp this).resolve_right hcos.ne'
  rw [hx, hsin] at hfirst
  have hy : velocityY = -2 * velocityW * wm.wheelDist1 := by linarith
  have hw : velocityW = 0 := by
    rw [hx, hy] at hsecond
    have hdet : 0 < wm.wheelDist2 - 2 * wm.wheelDist1 * Real.sin (W2_RAD ℝ) := by
      have := mul_pos h₁ (neg_pos.mpr sin_W2_neg)
      linarith
    have hprod :
        velocityW * (wm.wheelDist2 - 2 * wm.wheelDist1 * Real.sin (W2_RAD ℝ)) = 0 := by linarith
    exact (mul_eq_zero.mp hprod).resolve_right hdet.ne'
  exact ⟨hx, by rw [hy, hw]; ring, hw⟩

theorem ker_kinematicsMap {wm : WheelMath ℝ} (h₁ : 0 < wm.wheelDist1) (h₂ : 0 < wm.wheelDist2)
    (h₁₄ : wm.wheelDist1 = wm.wheelDist4) : LinearMap.ker wm.kinematicsMap = ⊥ := by
  rw [LinearMap.ker_eq_bot']
  rintro ⟨velocityX, velocityY, velocityW⟩ h
  obtain ⟨rfl, rfl, rfl⟩ := eq_zero_of_kinematics h₁ h₂ h₁₄ h
  rfl

theorem calculate_of_capped {wm : WheelMath ℝ} (hmode : wm.mode = 1)
    (velocityX velocityY velocityW : ℝ) :
    let scale := wm.scale velocityX velocityY velocityW
    wm.calculate velocityX velocityY velocityW =
      wm.kinematics (velocityX * scale) (velocityY * scale) (velocityW * scale) := by
  rw [calculate, if_neg (by omega), if_pos hmode]

/-- **When all wheels rest**: there is no motion in the command, or the mode lets none through. -/
theorem calculate_eq_zero_iff (config : Option (VelocityLimits ℝ)) (mode : Int)
    (velocityX velocityY velocityW : ℝ) :
    (new config mode).calculate velocityX velocityY velocityW = 0 ↔
      velocityX = 0 ∧ velocityY = 0 ∧ velocityW = 0 ∨
      mode = 0 ∧ exceeded (initalizeMath config) velocityX velocityY velocityW ≠ [] ∨
      mode = 1 ∧
        (∃ c ∈ exceeded (initalizeMath config) velocityX velocityY velocityW, c.1 / |c.2| = 0) ∧
        ∀ c ∈ exceeded (initalizeMath config) velocityX velocityY velocityW, 0 ≤ c.1 / |c.2| := by
  have hkinematics : (new config mode).kinematics velocityX velocityY velocityW = 0 ↔
      velocityX = 0 ∧ velocityY = 0 ∧ velocityW = 0 := by
    constructor
    · exact eq_zero_of_kinematics (wheelDist_pos config mode 0) (wheelDist_pos config mode 1)
        (wheelDist_mirrored config mode).1.symm
    · rintro ⟨rfl, rfl, rfl⟩
      funext i
      simp [kinematics_apply, wheelRow]
  rw [calculate_eq_smul, smul_eq_zero, hkinematics, factor_eq_zero_iff, or_comm]
  exact Iff.rfl

/-- **No degree of freedom is lost.** One linear map recovers every command from its wheel
velocities in UNSAFE mode, where distinct commands are therefore told apart, and every scaled
command in CAPPED mode. Neither wheel 3 nor its distance is needed for that. -/
theorem exists_forward_kinematics (wm : WheelMath ℝ) (h₁ : 0 < wm.wheelDist1)
    (h₂ : 0 < wm.wheelDist2) (h₁₄ : wm.wheelDist1 = wm.wheelDist4) :
    (∃ F : (Fin 4 → ℝ) →ₗ[ℝ] ℝ × ℝ × ℝ,
      (wm.mode ≠ 0 → wm.mode ≠ 1 → ∀ velocityX velocityY velocityW : ℝ,
        F (wm.calculate velocityX velocityY velocityW) = (velocityX, velocityY, velocityW)) ∧
      (wm.mode = 1 → ∀ velocityX velocityY velocityW : ℝ,
        let scale := wm.scale velocityX velocityY velocityW
        F (wm.calculate velocityX velocityY velocityW) =
          (velocityX * scale, velocityY * scale, velocityW * scale))) ∧
    (wm.mode ≠ 0 → wm.mode ≠ 1 → ∀ u v : ℝ × ℝ × ℝ,
      wm.calculate u.1 u.2.1 u.2.2 = wm.calculate v.1 v.2.1 v.2.2 → u = v) ∧
    (wm.mode = 1 → ∀ u v : ℝ × ℝ × ℝ,
      wm.calculate u.1 u.2.1 u.2.2 = wm.calculate v.1 v.2.1 v.2.2 →
        wm.scale u.1 u.2.1 u.2.2 • u = wm.scale v.1 v.2.1 v.2.2 • v) := by
  -- Any left inverse of the kinematics will do; CAPPED mode scales before them.
  obtain ⟨F, hF⟩ := LinearMap.exists_leftInverse_of_injective _ (ker_kinematicsMap h₁ h₂ h₁₄)
  have hinverse : ∀ velocityX velocityY velocityW : ℝ,
      F (wm.kinematics velocityX velocityY velocityW) = (velocityX, velocityY, velocityW) :=
    fun velocityX velocityY velocityW =>
      LinearMap.congr_fun hF (velocityX, velocityY, velocityW)
  have hscaled : ∀ v : ℝ × ℝ × ℝ, wm.mode = 1 →
      F (wm.calculate v.1 v.2.1 v.2.2) = wm.scale v.1 v.2.1 v.2.2 • v := by
    intro v hmode
    rw [calculate_of_capped hmode, hinverse]
    simp only [mul_comm _ (wm.scale _ _ _)]
    rfl
  refine ⟨⟨F, fun hsafe hcapped velocityX velocityY velocityW => ?_,
    fun hmode velocityX velocityY velocityW => ?_⟩, fun hsafe hcapped u v huv => ?_,
    fun hmode u v huv => ?_⟩
  · rw [calculate_of_uncapped hsafe hcapped, hinverse]
  · rw [calculate_of_capped hmode, hinverse]
  · rw [calculate_of_uncapped hsafe hcapped, calculate_of_uncapped hsafe hcapped] at huv
    have := congrArg F huv
    rwa [hinverse, hinverse] at this
  · rw [← hscaled u hmode, ← hscaled v hmode, huv]

/-- The robot as it is built, in UNSAFE mode. -/
theorem exists_forward_kinematics_robot :
    ∃ F : (Fin 4 → ℝ) →ₗ[ℝ] ℝ × ℝ × ℝ, F ((new none 2).calculate 1 2 3) = (1, 2, 3) := by
  obtain ⟨⟨F, hF, -⟩, -⟩ := exists_forward_kinematics (new none 2) (wheelDist_pos none 2 0)
    (wheelDist_pos none 2 1) (wheelDist_mirrored none 2).1.symm
  exact ⟨F, hF (by decide) (by decide) 1 2 3⟩

end WheelMath

end RobotFramework

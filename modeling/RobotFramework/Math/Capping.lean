import RobotFramework.Math.WheelReal

/-!
# What the modes do to a command

Each mode lets a multiple of the command through, and the kinematics is linear, so a mode is the
factor by which it multiplies the wheel velocities (`calculate_eq_smul`): 1 in UNSAFE mode, 0 or 1
in SAFE mode and the scale in CAPPED mode. The scale is the largest factor of a command that is
within the limits (`isGreatest_scale`).
-/

namespace RobotFramework

open Cxx

namespace WheelMath

/-- The components of a command that are beyond their limit, each with the limit. -/
noncomputable def exceeded (limits : VelocityLimits ℝ) (velocityX velocityY velocityW : ℝ) :
    List (ℝ × ℝ) :=
  [(limits.xLimit, velocityX), (limits.yLimit, velocityY), (limits.wLimit, velocityW)].filter
    fun c => |c.2| > c.1

/-- How much of a command the mode lets through. -/
noncomputable def factor (wm : WheelMath ℝ) (velocityX velocityY velocityW : ℝ) : ℝ :=
  if wm.mode = 0 then
    if exceeded wm.toVelocityLimits velocityX velocityY velocityW = [] then 1 else 0
  else if wm.mode = 1 then wm.scale velocityX velocityY velocityW
  else 1

/-! ## Beyond the limits -/

theorem mem_exceeded {limits : VelocityLimits ℝ} {velocityX velocityY velocityW : ℝ} {c : ℝ × ℝ} :
    c ∈ exceeded limits velocityX velocityY velocityW ↔
      (c = (limits.xLimit, velocityX) ∨ c = (limits.yLimit, velocityY) ∨
        c = (limits.wLimit, velocityW)) ∧ |c.2| > c.1 := by
  simp [exceeded]

theorem forall_mem_exceeded {limits : VelocityLimits ℝ} {velocityX velocityY velocityW : ℝ}
    {p : ℝ → ℝ → Prop} :
    (∀ c ∈ exceeded limits velocityX velocityY velocityW, p c.1 c.2) ↔
      (|velocityX| > limits.xLimit → p limits.xLimit velocityX) ∧
      (|velocityY| > limits.yLimit → p limits.yLimit velocityY) ∧
      (|velocityW| > limits.wLimit → p limits.wLimit velocityW) := by
  constructor
  · intro h
    refine ⟨fun hx => h _ (mem_exceeded.mpr ⟨Or.inl rfl, hx⟩),
      fun hy => h _ (mem_exceeded.mpr ⟨Or.inr (Or.inl rfl), hy⟩),
      fun hw => h _ (mem_exceeded.mpr ⟨Or.inr (Or.inr rfl), hw⟩)⟩
  · rintro ⟨hx, hy, hw⟩ c hc
    obtain ⟨rfl | rfl | rfl, hlt⟩ := mem_exceeded.mp hc
    · exact hx hlt
    · exact hy hlt
    · exact hw hlt

theorem exceeded_eq_nil {wm : WheelMath ℝ} {velocityX velocityY velocityW : ℝ} :
    exceeded wm.toVelocityLimits velocityX velocityY velocityW = [] ↔
      wm.Within velocityX velocityY velocityW := by
  rw [List.eq_nil_iff_forall_not_mem]
  simp only [Within, ← not_lt]
  exact forall_mem_exceeded (p := fun _ _ => False)

/-! ## The scale -/

theorem le_cap_iff {limit velocity scale s : ℝ} :
    s ≤ cap limit velocity scale ↔ s ≤ scale ∧ (|velocity| > limit → s ≤ limit / |velocity|) := by
  unfold cap
  by_cases h : |velocity| > limit
  · rw [if_pos h, le_min_iff]
    simp [h]
  · rw [if_neg h]
    simp [h]

theorem lt_cap_iff {limit velocity scale s : ℝ} :
    s < cap limit velocity scale ↔ s < scale ∧ (|velocity| > limit → s < limit / |velocity|) := by
  unfold cap
  by_cases h : |velocity| > limit
  · rw [if_pos h, lt_min_iff]
    simp [h]
  · rw [if_neg h]
    simp [h]

/-- The scale is the smallest of 1 and the ratios of the components beyond their limits. -/
theorem le_scale_iff {wm : WheelMath ℝ} {velocityX velocityY velocityW s : ℝ} :
    s ≤ wm.scale velocityX velocityY velocityW ↔
      s ≤ 1 ∧
        ∀ c ∈ exceeded wm.toVelocityLimits velocityX velocityY velocityW, s ≤ c.1 / |c.2| := by
  rw [forall_mem_exceeded (p := fun limit velocity => s ≤ limit / |velocity|)]
  simp only [scale, le_cap_iff, and_assoc]

theorem lt_scale_iff {wm : WheelMath ℝ} {velocityX velocityY velocityW s : ℝ} :
    s < wm.scale velocityX velocityY velocityW ↔
      s < 1 ∧
        ∀ c ∈ exceeded wm.toVelocityLimits velocityX velocityY velocityW, s < c.1 / |c.2| := by
  rw [forall_mem_exceeded (p := fun limit velocity => s < limit / |velocity|)]
  simp only [scale, lt_cap_iff, and_assoc]

theorem scale_le_one (wm : WheelMath ℝ) (velocityX velocityY velocityW : ℝ) :
    wm.scale velocityX velocityY velocityW ≤ 1 :=
  (le_scale_iff.mp le_rfl).1

theorem scale_nonneg {wm : WheelMath ℝ} (hx : 0 ≤ wm.xLimit) (hy : 0 ≤ wm.yLimit)
    (hw : 0 ≤ wm.wLimit) (velocityX velocityY velocityW : ℝ) :
    0 ≤ wm.scale velocityX velocityY velocityW := by
  apply le_scale_iff.mpr
  refine ⟨zero_le_one, ?_⟩
  intro c hc
  have hlimit : 0 ≤ c.1 := by
    rcases (mem_exceeded.mp hc).1 with rfl | rfl | rfl
    · exact hx
    · exact hy
    · exact hw
  exact div_nonneg hlimit (abs_nonneg _)

/-- **Capping is the tightest scaling**: nothing larger than the scale brings the command within the
limits. -/
theorem isGreatest_scale {wm : WheelMath ℝ} (hx : 0 ≤ wm.xLimit) (hy : 0 ≤ wm.yLimit)
    (hw : 0 ≤ wm.wLimit) (velocityX velocityY velocityW : ℝ) :
    IsGreatest {s | s ∈ Set.Icc 0 1 ∧ wm.Within (s * velocityX) (s * velocityY) (s * velocityW)}
      (wm.scale velocityX velocityY velocityW) := by
  constructor
  · refine ⟨⟨scale_nonneg hx hy hw _ _ _, scale_le_one _ _ _ _⟩, ?_⟩
    have hwithin := within_scale hx hy hw velocityX velocityY velocityW
    simpa only [mul_comm] using hwithin
  · rintro s ⟨⟨hnonneg, hle⟩, hsx, hsy, hsw⟩
    refine le_scale_iff.mpr ⟨hle, ?_⟩
    -- What is beyond its limit is not 0, so that the ratio says how much of it is allowed.
    have hratio : ∀ limit v : ℝ, 0 ≤ limit → |s * v| ≤ limit → |v| > limit → s ≤ limit / |v| := by
      intro limit v hlimit hs hbeyond
      rw [le_div_iff₀ (hlimit.trans_lt hbeyond)]
      rwa [abs_mul, abs_of_nonneg hnonneg] at hs
    rw [forall_mem_exceeded (p := fun limit v => s ≤ limit / |v|)]
    exact ⟨hratio _ _ hx hsx, hratio _ _ hy hsy, hratio _ _ hw hsw⟩

/-- The scale stops the robot only if a component is beyond a limit that leaves nothing of it. -/
theorem scale_eq_zero_iff {wm : WheelMath ℝ} {velocityX velocityY velocityW : ℝ} :
    wm.scale velocityX velocityY velocityW = 0 ↔
      (∃ c ∈ exceeded wm.toVelocityLimits velocityX velocityY velocityW, c.1 / |c.2| = 0) ∧
        ∀ c ∈ exceeded wm.toVelocityLimits velocityX velocityY velocityW, 0 ≤ c.1 / |c.2| := by
  constructor
  · intro h
    have hnonneg := (le_scale_iff.mp h.ge).2
    refine ⟨?_, hnonneg⟩
    by_contra hnone
    have hpos : 0 < wm.scale velocityX velocityY velocityW := by
      refine lt_scale_iff.mpr ⟨zero_lt_one, fun c hc => ?_⟩
      exact lt_of_le_of_ne (hnonneg c hc) fun heq => hnone ⟨c, hc, heq.symm⟩
    exact hpos.ne' h
  · rintro ⟨⟨c, hc, hzero⟩, hnonneg⟩
    apply le_antisymm
    · exact hzero ▸ (le_scale_iff.mp le_rfl).2 c hc
    · exact le_scale_iff.mpr ⟨zero_le_one, hnonneg⟩

/-! ## The modes as factors -/

theorem kinematics_smul (wm : WheelMath ℝ) (velocityX velocityY velocityW s : ℝ) :
    wm.kinematics (velocityX * s) (velocityY * s) (velocityW * s) =
      s • wm.kinematics velocityX velocityY velocityW := by
  funext i
  rw [Pi.smul_apply, kinematics_apply, kinematics_apply, wheelRow, wheelRow, smul_eq_mul]
  ring

theorem factor_of_within {wm : WheelMath ℝ} {velocityX velocityY velocityW : ℝ}
    (h : wm.Within velocityX velocityY velocityW) :
    wm.factor velocityX velocityY velocityW = 1 := by
  rw [factor, if_pos (exceeded_eq_nil.mpr h), scale_of_within h, ite_self, ite_self]

theorem factor_of_safe {wm : WheelMath ℝ} (hmode : wm.mode = 0) {velocityX velocityY velocityW : ℝ}
    (h : ¬ wm.Within velocityX velocityY velocityW) :
    wm.factor velocityX velocityY velocityW = 0 := by
  rw [factor, if_pos hmode, if_neg fun hnil => h (exceeded_eq_nil.mp hnil)]

theorem factor_of_capped {wm : WheelMath ℝ} (hmode : wm.mode = 1)
    (velocityX velocityY velocityW : ℝ) :
    wm.factor velocityX velocityY velocityW = wm.scale velocityX velocityY velocityW := by
  rw [factor, if_neg (by omega), if_pos hmode]

theorem factor_of_uncapped {wm : WheelMath ℝ} (h₀ : wm.mode ≠ 0) (h₁ : wm.mode ≠ 1)
    (velocityX velocityY velocityW : ℝ) : wm.factor velocityX velocityY velocityW = 1 := by
  rw [factor, if_neg h₀, if_neg h₁]

theorem calculate_of_safe {wm : WheelMath ℝ} (hmode : wm.mode = 0)
    {velocityX velocityY velocityW : ℝ} (h : ¬ wm.Within velocityX velocityY velocityW) :
    wm.calculate velocityX velocityY velocityW = 0 := by
  rw [calculate, if_pos hmode]
  by_cases hvx : |velocityX| > wm.xLimit
  · exact if_pos hvx
  by_cases hvy : |velocityY| > wm.yLimit
  · rw [if_neg hvx, if_pos hvy]
    rfl
  by_cases hvw : |velocityW| > wm.wLimit
  · rw [if_neg hvx, if_neg hvy, if_pos hvw]
    rfl
  exact absurd ⟨not_lt.mp hvx, not_lt.mp hvy, not_lt.mp hvw⟩ h

theorem calculate_eq_smul (wm : WheelMath ℝ) (velocityX velocityY velocityW : ℝ) :
    wm.calculate velocityX velocityY velocityW =
      wm.factor velocityX velocityY velocityW • wm.kinematics velocityX velocityY velocityW := by
  by_cases hwithin : wm.Within velocityX velocityY velocityW
  · rw [calculate_of_within hwithin, factor_of_within hwithin, one_smul]
  · by_cases hsafe : wm.mode = 0
    · rw [calculate_of_safe hsafe hwithin, factor_of_safe hsafe hwithin, zero_smul]
    · by_cases hcapped : wm.mode = 1
      · rw [factor_of_capped hcapped, calculate, if_neg hsafe, if_pos hcapped]
        exact kinematics_smul wm _ _ _ _
      · rw [calculate_of_uncapped hsafe hcapped, factor_of_uncapped hsafe hcapped, one_smul]

/-- **The three modes compared.** Within the limits they are one; beyond them SAFE mode stops all
wheels, and CAPPED mode turns them at the largest multiple of UNSAFE mode's velocities that a
command within the limits has. -/
theorem modes_compared (config : Option (VelocityLimits ℝ))
    (hx : 0 ≤ (initalizeMath config).xLimit) (hy : 0 ≤ (initalizeMath config).yLimit)
    (hw : 0 ≤ (initalizeMath config).wLimit) (velocityX velocityY velocityW : ℝ) :
    let wheels := fun mode => (new config mode).calculate velocityX velocityY velocityW
    ((new config 0).Within velocityX velocityY velocityW →
      ∀ mode mode', wheels mode = wheels mode') ∧
    (¬ (new config 0).Within velocityX velocityY velocityW →
      wheels 0 = 0 ∧
      ∃ s, IsGreatest {s | s ∈ Set.Icc 0 1 ∧
          (new config 0).Within (s * velocityX) (s * velocityY) (s * velocityW)} s ∧
        ∀ mode, mode ≠ 0 → mode ≠ 1 → wheels 1 = s • wheels mode) := by
  intro wheels
  have hkinematics : ∀ mode, (new config mode).kinematics velocityX velocityY velocityW =
      (new config 0).kinematics velocityX velocityY velocityW := fun _ => rfl
  constructor
  · intro hwithin mode mode'
    have hall : ∀ mode, wheels mode = (new config 0).kinematics velocityX velocityY velocityW := by
      intro mode
      have hwithin' : (new config mode).Within velocityX velocityY velocityW := hwithin
      exact calculate_of_within hwithin'
    rw [hall, hall]
  · intro hbeyond
    -- Of the factors that keep the command within the limits, CAPPED mode takes the greatest.
    refine ⟨calculate_of_safe rfl hbeyond,
      (new config 1).scale velocityX velocityY velocityW, ?_, ?_⟩
    · have hx' : 0 ≤ (new config 1).xLimit := hx
      have hy' : 0 ≤ (new config 1).yLimit := hy
      have hw' : 0 ≤ (new config 1).wLimit := hw
      exact isGreatest_scale hx' hy' hw' velocityX velocityY velocityW
    · intro mode hsafe hcapped
      have hcapped' : wheels 1 = (new config 1).factor velocityX velocityY velocityW •
          (new config 1).kinematics velocityX velocityY velocityW := calculate_eq_smul _ _ _ _
      have hunsafe : wheels mode = (new config mode).kinematics velocityX velocityY velocityW :=
        calculate_of_uncapped hsafe hcapped _ _ _
      rw [hcapped', factor_of_capped rfl, hunsafe, hkinematics 1, hkinematics mode]

/-- Twice the fallback limit of the forward velocity. -/
theorem modes_compared_fallback :
    (new none 0 : WheelMath ℝ).calculate 1 0 0 = 0 ∧
      ∃ s, IsGreatest {s | s ∈ Set.Icc 0 1 ∧
          (new none 0 : WheelMath ℝ).Within (s * 1) (s * 0) (s * 0)} s ∧
        (new none 1 : WheelMath ℝ).calculate 1 0 0 =
          s • (new none 7 : WheelMath ℝ).calculate 1 0 0 := by
  have hx : (0 : ℝ) ≤ 0.5 := by norm_num
  have hw : (0 : ℝ) ≤ 0.1 := by norm_num
  have hbeyond : ¬ (new none 0 : WheelMath ℝ).Within 1 0 0 := by
    rintro ⟨hle, -, -⟩
    have hle : |(1 : ℝ)| ≤ 0.5 := hle
    norm_num at hle
  obtain ⟨hstop, s, hgreatest, hcapped⟩ := (modes_compared none hx hx hw 1 0 0).2 hbeyond
  exact ⟨hstop, s, hgreatest, hcapped 7 (by decide) (by decide)⟩

end WheelMath

end RobotFramework

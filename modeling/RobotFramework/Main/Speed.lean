import RobotFramework.Main.Wheels

/-!
# Speeds

What the velocities that reach the motors come to, over the reals. In the limiting modes **every
velocity ever sent is within the bound of its wheel**, whatever was polled
(`World.abs_velocity_le_bound`). And what is sent to a motor for a command is the angular velocity
of its wheel in radians per second, where the motor takes revolutions (`World.rim_speed_iff`).
-/

namespace RobotFramework.Main

open Cxx Moteus Reactive

/-! ## Every velocity comes from `calculate` -/

section

variable {K : Type} [Field K] [LinearOrder K] [FloorRing K] [Libm K]

/-- The velocity map is empty, zero, or made from some velocities that went through `calculate`. -/
def Calculated (wheel : WheelMath K) (velocityMap : Std.TreeMap Int K) : Prop :=
  velocityMap = ∅ ∨ ∃ v : Fin 4 → K, velocityMap = velocityMapOf v ∧
    ((v = fun _ => 0) ∨ ∃ x y ω, v = wheel.calculate x y ω)

omit [FloorRing K] in
theorem Calculated.observe {wheel : WheelMath K} {l : Link K} (h : Calculated wheel l.velocityMap)
    (o : Effect K) : Calculated wheel (l.observe wheel o).velocityMap := by
  cases o with
  | recv msg =>
    simp only [Link.observe, Link.poll]
    split
    · split
      · exact Or.inr ⟨_, rfl, Or.inl rfl⟩
      · exact h
    · split
      · exact Or.inr ⟨_, rfl, Or.inl rfl⟩
      · exact Or.inr ⟨_, rfl, Or.inr ⟨_, _, _, rfl⟩⟩
  | command byte ok =>
    simp only [Link.observe]
    split <;> exact h
  | _ => exact h

/-- **Whatever is polled, the velocity map is a calculated one.** -/
theorem World.calculated (w : World K) (es : List (Event K)) :
    Calculated w.config.wheel (w.after es).velocityMap := by
  have hrun := List.foldlRecOn (motive := fun l => Calculated w.config.wheel l.velocityMap)
    ((process w.config).trace w.start es) (Link.observe w.config.wheel) (b := w.start.link)
    (Or.inl rfl) fun l hl o _ => hl.observe o
  rw [← link_run] at hrun
  exact hrun

theorem velocity_of_step {cfg : Config K} {s : State K} {e : Event K} {id : Int} {f : CanFdFrame K}
    {command : PositionCommand K} (hmem : (id, f) ∈ frames (process cfg s e).2)
    (hf : f.command = .position command) :
    command = { position := .nan, velocity := s.velocityMap[id]?.getD 0 } := by
  obtain ⟨input, rfl, hpc⟩ := motor_of_commandsVelocity hmem ⟨command, hf⟩
  by_cases hdue : s.cycles cfg
  · rw [frames_motor input hpc hdue, Telemetry.commandFrames] at hmem
    obtain ⟨q, -, heq⟩ := List.mem_map.mp hmem
    obtain ⟨rfl, rfl⟩ := Prod.mk.inj heq
    exact (ModeCommand.position.inj hf).symm
  · rw [process_motor _ _ hpc, motor_idle hdue] at hmem
    cases hmem

/-- Every velocity in a history was read off the velocity map of some state on the way. -/
theorem World.velocity_of_frame {w : World K} {es : List (Event K)} {id : Int} {f : CanFdFrame K}
    {command : PositionCommand K} (hmem : (id, f) ∈ frames (w.history es))
    (hf : f.command = .position command) :
    ∃ pre, command =
      { position := .nan, velocity := (w.after pre).velocityMap[id]?.getD 0 } := by
  rcases List.mem_append.mp (mem_frames.mp hmem) with ho | ho
  · have horigin := World.origin_of_mem_startup ho
    rw [origin_of_commandsVelocity ⟨command, hf⟩] at horigin
    cases horigin
  · obtain ⟨pre, e, post, -, ho⟩ := Machine.mem_trace.mp ho
    exact ⟨pre, velocity_of_step (mem_frames.mpr ho) hf⟩

end

/-! ## The bound of the limiting modes -/

/-- **Bounded wheel speed.** In SAFE and CAPPED mode, with limits that are no less than zero, no
velocity sent to a wheel in any run exceeds the bound of the wheel, and every other controller is
sent zero. -/
theorem World.abs_velocity_le_bound (w : World ℝ) (es : List (Event ℝ))
    (hmode : w.mode = 0 ∨ w.mode = 1) (hx : 0 ≤ w.config.wheel.xLimit)
    (hy : 0 ≤ w.config.wheel.yLimit) (hw : 0 ≤ w.config.wheel.wLimit) {id : Int} {f : CanFdFrame ℝ}
    {command : PositionCommand ℝ} (hmem : (id, f) ∈ frames (w.history es))
    (hf : f.command = .position command) :
    (∀ i : Fin 4, id = i + 1 → |command.velocity| ≤ w.config.wheel.bound i) ∧
      (¬ (1 ≤ id ∧ id ≤ 4) → command.velocity = 0) := by
  obtain ⟨pre, rfl⟩ := World.velocity_of_frame hmem hf
  have hdist : ∀ i, 0 ≤ w.config.wheel.wheelDist i := fun i =>
    (WheelMath.wheelDist_pos w.velocityLimits w.mode i).le
  have hbound : ∀ i, 0 ≤ w.config.wheel.bound i := fun i =>
    WheelMath.bound_nonneg hx hy hw (hdist i)
  rcases World.calculated w pre with hmap | ⟨v, hmap, hv⟩
  · rw [hmap]
    refine ⟨fun i _ => ?_, fun _ => ?_⟩
    · simpa using hbound i
    · simp
  · rw [hmap, velocityMapOf_getD]
    refine ⟨?_, fun hid => by unfold wheelAt; rw [dif_neg hid]⟩
    rintro i rfl
    rw [wheelAt_succ]
    rcases hv with rfl | ⟨x, y, ω, rfl⟩
    · simpa using hbound i
    · exact WheelMath.abs_calculate_le hmode hx hy hw (hdist i) x y ω

/-- The bench polls a rotation and stands before its motor cycle. -/
def rotation (K : Type) [Field K] : List (Event K) := arrival "1 0 0 0.1 0 0 0" :: (turn K).take 3

theorem polls_rotation :
    polls ((World.bench ℝ).history (rotation ℝ)) = [] ++ ["1 0 0 0.1 0 0 0".toList] := rfl

noncomputable def rotationFrame : CanFdFrame ℝ :=
  (Controller.new { id := 1, bus := 1 }).makePosition
    { position := .nan
      velocity := ((World.bench ℝ).after (rotation ℝ)).velocityMap[(1 : Int)]?.getD 0 }

theorem mem_frames_rotation :
    (1, rotationFrame) ∈ frames (process (World.bench ℝ).config
      ((World.bench ℝ).after (rotation ℝ)) (.step (.bench ℝ))).2 := List.Mem.head _

theorem World.abs_velocity_le_bound_bench :
    |((World.bench ℝ).after (rotation ℝ)).velocityMap[(1 : Int)]?.getD 0| ≤
      (World.bench ℝ).config.wheel.bound 0 := by
  have hmem : (1, rotationFrame) ∈
      frames ((World.bench ℝ).history (rotation ℝ ++ [.step (.bench ℝ)])) := by
    rw [World.history_snoc, frames_append]
    exact List.mem_append_right _ mem_frames_rotation
  obtain ⟨hx, hy, hw⟩ := within_rotation
  exact ((World.bench ℝ).abs_velocity_le_bound _ (Or.inl rfl) ((abs_nonneg _).trans hx)
    ((abs_nonneg _).trans hy) ((abs_nonneg _).trans hw) hmem rfl).1 0 rfl

/-! ## The unit of the motors -/

/-- The speed that the kinematics requires of the rim of a wheel, in meters per second. -/
noncomputable def requiredSpeed (wheel : WheelMath ℝ) (cmd : CmdDecoder ℝ) (i : Fin 4) : ℝ :=
  cmd.velocityY * Real.sin (WheelMath.wheelRad ℝ i) +
    cmd.velocityX * Real.cos (WheelMath.wheelRad ℝ i) + cmd.velocityW * wheel.wheelDist i

/-- The speed of the rim of a wheel that makes so many revolutions per second. -/
noncomputable def rimSpeed (velocity : ℝ) : ℝ := 2 * Real.pi * WHEEL_RADIUS ℝ * velocity

/-- What `calculate` makes of a command that it lets pass is the angular velocity of the wheel. -/
theorem calculate_eq_requiredSpeed {wheel : WheelMath ℝ} {cmd : CmdDecoder ℝ}
    (hpass : wheel.Within cmd.velocityX cmd.velocityY cmd.velocityW ∨
      wheel.mode ≠ 0 ∧ wheel.mode ≠ 1) (i : Fin 4) :
    wheel.calculate cmd.velocityX cmd.velocityY cmd.velocityW i =
      requiredSpeed wheel cmd i / WHEEL_RADIUS ℝ := by
  have hkin : wheel.calculate cmd.velocityX cmd.velocityY cmd.velocityW =
      wheel.kinematics cmd.velocityX cmd.velocityY cmd.velocityW := by
    rcases hpass with h | ⟨h₀, h₁⟩
    · exact WheelMath.calculate_of_within h
    · exact WheelMath.calculate_of_uncapped h₀ h₁ _ _ _
  rw [hkin, WheelMath.kinematics_apply]
  rfl

/-- The rim moves `2π` times as fast as it should. -/
theorem rimSpeed_angular (v : ℝ) : rimSpeed (v / WHEEL_RADIUS ℝ) = 2 * Real.pi * v := by
  have hr := WHEEL_RADIUS_pos.ne'
  unfold rimSpeed
  field_simp

/-- **The rim speed is the required one for a wheel at rest only.** Behind a command that passes the
limit check, the velocity a motor cycle sends to a wheel makes its rim move at the required speed
exactly when that speed is zero: the motor takes the radians per second of the wheel for
revolutions. -/
theorem World.rim_speed_iff (w : World ℝ) (es : List (Event ℝ)) (input : Input ℝ)
    (earlier : List Text) (msg : Text) (cmd : CmdDecoder ℝ)
    (hpolls : polls (w.history es) = earlier ++ [msg]) (hcmd : command? msg = some cmd)
    (hpass : w.config.wheel.Within cmd.velocityX cmd.velocityY cmd.velocityW ∨
      w.mode ≠ 0 ∧ w.mode ≠ 1)
    (i : Fin 4) (f : CanFdFrame ℝ) (command : PositionCommand ℝ)
    (hmem : ((i : Int) + 1, f) ∈ frames (process w.config (w.after es) (.step input)).2)
    (hf : f.command = .position command) :
    rimSpeed command.velocity = requiredSpeed w.config.wheel cmd i ↔
      requiredSpeed w.config.wheel cmd i = 0 := by
  have hmap := World.velocityMap_of_command hpolls hcmd
  rw [velocity_of_step hmem hf, hmap, wheelMap, velocityMapOf_getD, wheelAt_succ,
    calculate_eq_requiredSpeed hpass, rimSpeed_angular]
  constructor
  · intro h
    -- `2π v = v` leaves no other `v` than zero.
    have hfactor : (2 * Real.pi - 1) * requiredSpeed w.config.wheel cmd i = 0 := by
      rw [sub_mul, one_mul, h, sub_self]
    refine (mul_eq_zero.mp hfactor).resolve_left ?_
    have := Real.two_le_pi
    intro hpi
    linarith
  · intro h
    rw [h, mul_zero]

theorem World.rim_speed_iff_bench :
    let cmd : CmdDecoder ℝ := ⟨1, 0, 0, 1 / 10, false, false, 0⟩
    rimSpeed (((World.bench ℝ).after (rotation ℝ)).velocityMap[(1 : Int)]?.getD 0) =
        requiredSpeed (World.bench ℝ).config.wheel cmd 0 ↔
      requiredSpeed (World.bench ℝ).config.wheel cmd 0 = 0 :=
  (World.bench ℝ).rim_speed_iff (rotation ℝ) (.bench ℝ) [] _ _ polls_rotation command?_rotation
    (Or.inl within_rotation) 0 rotationFrame _ mem_frames_rotation rfl

/-- **Wheel 1 of the bench turns too fast**: its rim moves at another speed than the rotation
requires. -/
theorem World.rim_too_fast :
    let cmd : CmdDecoder ℝ := ⟨1, 0, 0, 1 / 10, false, false, 0⟩
    let velocity := ((World.bench ℝ).after (rotation ℝ)).velocityMap[(1 : Int)]?.getD 0
    polls ((World.bench ℝ).history (rotation ℝ)) = ["1 0 0 0.1 0 0 0".toList] ∧
      command? "1 0 0 0.1 0 0 0".toList = some cmd ∧
      (World.bench ℝ).config.wheel.Within cmd.velocityX cmd.velocityY cmd.velocityW ∧
      (1, (Controller.new { id := 1, bus := 1 }).makePosition { position := .nan, velocity }) ∈
        frames (process (World.bench ℝ).config ((World.bench ℝ).after (rotation ℝ))
          (.step (.bench ℝ))).2 ∧
      rimSpeed velocity ≠ requiredSpeed (World.bench ℝ).config.wheel cmd 0 := by
  intro cmd velocity
  refine ⟨polls_rotation, command?_rotation, within_rotation, mem_frames_rotation, ?_⟩
  have hmap := World.velocityMap_of_command polls_rotation command?_rotation
  have hsent : velocity = requiredSpeed (World.bench ℝ).config.wheel cmd 0 / WHEEL_RADIUS ℝ := by
    show (State.velocityMap _)[(1 : Int)]?.getD 0 = _
    rw [hmap, wheelMap, velocityMapOf_getD]
    exact (wheelAt_succ _ 0).trans (calculate_eq_requiredSpeed (Or.inl within_rotation) 0)
  have hrequired : requiredSpeed (World.bench ℝ).config.wheel cmd 0 =
      1 / 10 * (World.bench ℝ).config.wheel.wheelDist 0 := by
    simp [requiredSpeed, cmd]
  have hpos : 0 < 1 / 10 * (World.bench ℝ).config.wheel.wheelDist 0 :=
    mul_pos (by norm_num) (WheelMath.wheelDist_pos _ _ 0)
  have := Real.two_le_pi
  rw [hsent, rimSpeed_angular, hrequired]
  nlinarith

end RobotFramework.Main

import RobotFramework.Main.Exit

/-!
# Overcurrent

The way of a current from a motor to `emergency_stop`: the frame asks for some registers, the motor
answers these, the parser leaves the other fields NaN, and `main` compares. The frame does not ask
for the q-axis current. So **no current, however large, ever stops the robot**
(`World.emergencyStop_eq_false`).
-/

namespace RobotFramework.Main

open Cxx Moteus Reactive

variable {K : Type}

/-! ## What the motors measure -/

/-- The registers of every motor, by the ID of its controller, at one moment. -/
abbrev Motors (K : Type) := Int → Registers K

/-- The bus brings back nothing but the motors' answers to the frames they were sent. It may lose
answers, repeat them and change their order. -/
def Answers [Zero K] (motors : Motors K) (controllers : Controllers) (bus : MotorBus K) : Prop :=
  ∀ velocityMap : Std.TreeMap Int K,
    ∀ reply ∈ bus ((Telemetry.commandFrames controllers velocityMap).map (·.2)),
      ∃ p ∈ Telemetry.commandFrames controllers velocityMap, reply = answer (motors p.1) p.2

def Excessive [Field K] [LinearOrder K] (limit : K) (current : Double K) : Prop :=
  ∃ q, current = .num q ∧ limit < |q|

/-- A controller with the default options does not ask for the q-axis current. -/
theorem qCurrent_not_requested (registers : Registers K) (id bus : Int)
    (command : PositionCommand K) :
    ∀ item ∈ (answer registers ((Controller.new { id, bus }).makePosition command)).items,
      item.register ≠ Register.kQCurrent := by
  intro item hitem
  have hquery : ((Controller.new { id, bus }).makePosition command).query = Query.make {} := rfl
  simp only [answer, hquery, Query.requested_default, List.map_cons, List.map_nil, List.mem_cons,
    List.not_mem_nil, or_false] at hitem
  rcases hitem with rfl | rfl | rfl | rfl | rfl | rfl | rfl <;>
    exact Nat.ne_of_beq_eq_false rfl

section

variable [Field K] [LinearOrder K] [FloorRing K] [Libm K]

/-- **No answer to a frame of a cycle reports a current.** -/
theorem servoStatus_current {servoMap : Std.TreeMap Int Int} {cfg : Config K}
    (hcfg : cfg.controllers = Telemetry.controllers servoMap) {motors : Motors K} {input : Input K}
    (hbus : Answers motors cfg.controllers input.bus) {s : State K} {p : Int × MotorTelemetry K}
    (hp : p ∈ s.servoStatus cfg input) : p.2.current = .nan := by
  obtain ⟨reply, hreply, -, hparse⟩ := Telemetry.servoData_mem hp
  split at hreply
  · cases hreply
  · -- A reply answers one of the frames of the cycle, and none of these asks for the current.
    obtain ⟨q, hq, rfl⟩ := hbus s.velocityMap reply hreply
    obtain ⟨r, hr, rfl⟩ := List.mem_map.mp hq
    rw [hcfg] at hr
    obtain ⟨bus, hc⟩ := Telemetry.controllers_mem hr
    rw [← hparse, hc, Telemetry.parseReply_current]
    exact Query.parse_qCurrent_eq_nan (qCurrent_not_requested (motors r.1) r.1 bus _)

theorem not_overcurrent {servoMap : Std.TreeMap Int Int} {cfg : Config K}
    (hcfg : cfg.controllers = Telemetry.controllers servoMap) {motors : Motors K} {input : Input K}
    (hbus : Answers motors cfg.controllers input.bus) (s : State K) :
    ¬ s.Overcurrent cfg input := by
  rintro ⟨-, -, p, hp, hover⟩
  rw [overcurrent, servoStatus_current hcfg hbus hp, Double.nan_gt] at hover
  cases hover

end

/-! ## Runs -/

namespace World

variable [Field K] [LinearOrder K] [FloorRing K] [Libm K]

def Takes (es pre : List (Event K)) (input : Input K) : Prop :=
  ∃ post, es = pre ++ .step input :: post

/-- In every step of the run the bus brings the answers of the motors, `motors n` being what they
measure after `n` events. -/
def Honest (w : World K) (motors : Nat → Motors K) (es : List (Event K)) : Prop :=
  ∀ pre input, Takes es pre input →
    Answers (motors pre.length) w.config.controllers input.bus

/-- After these events comes a motor cycle in which some motor measures an excessive current. -/
def Overloaded (w : World K) (motors : Nat → Motors K) (pre : List (Event K)) : Prop :=
  (w.after pre).pc = .motor ∧ (w.after pre).cycles w.config ∧
    ∃ p ∈ w.config.controllers.toList,
      Excessive w.config.currentLimit (motors pre.length p.1 Register.kQCurrent)

/-- The step behind these events raises `emergency_stop`, and in the rest of the run the process
sends no velocity any more and does not end without stopping every controller. -/
structure Protects (w : World K) (pre : List (Event K)) (input : Input K) (post : List (Event K)) :
    Prop where
  raised : (w.after (pre ++ [.step input])).emergencyStop = true
  no_cycle : ∀ p ∈ frames ((process w.config).trace (w.after (pre ++ [.step input])) post),
    ¬ commandsVelocity p.2
  stopped : (w.after (pre ++ .step input :: post)).pc = .exited →
    ∀ p ∈ w.config.controllers.toList,
      p.2.makeStop ∈ framesOf p.1
        ((process w.config).trace (w.after (pre ++ [.step input])) post)

/-- **`emergency_stop` is never raised**, whatever the motors measure. -/
theorem emergencyStop_eq_false {w : World K} {motors : Nat → Motors K} {es : List (Event K)}
    (hbus : w.Honest motors es) : (w.after es).emergencyStop = false := by
  induction es using List.reverseRecOn with
  | nil => rfl
  | append_singleton es e ih =>
    have hes : w.Honest motors es := by
      rintro pre input ⟨post, rfl⟩
      exact hbus pre input ⟨post ++ [e], by rw [List.append_assoc, List.cons_append]⟩
    rw [after_snoc]
    cases e with
    | step input =>
      have hnot := not_overcurrent rfl (hbus es input ⟨[], rfl⟩) (w.after es)
      refine Bool.eq_false_iff.mpr fun hraised => ?_
      rcases next_emergencyStop.mp hraised with h | h
      · rw [ih hes] at h
        cases h
      · exact hnot h
    | arrive d => exact ih hes
    | signal => exact ih hes
    | observe obs => exact ih hes

/-- **No step of a run protects the robot**, for none raises `emergency_stop`. -/
theorem not_protects {w : World K} {motors : Nat → Motors K} {pre post : List (Event K)}
    {input : Input K} (hbus : w.Honest motors (pre ++ .step input :: post)) :
    ¬ w.Protects pre input post := by
  have hpre : w.Honest motors (pre ++ [.step input]) := by
    rintro pre' input' ⟨post', heq⟩
    apply hbus
    refine ⟨post' ++ post, ?_⟩
    rw [← List.singleton_append, ← List.append_assoc, heq, List.append_assoc, List.cons_append]
  intro hprotects
  have hraised := hprotects.raised
  rw [emergencyStop_eq_false hpre] at hraised
  cases hraised

/-- **Overcurrent protection works on the runs that do not need it**: no overload of a run leads to
an emergency stop, so every overload does exactly when there is none. -/
theorem overcurrent_protection_iff (w : World K) (motors : Nat → Motors K) (es : List (Event K))
    (hbus : w.Honest motors es) :
    (∀ pre input post, es = pre ++ .step input :: post → w.Overloaded motors pre →
        ¬ w.Protects pre input post) ∧
      ((∀ pre input post, es = pre ++ .step input :: post → w.Overloaded motors pre →
          w.Protects pre input post) ↔
        ∀ pre input post, es = pre ++ .step input :: post → ¬ w.Overloaded motors pre) := by
  refine ⟨?_, ?_, ?_⟩
  · rintro pre input post rfl -
    exact not_protects hbus
  · rintro hprotects pre input post rfl hover
    exact not_protects hbus (hprotects pre input post rfl hover)
  · intro hnone pre input post hes hover
    exact absurd hover (hnone pre input post hes)

/-! ### An overload on the bench -/

def benchMotors : Motors ℝ := fun _ register =>
  if register = Register.kQCurrent then .num 10 else .num 0

/-- A step on the bench in which every motor answers what it is asked. -/
noncomputable def benchInput : Input ℝ :=
  { Input.bench ℝ with
      bus := fun frames => frames.map fun f => answer (benchMotors f.destination) f }

theorem answers_bench (controllers : Controllers) :
    Answers benchMotors controllers benchInput.bus := by
  intro velocityMap reply hreply
  obtain ⟨f, hf, rfl⟩ := List.mem_map.mp hreply
  obtain ⟨p, hp, rfl⟩ := List.mem_map.mp hf
  exact ⟨p, hp, rfl⟩

theorem honest_bench (n : Nat) :
    (bench ℝ).Honest (fun _ => benchMotors) (List.replicate n (.step benchInput)) := by
  rintro pre input ⟨post, heq⟩
  have hmem : Event.step input ∈ List.replicate n (Event.step benchInput) := by
    rw [heq]
    exact List.mem_append_right _ List.mem_cons_self
  obtain rfl := Event.step.inj (List.eq_of_mem_replicate hmem)
  exact answers_bench _

/-- The fourth step of the bench is a motor cycle in which ten ampere are above the limit of five.
-/
theorem overloaded_bench :
    (bench ℝ).Overloaded (fun _ => benchMotors) (List.replicate 3 (.step benchInput)) := by
  refine ⟨rfl, rfl, (1, _), List.Mem.head _, 10, rfl, ?_⟩
  have hlimit : (bench ℝ).config.currentLimit = 5 := rfl
  rw [hlimit]
  norm_num

theorem overcurrent_protection_iff_bench :
    ¬ (bench ℝ).Protects (List.replicate 3 (.step benchInput)) benchInput
      (List.replicate 8 (.step benchInput)) := by
  apply ((bench ℝ).overcurrent_protection_iff (fun _ => benchMotors) _
    (honest_bench 12)).1 _ _ _ rfl
  exact overloaded_bench

/-- **Ten ampere on every motor, and the robot drives on**: the cycle in which they are measured
raises nothing, and the next one commands velocities again. -/
theorem overload_drives_on :
    (bench ℝ).Honest (fun _ => benchMotors) (List.replicate 12 (.step benchInput)) ∧
      (bench ℝ).Overloaded (fun _ => benchMotors) (List.replicate 3 (.step benchInput)) ∧
      ¬ (bench ℝ).Protects (List.replicate 3 (.step benchInput)) benchInput
        (List.replicate 8 (.step benchInput)) ∧
      ∃ p ∈ frames (process (bench ℝ).config
        ((bench ℝ).after (List.replicate 9 (.step benchInput))) (.step benchInput)).2,
        commandsVelocity p.2 := by
  refine ⟨honest_bench 12, overloaded_bench, ?_, (1, _), List.Mem.head _, _, rfl⟩
  exact not_protects (honest_bench 12)

end World

end RobotFramework.Main

import RobotFramework.Arduino.Firmware
import RobotFramework.Lib.RateLimit

/-!
# How often the kicker fires

`loop()` measures the time since the last kick with `millis()`, which starts over every 2 ^ 32
milliseconds (50 days). The firmware is run here against true time: each turn has the time at which
it is taken, and every pulse the time of its turn. Its pulses are the grants of a rate limiter
(`pulses_eq_grants`), so that the solenoid has its rest after each of them, however long the robot
has been on and however often the clock has started over.
-/

namespace RobotFramework

open Reactive RateLimit

namespace Firmware

/-- A turn of `loop()`: its true time in milliseconds since the board was started, and the bytes
that have come in since the turn before. -/
structure Turn where
  time : Nat
  bytes : List Char

def timed : Machine State Turn (Nat × Output) := fun s turn =>
  let (s', out) := loop (deliver s turn.bytes) (clock 32 turn.time)
  (s', out.map fun o => (turn.time, o))

def pulseOf : Nat × Output → Option Nat
  | (time, .digitalWrite level) => if level = kickerActiveLevel then some time else none
  | _ => none

/-- The true times at which the solenoid is energised. -/
def pulses (s : State) (es : List Turn) : List Nat := (timed.trace s es).filterMap pulseOf

/-- The byte that a turn takes off the line. -/
def reads (s : State) (turn : Turn) : Option Char := (deliver s turn.bytes).serial.head?

/-- The true times at which a `K` is read. -/
def kicks : State → List Turn → List Nat
  | _, [] => []
  | s, turn :: es =>
    (if reads s turn = some 'K' then [turn.time] else []) ++ kicks (timed s turn).1 es

/-! ## One turn -/

/-- What a turn can be to the kicker: nothing, or a kick that comes too early, or a pulse. -/
theorem timed_cases (s : State) (turn : Turn) :
    (timed s turn).1.perviousTime = s.perviousTime ∧ (timed s turn).2.filterMap pulseOf = [] ∧
        (reads s turn = some 'K' → clock 32 turn.time - s.perviousTime < kickerTimeout) ∨
      reads s turn = some 'K' ∧ ¬ clock 32 turn.time - s.perviousTime < kickerTimeout ∧
        (timed s turn).1.perviousTime = clock 32 turn.time ∧
        (timed s turn).2.filterMap pulseOf = [turn.time] := by
  unfold timed loop reads
  cases hserial : (deliver s turn.bytes).serial with
  | nil => exact Or.inl ⟨rfl, rfl, by simp⟩
  | cons byte serial =>
    by_cases hK : byte = 'K'
    · subst hK
      -- Within the timeout a 'K' is only reported; later it fires, and the timeout starts anew.
      by_cases hsoon : clock 32 turn.time - s.perviousTime < kickerTimeout
      · left
        have hbyte : onByte { deliver s turn.bytes with serial } (clock 32 turn.time) 'K' =
            ({ deliver s turn.bytes with serial },
              [.print (clock 32 turn.time - s.perviousTime)]) := by
          rw [onByte, if_pos rfl, if_pos]
          · rfl
          · exact hsoon
        simp only [hbyte]
        exact ⟨rfl, rfl, fun _ => hsoon⟩
      · right
        have hbyte : onByte { deliver s turn.bytes with serial } (clock 32 turn.time) 'K' =
            ({ deliver s turn.bytes with serial, kickerOutputPin := kickerIdleLevel,
                                          perviousTime := clock 32 turn.time },
              [.kicking, .digitalWrite kickerActiveLevel, .delay kickerPulseTime,
                .digitalWrite kickerIdleLevel]) := by
          rw [onByte, if_pos rfl, if_neg]
          exact hsoon
        simp only [hbyte]
        exact ⟨rfl, hsoon, trivial, rfl⟩
    · left
      simp only [onByte, if_neg hK]
      refine ⟨?_, ?_, fun hread => absurd (Option.some.inj hread) hK⟩ <;> split_ifs <;> rfl

theorem idle_timed {s : State} (h : s.kickerOutputPin = kickerIdleLevel) (turn : Turn) :
    (timed s turn).1.kickerOutputPin = kickerIdleLevel := by
  unfold timed loop
  cases (deliver s turn.bytes).serial with
  | nil => exact h
  | cons byte serial =>
    simp only [onByte]
    split_ifs <;> first | exact h | rfl

/-! ## Runs -/

theorem pulses_cons (s : State) (turn : Turn) (es : List Turn) :
    pulses s (turn :: es) =
      (timed s turn).2.filterMap pulseOf ++ pulses (timed s turn).1 es :=
  List.filterMap_append

/-- **The kicker is a rate limiter**: of the kicks that are read, those fire which it grants. -/
theorem pulses_eq_grants (s : State) (es : List Turn) :
    pulses s es = grants kickerTimeout s.perviousTime (kicks s es) := by
  induction es generalizing s with
  | nil => rfl
  | cons turn es ih =>
    rw [pulses_cons, kicks, ih]
    rcases timed_cases s turn with ⟨htime, hout, hsoon⟩ | ⟨hread, hlate, htime, hout⟩
    · rw [htime, hout, List.nil_append]
      split
      · rename_i hread
        rw [List.singleton_append, grants, if_pos (hsoon hread)]
      · rw [List.nil_append]
    · rw [htime, hout, if_pos hread, List.singleton_append, List.singleton_append, grants,
        if_neg hlate]

theorem kicks_append (s : State) (es fs : List Turn) :
    kicks s (es ++ fs) = kicks s es ++ kicks (timed.after s es) fs := by
  induction es generalizing s with
  | nil => rfl
  | cons turn es ih =>
    rw [List.cons_append, kicks, kicks, ih, List.append_assoc, Machine.after_cons]

theorem kicks_sublist (s : State) (es : List Turn) : (kicks s es).Sublist (es.map Turn.time) := by
  induction es generalizing s with
  | nil => exact List.Sublist.slnil
  | cons turn es ih =>
    rw [kicks, List.map_cons]
    split
    · exact (ih _).cons_cons turn.time
    · exact (ih _).cons turn.time

theorem idle_after (es : List Turn) :
    (timed.after setup es).kickerOutputPin = kickerIdleLevel := by
  induction es using List.reverseRecOn with
  | nil => rfl
  | append_singleton es turn ih => rw [Machine.after_snoc, idle_timed ih]

/-- **The kicker keeps its distance**, against true time that never goes back and for bytes of any
kind at any moment: pulses are 5000 ms apart and the first is 5000 ms after the start; a kick that
comes so late after the last pulse does fire, if less than a whole turn of the clock has gone by;
and between turns the pin is at rest. -/
theorem kicker_rate_limit (es : List Turn) (htime : (es.map Turn.time).Pairwise (· ≤ ·)) :
    (0 :: pulses setup es).IsChain (fun a b => a + 5000 ≤ b) ∧
    (∀ pre turn post, es = pre ++ turn :: post → reads (timed.after setup pre) turn = some 'K' →
      (pulses setup pre).getLast?.getD 0 + 5000 ≤ turn.time →
      turn.time < (pulses setup pre).getLast?.getD 0 + 2 ^ 32 →
      pulses setup (pre ++ [turn]) = pulses setup pre ++ [turn.time]) ∧
    ∀ pre post, es = pre ++ post → (timed.after setup pre).kickerOutputPin = kickerIdleLevel := by
  refine ⟨?_, ?_, ?_⟩
  · have hkicks : (0 :: kicks setup es).Pairwise (· ≤ ·) :=
      List.pairwise_cons.mpr ⟨fun t _ => Nat.zero_le t, htime.sublist (kicks_sublist setup es)⟩
    have hchain := @grants_isChain 32 kickerTimeout _ _ hkicks
    rw [pulses_eq_grants]
    exact hchain
  · intro pre turn post _ hread hlate hwrap
    have hkicks : kicks setup (pre ++ [turn]) = kicks setup pre ++ [turn.time] := by
      rw [kicks_append, kicks, if_pos hread]
      rfl
    rw [pulses_eq_grants] at hlate hwrap
    rw [pulses_eq_grants, pulses_eq_grants, hkicks]
    exact grants_snoc_of_le hlate hwrap
  · intro pre _ _
    exact idle_after pre

/-- Three kicks: in time, too early, and in time behind the turn of the clock. -/
theorem kicker_rate_limit_wrap :
    let es : List Turn := [⟨5000, ['K']⟩, ⟨7000, ['K']⟩, ⟨2 ^ 32 + 4000, ['K']⟩]
    (0 :: pulses setup es).IsChain (fun a b => a + 5000 ≤ b) ∧
      pulses setup es = pulses setup [⟨5000, ['K']⟩, ⟨7000, ['K']⟩] ++ [2 ^ 32 + 4000] := by
  intro es
  obtain ⟨hchain, hfires, -⟩ := kicker_rate_limit es (by decide)
  refine ⟨hchain, ?_⟩
  exact hfires [⟨5000, ['K']⟩, ⟨7000, ['K']⟩] ⟨2 ^ 32 + 4000, ['K']⟩ [] rfl (by decide +kernel)
    (by decide +kernel) (by decide +kernel)

end Firmware

end RobotFramework

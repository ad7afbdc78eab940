import Mathlib.Data.List.Basic
import Mathlib.Logic.Function.Basic

/-!
# Checksums that are folded over the input

A checksum whose step is injective, in the state and in the input, **tells two inputs of one length
apart that differ in one place** (`foldl_ne_of_changed`): the place where they differ takes them to
different states, and from there on nothing brings these together again.
-/

namespace Checksum

open Function

variable {σ α : Type*} {step : σ → α → σ}

/-- Different states stay different over the same input. -/
theorem foldl_injective (hstep : ∀ a, Injective (step · a)) (l : List α) :
    Injective fun s => l.foldl step s := by
  induction l with
  | nil => exact injective_id
  | cons a l ih =>
    intro s s' heq
    apply hstep a
    apply ih
    exact heq

/-- **One changed item changes the checksum.** -/
theorem foldl_ne_of_changed (hstate : ∀ a, Injective (step · a)) (hinput : ∀ s, Injective (step s))
    {a b : α} (hne : a ≠ b) (s : σ) (pre post : List α) :
    (pre ++ a :: post).foldl step s ≠ (pre ++ b :: post).foldl step s := by
  intro heq
  simp only [List.foldl_append, List.foldl_cons] at heq
  apply hne
  apply hinput (pre.foldl step s)
  exact foldl_injective hstate post heq

end Checksum

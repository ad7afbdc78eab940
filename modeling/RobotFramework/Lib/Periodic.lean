import Mathlib.Algebra.Order.Group.Defs
import Mathlib.Algebra.Order.Group.Unbundled.Basic
import Mathlib.Algebra.Order.Monoid.Unbundled.Pow
import Mathlib.Data.List.Chain
import Mathlib.Tactic.Abel
import Mathlib.Tactic.GCongr

/-!
# Periodic tasks of a polling loop

A loop looks at a task on every turn and runs it when at least `interval` has passed since it ran
last. How often the task runs then depends on how often the loop turns: never more often than the
interval (`runs_isChain`), and where the turns are at most `gap` apart not much more seldom
(`runs_late`): each turn adds to what has been waited for less than one gap.
-/

namespace Periodic

variable {T : Type} [AddCommGroup T] [LinearOrder T]

/-- Of the turns, those at which the task runs; `last` is when it ran before. -/
def runs (interval : T) : T → List T → List T
  | _, [] => []
  | last, t :: ts =>
    if interval ≤ t - last then t :: runs interval t ts else runs interval last ts

/-- When the task has run last. -/
def lastRun (interval : T) (last : T) (ts : List T) : T :=
  (runs interval last ts).getLast?.getD last

@[simp] theorem runs_nil (interval last : T) : runs interval last [] = [] := rfl

@[simp] theorem lastRun_nil (interval last : T) : lastRun interval last [] = last := rfl

theorem lastRun_cons (interval last t : T) (ts : List T) :
    lastRun interval last (t :: ts) =
      if interval ≤ t - last then lastRun interval t ts else lastRun interval last ts := by
  rw [lastRun, runs]
  split
  · rw [List.getLast?_cons, Option.getD_some]
    rfl
  · rfl

theorem runs_append (interval last : T) (ts us : List T) :
    runs interval last (ts ++ us) =
      runs interval last ts ++ runs interval (lastRun interval last ts) us := by
  induction ts generalizing last with
  | nil => rfl
  | cons t ts ih =>
    rw [List.cons_append, runs, runs, lastRun_cons]
    split
    · rw [ih, List.cons_append]
    · rw [ih]

theorem lastRun_append (interval last : T) (ts us : List T) :
    lastRun interval last (ts ++ us) = lastRun interval (lastRun interval last ts) us := by
  induction ts generalizing last with
  | nil => rfl
  | cons t ts ih =>
    rw [List.cons_append, lastRun_cons, lastRun_cons]
    split
    · exact ih t
    · exact ih last

theorem lastRun_snoc (interval last : T) (ts : List T) (t : T) :
    lastRun interval last (ts ++ [t]) =
      if interval ≤ t - lastRun interval last ts then t else lastRun interval last ts := by
  rw [lastRun_append, lastRun_cons]
  rfl

/-- The last run is no later than the clock has got. -/
theorem lastRun_le {interval last t : T} {ts : List T} (hlast : last ≤ t) (hts : ∀ u ∈ ts, u ≤ t) :
    lastRun interval last ts ≤ t := by
  induction ts generalizing last with
  | nil => exact hlast
  | cons u ts ih =>
    obtain ⟨hu, hrest⟩ := List.forall_mem_cons.mp hts
    rw [lastRun_cons]
    split
    · exact ih hu hrest
    · exact ih hlast hrest

variable [IsOrderedAddMonoid T]

/-- **Two runs are an interval apart**, whatever the clock does. -/
theorem runs_isChain (interval last : T) (ts : List T) :
    (last :: runs interval last ts).IsChain fun a b => a + interval ≤ b := by
  induction ts generalizing last with
  | nil => exact List.isChain_singleton last
  | cons t ts ih =>
    rw [runs]
    split
    · rename_i hdue
      apply List.isChain_cons_cons.mpr
      exact ⟨le_sub_iff_add_le'.mp hdue, ih t⟩
    · exact ih last

/-- **Behind each turn less than an interval has passed** since the task ran, or it has run just
then. -/
theorem lastRun_fresh (interval last : T) (ts : List T) (t : T) :
    lastRun interval last (ts ++ [t]) = t ∨ t < lastRun interval last (ts ++ [t]) + interval := by
  rw [lastRun_snoc]
  split
  · exact Or.inl rfl
  · rename_i hdue
    right
    exact sub_lt_iff_lt_add'.mp (not_le.mp hdue)

/-- So at each turn what has passed is at most the interval, if that is not negative. -/
theorem le_lastRun_add {interval last : T} (hinterval : 0 ≤ interval) (ts : List T) (t : T) :
    t ≤ lastRun interval last (ts ++ [t]) + interval := by
  rcases lastRun_fresh interval last ts t with h | h
  · rw [h]
    exact le_add_of_nonneg_right hinterval
  · exact h.le

/-- **Where the turns are at most a gap apart the runs are at most an interval and a gap apart.** -/
theorem runs_late {interval gap last t : T} (hinterval : 0 ≤ interval) {ts : List T}
    (hts : (t :: ts).IsChain fun a b => b ≤ a + gap) (hlast : t ≤ last + interval) :
    (last :: runs interval last ts).IsChain fun a b => b ≤ a + (interval + gap) := by
  induction ts generalizing last t with
  | nil => exact List.isChain_singleton last
  | cons u ts ih =>
    obtain ⟨hgap, hrest⟩ := List.isChain_cons_cons.mp hts
    rw [runs]
    split
    · apply List.isChain_cons_cons.mpr
      constructor
      · rw [← add_assoc]
        exact hgap.trans (add_le_add_left hlast gap)
      · exact ih hrest (le_add_of_nonneg_right hinterval)
    · rename_i hdue
      exact ih hrest (sub_le_iff_le_add'.mp (not_le.mp hdue).le)

/-- **Long enough a time has many runs in it.** -/
theorem lt_length_runs {interval gap last t : T} (hinterval : 0 ≤ interval) (hgap : 0 ≤ gap)
    {ts : List T} (hts : (t :: ts).IsChain fun a b => b ≤ a + gap) (hlast : t ≤ last + interval)
    {n : Nat} (hlong : last + interval + n • (interval + gap) < ts.getLast?.getD t) :
    n < (runs interval last ts).length := by
  have hperiod : 0 ≤ interval + gap := add_nonneg hinterval hgap
  induction ts generalizing last t n with
  | nil =>
    -- Without a turn the time has not passed.
    have hle : last + interval ≤ last + interval + n • (interval + gap) :=
      le_add_of_nonneg_right (nsmul_nonneg hperiod n)
    exact absurd (hle.trans_lt hlong) (not_lt.mpr hlast)
  | cons u ts ih =>
    obtain ⟨hturn, hrest⟩ := List.isChain_cons_cons.mp hts
    rw [List.getLast?_cons, Option.getD_some] at hlong
    rw [runs]
    split
    · rw [List.length_cons]
      cases n with
      | zero => exact Nat.succ_pos _
      | succ n =>
        apply Nat.succ_lt_succ
        apply ih hrest (le_add_of_nonneg_right hinterval)
        refine lt_of_le_of_lt ?_ hlong
        calc u + interval + n • (interval + gap)
            ≤ t + gap + interval + n • (interval + gap) := by gcongr
          _ ≤ last + interval + gap + interval + n • (interval + gap) := by gcongr
          _ = last + interval + (n + 1) • (interval + gap) := by
              rw [succ_nsmul]
              abel
    · rename_i hdue
      exact ih hrest (sub_le_iff_le_add'.mp (not_le.mp hdue).le) hlong

end Periodic

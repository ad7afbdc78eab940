import Mathlib.Algebra.Group.Nat.Defs
import Mathlib.Data.List.Induction

/-!
# Watchdogs

A *watchdog* listens to a stream of commands with gaps in it. A command is acted upon and the result
held; a gap is counted, and once `limit` gaps have come in a row what is held is replaced by a safe
value. The counter is a machine word of `w` bits which nothing keeps from wrapping around.

`expected` says what is held as a function of the stream alone, without a counter, and `run_eq` that
the watchdog holds it after **any** stream: a wrapped counter forgets how long the gap is, but by
then the safe value is held and no gap replaces it.
-/

namespace Watchdog

variable {α β : Type*} {w : Nat}

/-! ## Streams -/

/-- The number of gaps at the end of a stream. -/
def misses (xs : List (Option α)) : Nat :=
  xs.foldl (fun n x => match x with | some _ => 0 | none => n + 1) 0

/-- The latest command of a stream. -/
def latest (xs : List (Option α)) : Option α :=
  xs.foldl (fun l x => match x with | some a => some a | none => l) none

@[simp] theorem misses_nil : misses ([] : List (Option α)) = 0 := rfl

@[simp] theorem misses_snoc_some (xs : List (Option α)) (a : α) :
    misses (xs ++ [some a]) = 0 := by
  simp [misses]

@[simp] theorem misses_snoc_none (xs : List (Option α)) :
    misses (xs ++ [none]) = misses xs + 1 := by
  simp [misses]

@[simp] theorem latest_nil : latest ([] : List (Option α)) = none := rfl

@[simp] theorem latest_snoc_some (xs : List (Option α)) (a : α) :
    latest (xs ++ [some a]) = some a := by
  simp [latest]

@[simp] theorem latest_snoc_none (xs : List (Option α)) : latest (xs ++ [none]) = latest xs := by
  simp [latest]

/-- Gaps at the end of a stream are counted on. -/
theorem misses_append_of_forall (xs : List (Option α)) {ys : List (Option α)}
    (h : ∀ y ∈ ys, y = none) : misses (xs ++ ys) = misses xs + ys.length := by
  induction ys using List.reverseRecOn with
  | nil => rw [List.append_nil, List.length_nil, Nat.add_zero]
  | append_singleton ys y ih =>
    obtain rfl := h y (List.mem_append_right _ (List.mem_singleton_self _))
    rw [← List.append_assoc, misses_snoc_none, ih fun z hz => h z (List.mem_append_left _ hz),
      List.length_append, List.length_singleton, Nat.add_assoc]

/-- A command among the last entries of a stream ends the count within them. -/
theorem misses_append_of_exists (xs : List (Option α)) {ys : List (Option α)}
    (h : ∃ y ∈ ys, y ≠ none) : misses (xs ++ ys) < ys.length ∧ latest (xs ++ ys) ≠ none := by
  induction ys using List.reverseRecOn with
  | nil => simp at h
  | append_singleton ys y ih =>
    rw [← List.append_assoc]
    cases y with
    | some a =>
      rw [misses_snoc_some, latest_snoc_some, List.length_append]
      exact ⟨Nat.succ_pos _, Option.some_ne_none a⟩
    | none =>
      -- The command stands further back, and the gap counts one on.
      obtain ⟨z, hz, hne⟩ := h
      have hmem : z ∈ ys := by
        rcases List.mem_append.mp hz with hz | hz
        · exact hz
        · exact absurd (List.mem_singleton.mp hz) hne
      obtain ⟨hlt, hlatest⟩ := ih ⟨z, hmem, hne⟩
      rw [misses_snoc_none, latest_snoc_none, List.length_append, List.length_singleton]
      exact ⟨Nat.succ_lt_succ hlt, hlatest⟩

/-! ## The watchdog -/

structure State (w : Nat) (β : Type*) where
  count : BitVec w
  held : β

def step (limit : Int) (safe : β) (act : α → β) (s : State w β) : Option α → State w β
  | some a => ⟨0, act a⟩
  | none => ⟨s.count + 1, if limit ≤ (s.count + 1).toInt then safe else s.held⟩

def expected (limit : Nat) (safe : β) (act : α → β) (init : β) (xs : List (Option α)) : β :=
  if limit ≤ misses xs then safe else ((latest xs).map act).getD init

variable {limit : Nat} {safe init : β} {act : α → β}

theorem expected_snoc_some (hpos : 0 < limit) (xs : List (Option α)) (a : α) :
    expected limit safe act init (xs ++ [some a]) = act a := by
  simp [expected, Nat.ne_of_gt hpos]

theorem expected_snoc_none (xs : List (Option α)) :
    expected limit safe act init (xs ++ [none]) =
      if limit ≤ misses xs + 1 then safe else expected limit safe act init xs := by
  unfold expected
  rw [misses_snoc_none, latest_snoc_none]
  by_cases h : limit ≤ misses xs + 1
  · rw [if_pos h, if_pos h]
  · have h' : ¬ limit ≤ misses xs := fun hle => h (by omega)
    rw [if_neg h, if_neg h, if_neg h']

theorem expected_of_forall (xs : List (Option α)) {ys : List (Option α)} (hlen : ys.length = limit)
    (h : ∀ y ∈ ys, y = none) : expected limit safe act init (xs ++ ys) = safe :=
  if_pos (by rw [misses_append_of_forall xs h]; omega)

/-- The latest command is held when it is among the last `limit` entries. -/
theorem expected_of_exists (safe init : β) (act : α → β) (xs : List (Option α))
    {ys : List (Option α)} (hlen : ys.length = limit) (h : ∃ y ∈ ys, y ≠ none) :
    ∃ a, latest (xs ++ ys) = some a ∧ expected limit safe act init (xs ++ ys) = act a := by
  obtain ⟨hlt, hne⟩ := misses_append_of_exists xs h
  obtain ⟨a, ha⟩ := Option.ne_none_iff_exists'.mp hne
  refine ⟨a, ha, ?_⟩
  unfold expected
  rw [if_neg (by omega), ha]
  rfl

/-- A counter that has not wrapped compares as the number it counts. -/
theorem limit_le_toInt_ofNat {n : Nat} (hn : n < 2 ^ (w - 1)) :
    (limit : Int) ≤ (BitVec.ofNat w n).toInt ↔ limit ≤ n := by
  have hw : 2 * 2 ^ (w - 1) ≤ 2 ^ w ∨ w = 0 := by
    cases w with
    | zero => exact Or.inr rfl
    | succ w => left; rw [Nat.add_sub_cancel, Nat.pow_succ]; omega
  rcases hw with hw | rfl
  · -- Below half of the range two's complement is the number itself.
    have hmod : n % 2 ^ w = n := Nat.mod_eq_of_lt (by omega)
    have hsmall : 2 * n < 2 ^ w := by omega
    rw [BitVec.toInt_eq_toNat_cond, BitVec.toNat_ofNat, hmod, if_pos hsmall]
    omega
  · have : n = 0 := by simpa using hn
    subst this
    simp

/-- **A watchdog holds what its stream says**, however long the stream: the counter is the number of
gaps modulo `2 ^ w`, and it decides nothing once it has wrapped. -/
theorem run_eq (hpos : 0 < limit) (hlimit : limit < 2 ^ (w - 1)) (xs : List (Option α)) :
    xs.foldl (step limit safe act) (⟨0, init⟩ : State w β) =
      ⟨BitVec.ofNat w (misses xs), expected limit safe act init xs⟩ := by
  induction xs using List.reverseRecOn with
  | nil => simp [expected, Nat.not_le.mpr hpos]
  | append_singleton xs x ih =>
    rw [List.foldl_append, List.foldl_cons, List.foldl_nil, ih]
    cases x with
    | some a => simp [step, expected_snoc_some hpos]
    | none =>
      have hcount : BitVec.ofNat w (misses xs) + 1 = BitVec.ofNat w (misses xs + 1) :=
        (BitVec.ofNat_add _ _).symm
      simp only [step, hcount, misses_snoc_none, expected_snoc_none]
      congr 1
      by_cases hn : misses xs + 1 < 2 ^ (w - 1)
      · simp only [limit_le_toInt_ofNat hn]
      · -- The safe value is held already, and both sides keep it.
        have hheld : expected limit safe act init xs = safe := if_pos (by omega)
        have hle : limit ≤ misses xs + 1 := by omega
        rw [hheld, if_pos hle, ite_self]

end Watchdog

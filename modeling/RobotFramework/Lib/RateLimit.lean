import Mathlib.Algebra.Group.Nat.Defs
import Mathlib.Data.List.Chain

/-!
# Rate limits against a clock that wraps

A *rate limiter* grants a request unless the last one it granted is less than `timeout` away. Its
clock is a machine word of `w` bits which true time overflows again and again, and it subtracts in
machine words: what it takes for the distance is the true one modulo `2 ^ w`.

That is never more than the true distance, so two grants are never too close (`grants_isChain`). It
can be less, and then a request is refused that need not be; but not before the word has wrapped
(`grants_snoc_of_le`).
-/

namespace RateLimit

variable {w : Nat}

/-- The clock word at a true time. -/
def clock (w : Nat) (t : Nat) : BitVec w := BitVec.ofNat w t

/-- Of requests at true times, those granted; `last` is the clock word of the last grant. -/
def grants (timeout : BitVec w) : BitVec w → List Nat → List Nat
  | _, [] => []
  | last, t :: ts =>
    if clock w t - last < timeout then grants timeout last ts
    else t :: grants timeout (clock w t) ts

/-! ## Distances -/

theorem toNat_clock_sub {l t : Nat} (h : l ≤ t) :
    (clock w t - clock w l).toNat = (t - l) % 2 ^ w := by
  have hsub : clock w t - clock w l = clock w (t - l) := by
    have hsplit : clock w t = clock w l + clock w (t - l) := by
      rw [clock, clock, clock, ← BitVec.ofNat_add, Nat.add_sub_cancel' h]
    rw [hsplit, BitVec.add_comm, BitVec.add_sub_cancel]
  rw [hsub, clock, BitVec.toNat_ofNat]

/-- The distance the limiter sees is at most the true one. -/
theorem add_le_of_not_lt {timeout : BitVec w} {l t : Nat} (h : l ≤ t)
    (hgrant : ¬ clock w t - clock w l < timeout) : l + timeout.toNat ≤ t := by
  rw [BitVec.lt_def, toNat_clock_sub h, Nat.not_lt] at hgrant
  have hmod : (t - l) % 2 ^ w ≤ t - l := Nat.mod_le _ _
  omega

/-- Up to a whole turn of the clock it is the true one. -/
theorem not_lt_of_add_le {timeout : BitVec w} {l t : Nat} (h : l + timeout.toNat ≤ t)
    (hwrap : t < l + 2 ^ w) : ¬ clock w t - clock w l < timeout := by
  have hle : l ≤ t := by omega
  rw [BitVec.lt_def, toNat_clock_sub hle, Nat.mod_eq_of_lt (by omega), Nat.not_lt]
  omega

/-! ## Runs of requests -/

/-- **Any two grants in a row are a timeout apart**, and so is the first from what came before,
however long the requests go on. -/
theorem grants_isChain {timeout : BitVec w} {l : Nat} {ts : List Nat}
    (h : (l :: ts).Pairwise (· ≤ ·)) :
    (l :: grants timeout (clock w l) ts).IsChain fun a b => a + timeout.toNat ≤ b := by
  induction ts generalizing l with
  | nil => exact List.isChain_singleton l
  | cons t ts ih =>
    obtain ⟨hl, hts⟩ := List.pairwise_cons.mp h
    rw [grants]
    split
    · -- Refused: the last grant stands, and it is no later than what is left.
      apply ih
      obtain ⟨-, htail⟩ := List.pairwise_cons.mp hts
      exact List.pairwise_cons.mpr ⟨fun u hu => hl u (List.mem_cons_of_mem _ hu), htail⟩
    · rename_i hgrant
      have hlt : l + timeout.toNat ≤ t := add_le_of_not_lt (hl t List.mem_cons_self) hgrant
      exact List.isChain_cons_cons.mpr ⟨hlt, ih hts⟩

/-- The grant that stands after some requests. -/
def lastGrant (timeout : BitVec w) (l : Nat) (ts : List Nat) : Nat :=
  (grants timeout (clock w l) ts).getLast?.getD l

theorem grants_snoc (timeout : BitVec w) (l : Nat) (ts : List Nat) (t : Nat) :
    grants timeout (clock w l) (ts ++ [t]) = grants timeout (clock w l) ts ++
      if clock w t - clock w (lastGrant timeout l ts) < timeout then [] else [t] := by
  induction ts generalizing l with
  | nil => rfl
  | cons s ts ih =>
    by_cases h : clock w s - clock w l < timeout
    · have hlast : lastGrant timeout l (s :: ts) = lastGrant timeout l ts := by
        rw [lastGrant, grants, if_pos h, lastGrant]
      rw [List.cons_append, grants, if_pos h, ih, hlast, grants, if_pos h]
    · have hlast : lastGrant timeout l (s :: ts) = lastGrant timeout s ts := by
        rw [lastGrant, grants, if_neg h, List.getLast?_cons, lastGrant]
        rfl
      rw [List.cons_append, grants, if_neg h, ih, hlast, grants, if_neg h, List.cons_append]

/-- **A request that keeps the distance is granted**, unless the last grant is a whole turn of the
clock away. -/
theorem grants_snoc_of_le {timeout : BitVec w} {l t : Nat} {ts : List Nat}
    (h : lastGrant timeout l ts + timeout.toNat ≤ t) (hwrap : t < lastGrant timeout l ts + 2 ^ w) :
    grants timeout (clock w l) (ts ++ [t]) = grants timeout (clock w l) ts ++ [t] := by
  rw [grants_snoc, if_neg (not_lt_of_add_le h hwrap)]

end RateLimit

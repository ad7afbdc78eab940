import Mathlib.Data.List.Basic

/-!
# Records that are terminated by a separator

A file of lines is a list of records with a separator behind each. Splitting such a text at the
separator gives the records back, and an empty rest, exactly if no record holds a separator itself
(`splitOn_terminated_iff`).

Where the text comes in pieces, each with an end of a record anywhere, what has been seen is the
records that are complete and the rest behind them; **taking them off the pieces one by one gives
the same as taking them off the whole** (`complete_append`).
-/

namespace Lines

open List

variable {α : Type*} {x : α}

/-- No piece of a split holds a separator. -/
theorem sep_of_mem_splitOnP {p : α → Bool} {l : List α} :
    ∀ {w : List α}, w ∈ l.splitOnP p → ∀ c ∈ w, p c = false := by
  induction l with
  | nil =>
    intro w hw
    rw [splitOnP_nil, mem_singleton] at hw
    simp [hw]
  | cons c l ih =>
    intro w hw
    rw [splitOnP_cons_eq_if_modifyHead] at hw
    split at hw
    · rcases mem_cons.mp hw with rfl | hw
      · exact forall_mem_nil _
      · exact ih hw
    · rename_i hc
      obtain ⟨r, rs, hrs⟩ := exists_cons_of_ne_nil (splitOnP_ne_nil p l)
      rw [hrs, modifyHead_cons] at hw
      rcases mem_cons.mp hw with rfl | hw
      · exact forall_mem_cons.mpr ⟨by simpa using hc, ih (hrs ▸ mem_cons_self)⟩
      · exact ih (hrs ▸ mem_cons_of_mem _ hw)

theorem mem_of_mem_splitOnP {p : α → Bool} {l : List α} :
    ∀ {w : List α}, w ∈ l.splitOnP p → ∀ c ∈ w, c ∈ l := by
  induction l with
  | nil =>
    intro w hw
    rw [splitOnP_nil, mem_singleton] at hw
    simp [hw]
  | cons c l ih =>
    intro w hw
    rw [splitOnP_cons_eq_if_modifyHead] at hw
    split at hw
    · rcases mem_cons.mp hw with rfl | hw
      · exact forall_mem_nil _
      · exact fun c' hc' => mem_cons_of_mem _ (ih hw c' hc')
    · obtain ⟨r, rs, hrs⟩ := exists_cons_of_ne_nil (splitOnP_ne_nil p l)
      rw [hrs, modifyHead_cons] at hw
      rcases mem_cons.mp hw with rfl | hw
      · intro c' hc'
        rcases mem_cons.mp hc' with rfl | hc'
        · exact mem_cons_self
        · exact mem_cons_of_mem _ (ih (hrs ▸ mem_cons_self) c' hc')
      · exact fun c' hc' => mem_cons_of_mem _ (ih (hrs ▸ mem_cons_of_mem _ hw) c' hc')

/-- The records, a separator behind each. -/
def terminated (x : α) (ls : List (List α)) : List α := ls.flatMap (· ++ [x])

/-- The last record is without its separator. -/
theorem intercalate_concat (ls : List (List α)) (l : List α) :
    [x].intercalate (ls ++ [l]) = terminated x ls ++ l := by
  induction ls with
  | nil => simp [terminated]
  | cons l' ls ih =>
    rw [cons_append, intercalate_cons_of_ne_nil (by simp), ih]
    simp [terminated]

/-- What is in a joined list is the separator or in one of its parts. -/
theorem mem_intercalate {c : α} {ls : List (List α)} (h : c ∈ [x].intercalate ls) :
    c = x ∨ ∃ l ∈ ls, c ∈ l := by
  induction ls with
  | nil => cases h
  | cons l ls ih =>
    cases ls with
    | nil => exact .inr ⟨l, mem_cons_self, by simpa using h⟩
    | cons l' ls =>
      rw [intercalate_cons_cons, mem_append, mem_append, mem_singleton] at h
      rcases h with (h | h) | h
      · exact .inr ⟨l, mem_cons_self, h⟩
      · exact .inl h
      · exact (ih h).imp_right fun ⟨l, hl, hc⟩ => ⟨l, mem_cons_of_mem _ hl, hc⟩

theorem mem_intercalate_of_mem {sep : List α} {ls : List (List α)} {l : List α} (hl : l ∈ ls)
    {c : α} (hc : c ∈ l) : c ∈ sep.intercalate ls := by
  induction ls with
  | nil => cases hl
  | cons l' ls ih =>
    by_cases hne : ls = []
    · subst hne
      rw [intercalate_singleton, ← mem_singleton.mp hl]
      exact hc
    · rw [intercalate_cons_of_ne_nil hne, mem_append, mem_append]
      rcases mem_cons.mp hl with rfl | hl
      · exact .inl (.inl hc)
      · exact .inr (ih hl)

variable [DecidableEq α]

theorem notMem_of_mem_splitOn {l w : List α} (hw : w ∈ l.splitOn x) : x ∉ w := by
  intro hx
  rw [splitOn_eq_splitOnP] at hw
  simpa using sep_of_mem_splitOnP hw x hx

theorem splitOn_terminated {ls : List (List α)} {rest : List α} (hls : ∀ l ∈ ls, x ∉ l)
    (hrest : x ∉ rest) : (terminated x ls ++ rest).splitOn x = ls ++ [rest] := by
  induction ls with
  | nil => exact splitOn_eq_singleton hrest
  | cons l ls ih =>
    have hsplit : terminated x (l :: ls) ++ rest = l ++ x :: (terminated x ls ++ rest) := by
      simp [terminated]
    rw [hsplit, splitOn_append_cons_self_of_not_mem (hls l mem_cons_self),
      ih fun l' hl' => hls l' (mem_cons_of_mem _ hl')]
    rfl

/-- **Records are read back line by line** exactly if none holds the separator. -/
theorem splitOn_terminated_iff {ls : List (List α)} :
    (terminated x ls).splitOn x = ls ++ [[]] ↔ ∀ l ∈ ls, x ∉ l := by
  constructor
  · intro h l hl
    exact notMem_of_mem_splitOn (h ▸ mem_append_left _ hl)
  · intro h
    have hsplit := splitOn_terminated h (not_mem_nil (a := x))
    rwa [append_nil] at hsplit

/-! ## Records that come in pieces -/

section Complete

variable {β : Type*} {isEnd : β → Bool}

/-- The records that have got their end, and what stands behind the last end. -/
def complete (isEnd : β → Bool) : List β → List (List β) × List β
  | [] => ([], [])
  | c :: l =>
    if isEnd c then ([] :: (complete isEnd l).1, (complete isEnd l).2)
    else
      match (complete isEnd l).1 with
      | [] => ([], c :: (complete isEnd l).2)
      | record :: records => ((c :: record) :: records, (complete isEnd l).2)

theorem complete_cons_of_end {c : β} (hc : isEnd c = true) (l : List β) :
    complete isEnd (c :: l) = ([] :: (complete isEnd l).1, (complete isEnd l).2) := by
  rw [complete, if_pos hc]

/-- A record and its end come off the front. -/
theorem complete_record {record : List β} (hrecord : ∀ c ∈ record, isEnd c = false) {e : β}
    (he : isEnd e = true) (l : List β) :
    complete isEnd (record ++ e :: l) =
      (record :: (complete isEnd l).1, (complete isEnd l).2) := by
  induction record with
  | nil => exact complete_cons_of_end he l
  | cons c record ih =>
    have hc : isEnd c = false := hrecord c mem_cons_self
    have htail := ih fun c' hc' => hrecord c' (mem_cons_of_mem _ hc')
    rw [cons_append, complete, if_neg (by simp [hc]), htail]

theorem complete_of_forall {l : List β} (h : ∀ c ∈ l, isEnd c = false) :
    complete isEnd l = ([], l) := by
  induction l with
  | nil => rfl
  | cons c l ih =>
    have hc : isEnd c = false := h c mem_cons_self
    have htail := ih fun c' hc' => h c' (mem_cons_of_mem _ hc')
    rw [complete, if_neg (by simp [hc]), htail]

/-- A list without an end, or a record, its end and the rest. -/
theorem end_cases (isEnd : β → Bool) (l : List β) :
    (∀ c ∈ l, isEnd c = false) ∨
      ∃ record e rest, l = record ++ e :: rest ∧ (∀ c ∈ record, isEnd c = false) ∧
        isEnd e = true := by
  induction l with
  | nil => exact .inl (forall_mem_nil _)
  | cons c l ih =>
    cases hc : isEnd c with
    | true => exact .inr ⟨[], c, l, rfl, forall_mem_nil _, hc⟩
    | false =>
      rcases ih with hnone | ⟨record, e, rest, rfl, hrecord, he⟩
      · exact .inl (forall_mem_cons.mpr ⟨hc, hnone⟩)
      · exact .inr ⟨c :: record, e, rest, rfl, forall_mem_cons.mpr ⟨hc, hrecord⟩, he⟩

/-- Induction over the records of a list. -/
theorem record_induction {motive : List β → Prop}
    (rest : ∀ l, (∀ c ∈ l, isEnd c = false) → motive l)
    (record : ∀ record e l, (∀ c ∈ record, isEnd c = false) → isEnd e = true → motive l →
      motive (record ++ e :: l)) (l : List β) : motive l := by
  induction hn : l.length using Nat.strongRecOn generalizing l with
  | _ n ih =>
    rcases end_cases isEnd l with hnone | ⟨first, e, l', rfl, hfirst, he⟩
    · exact rest l hnone
    · apply record first e l' hfirst he
      apply ih l'.length _ l' rfl
      rw [← hn, length_append, length_cons]
      omega

/-- **Pieces can be taken one by one**: the rest of the first is carried over to the second. -/
theorem complete_append (l l' : List β) :
    complete isEnd (l ++ l') =
      ((complete isEnd l).1 ++ (complete isEnd ((complete isEnd l).2 ++ l')).1,
        (complete isEnd ((complete isEnd l).2 ++ l')).2) := by
  induction l using @record_induction β isEnd with
  | rest l hnone => simp [complete_of_forall hnone]
  | record record e l hrecord he ih =>
    rw [complete_record hrecord he, append_assoc, cons_append, complete_record hrecord he, ih]
    simp

/-- Behind an end there is nothing left. -/
theorem complete_snoc_end {e : β} (he : isEnd e = true) (l : List β) :
    (complete isEnd (l ++ [e])).2 = [] := by
  induction l using @record_induction β isEnd with
  | rest l hnone =>
    rw [complete_record hnone he]
    rfl
  | record record e' l hrecord he' ih =>
    rw [append_assoc, cons_append, complete_record hrecord he']
    exact ih

end Complete

end Lines

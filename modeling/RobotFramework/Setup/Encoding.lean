import RobotFramework.Setup.Setup

/-!
# What the strings of `SETUP.sh` say

`BUS=ID,ID;BUS=ID` says which motor is on which bus, and `ID,ID` which motors there are. A string
says so only if all of it can be read.
-/

namespace RobotFramework.Setup

open Cxx Shell Lines

/-! ## Reading all of a list -/

section

variable {α β : Type} {f : α → Option (List β)}

/-- What is read from all elements together, if each can be read. -/
def concatM (f : α → Option (List β)) : List α → Option (List β)
  | [] => some []
  | a :: as => do
    let bs ← f a
    let rest ← concatM f as
    return bs ++ rest

theorem concatM_eq_some_iff {as : List α} {bs : List β} :
    concatM f as = some bs ↔
      (∀ a ∈ as, (f a).isSome = true) ∧ bs = as.flatMap fun a => (f a).getD [] := by
  induction as generalizing bs with
  | nil =>
    rw [concatM, List.flatMap_nil, Option.some.injEq]
    exact ⟨fun h => ⟨List.forall_mem_nil _, h.symm⟩, fun h => h.2.symm⟩
  | cons a as ih =>
    rw [concatM, List.forall_mem_cons, List.flatMap_cons]
    cases ha : f a with
    | none => simp
    | some bs' =>
      cases has : concatM f as with
      | none =>
        have hnot : ¬ ∀ a ∈ as, (f a).isSome = true := fun hall => by
          have hsome := ih.mpr ⟨hall, rfl⟩
          rw [has] at hsome
          cases hsome
        simp [hnot]
      | some rest =>
        obtain ⟨hall, rfl⟩ := ih.mp has
        simp only [Option.isSome_some, true_and, Option.getD_some]
        refine ⟨fun h => ⟨hall, (Option.some.inj h).symm⟩, fun h => congrArg some h.2.symm⟩

theorem isSome_of_mem {as : List α}
    (h : (concatM f as).isSome = true) : ∀ a ∈ as, (f a).isSome = true := by
  obtain ⟨bs, hbs⟩ := Option.isSome_iff_exists.mp h
  exact (concatM_eq_some_iff.mp hbs).1

theorem concatM_append (as as' : List α) :
    concatM f (as ++ as') = do
      let bs ← concatM f as
      let rest ← concatM f as'
      return bs ++ rest := by
  induction as with
  | nil => cases h : concatM f as' <;> simp [concatM, h]
  | cons a as ih =>
    rw [List.cons_append, concatM, concatM, ih]
    cases f a with
    | none => rfl
    | some bs =>
      cases concatM f as with
      | none => rfl
      | some bs' => cases concatM f as' <;> simp

theorem concatM_flatMap {γ : Type} {f : β → Option (List γ)} (g : α → List β) (as : List α) :
    concatM f (as.flatMap g) = concatM (fun a => concatM f (g a)) as := by
  induction as with
  | nil => rfl
  | cons a as ih =>
    rw [List.flatMap_cons, concatM_append, ih]
    rfl

theorem concatM_map {γ : Type} {f : β → Option (List γ)} (g : α → β) (as : List α) :
    concatM f (as.map g) = concatM (fun a => f (g a)) as := by
  induction as with
  | nil => rfl
  | cons a as ih =>
    rw [List.map_cons, concatM, concatM, ih]

/-- If each can be read. -/
theorem concatM_of_eq_some {g : α → List β} {as : List α} (h : ∀ a ∈ as, f a = some (g a)) :
    concatM f as = some (as.flatMap g) := by
  rw [concatM_eq_some_iff]
  refine ⟨fun a ha => by rw [h a ha]; rfl, (List.flatMap_congr fun a ha => ?_).symm⟩
  rw [h a ha, Option.getD_some]

end

theorem splitOn_intercalate_flatMap {sep : Char} {ls : List Text} (hne : ls ≠ []) :
    ([sep].intercalate ls).splitOn sep = ls.flatMap (·.splitOn sep) := by
  induction ls with
  | nil => exact absurd rfl hne
  | cons l ls ih =>
    cases ls with
    | nil => simp
    | cons l' ls =>
      rw [List.intercalate_cons_cons, List.append_assoc, List.singleton_append,
        List.splitOn_append_cons_self, ih (List.cons_ne_nil _ _)]
      rfl

/-! ## Reading the strings -/

def decodeIds (t : Text) : Option (List Int) :=
  concatM (fun id => (integer? id).map ([·])) (t.splitOn ',')

/-- `BUS=ID,ID` -/
def decodeGroup (t : Text) : Option (List (Int × Int)) :=
  match t.splitOn '=' with
  | [bus, ids] => do
    let bus ← integer? bus
    let ids ← decodeIds ids
    return ids.map fun id => (id, bus)
  | _ => none

def decodeGroups (t : Text) : Option (List (Int × Int)) := concatM decodeGroup (t.splitOn ';')

/-- The motors and their buses, in the string of `build_pi3hat_cfg`. -/
def decodeCfg (t : Text) : Option (List (Int × Int)) := if t = [] then some [] else decodeGroups t

/-- The motors, in the string of `get_motor_ids`. -/
def decodeIdList (t : Text) : Option (List Int) := if t = [] then some [] else decodeIds t

/-- Groups are read one by one, when the string is put together of them. -/
theorem decodeCfg_intercalate {gs : List Text} (hgs : ∀ g ∈ gs, g ≠ []) :
    decodeCfg ([';'].intercalate gs) = concatM decodeGroups gs := by
  by_cases hne : gs = []
  · rw [hne]
    rfl
  · rw [decodeCfg, if_neg (intercalate_ne_nil hne hgs), decodeGroups,
      splitOn_intercalate_flatMap hne, concatM_flatMap]
    rfl

theorem decodeIds_intercalate {ids : List Text} (hne : ids ≠ []) :
    decodeIds ([','].intercalate ids) = concatM decodeIds ids := by
  rw [decodeIds, splitOn_intercalate_flatMap hne, concatM_flatMap]
  rfl

theorem decodeIdList_intercalate {ids : List Text} (hids : ∀ id ∈ ids, id ≠ []) :
    decodeIdList ([','].intercalate ids) = concatM decodeIds ids := by
  by_cases hne : ids = []
  · rw [hne]
    rfl
  · rw [decodeIdList, if_neg (intercalate_ne_nil hne hids), decodeIds_intercalate hne]

theorem decodeIds_numeral (n : Numeral) : decodeIds n.text = some [n.value] := by
  rw [decodeIds, List.splitOn_eq_singleton (n.notMem (by decide))]
  simp [concatM, n.reads]

theorem concatM_decodeIds (ids : List Numeral) :
    concatM decodeIds (ids.map Numeral.text) = some (ids.map Numeral.value) := by
  rw [concatM_map, concatM_of_eq_some fun n _ => decodeIds_numeral n, List.map_eq_flatMap]

theorem notMem_numerals {c : Char} (hc : c.isDigit = false ∧ c ≠ '-' ∧ c ≠ '+') (hcomma : c ≠ ',')
    (ids : List Numeral) : c ∉ [','].intercalate (ids.map Numeral.text) := by
  intro h
  rcases mem_intercalate h with heq | ⟨t, ht, hmem⟩
  · exact hcomma heq
  · obtain ⟨n, -, rfl⟩ := List.mem_map.mp ht
    exact n.notMem hc hmem

/-- **A group is read back.** -/
theorem decodeGroups_group {ids : List Numeral} (hne : ids ≠ []) (bus : Numeral) :
    decodeGroups (bus.text ++ '=' :: [','].intercalate (ids.map Numeral.text)) =
      some (ids.map fun id => (id.value, bus.value)) := by
  have hsemi : ';' ∉ bus.text ++ '=' :: [','].intercalate (ids.map Numeral.text) := by
    have hids := notMem_numerals (c := ';') (by decide) (by decide) ids
    have hbus : ';' ∉ bus.text := bus.notMem (by decide)
    simp [hids, hbus]
  have hsplit : (bus.text ++ '=' :: [','].intercalate (ids.map Numeral.text)).splitOn '=' =
      [bus.text, [','].intercalate (ids.map Numeral.text)] := by
    rw [List.splitOn_append_cons_self_of_not_mem (bus.notMem (by decide)),
      List.splitOn_eq_singleton (notMem_numerals (by decide) (by decide) ids)]
  have hids : decodeIds ([','].intercalate (ids.map Numeral.text)) =
      some (ids.map Numeral.value) := by
    rw [decodeIds_intercalate (by simpa using hne), concatM_decodeIds]
  rw [decodeGroups, List.splitOn_eq_singleton hsemi]
  simp only [concatM, decodeGroup, hsplit, hids, bus.reads]
  simp

theorem decodeGroup_open (t : Text) : decodeGroup (t ++ ['=']) = none := by
  unfold decodeGroup
  rw [List.splitOn_append_cons_self, List.splitOn_nil]
  split
  · rename_i bus ids hsplit
    have hids : ids = [] := by
      cases ht : t.splitOn '=' with
      | nil => exact absurd ht (List.splitOn_ne_nil _ _)
      | cons w ws =>
        rw [ht] at hsplit
        cases ws with
        | nil =>
          cases hsplit
          rfl
        | cons w' ws =>
          have hlength := congrArg List.length hsplit
          simp at hlength
    have hnone : decodeIds ids = none := by
      rw [hids]
      rfl
    rw [hnone]
    cases integer? bus <;> rfl
  · rfl

/-- A group without ids cannot be read. -/
theorem decodeGroups_open (t : Text) : decodeGroups (t ++ ['=']) = none := by
  -- The sign ends the last group, which therefore has no ids.
  obtain ⟨gs, g, hsplit⟩ := (List.eq_nil_or_concat' (t.splitOn ';')).resolve_left
    (List.splitOn_ne_nil _ _)
  have hg : ';' ∉ g ++ ['='] := by
    have hmem : g ∈ t.splitOn ';' := hsplit ▸ List.mem_append_right _ (List.mem_singleton_self g)
    simpa using notMem_of_mem_splitOn hmem
  have ht : t ++ ['='] = [';'].intercalate (gs ++ [g ++ ['=']]) := by
    rw [intercalate_append_last, ← hsplit, List.intercalate_splitOn]
  have hnone : ¬ (decodeGroups (t ++ ['='])).isSome = true := by
    intro hsome
    rw [ht, decodeGroups, splitOn_intercalate_flatMap (by simp)] at hsome
    have hmem : g ++ ['='] ∈ (gs ++ [g ++ ['=']]).flatMap (·.splitOn ';') := by
      rw [List.flatMap_append, List.flatMap_singleton, List.splitOn_eq_singleton hg]
      exact List.mem_append_right _ (List.mem_singleton_self _)
    have hlast := isSome_of_mem hsome _ hmem
    rw [decodeGroup_open] at hlast
    cases hlast
  rw [← Option.not_isSome_iff_eq_none]
  exact hnone

/-! ## What can be read has no `#` -/

theorem hash_notMem_of_splitOn {sep : Char} (hsep : sep ≠ '#') {t : Text}
    (h : ∀ w ∈ t.splitOn sep, '#' ∉ w) : '#' ∉ t := by
  have hjoined : [sep].intercalate (t.splitOn sep) = t := List.intercalate_splitOn sep
  intro hmem
  rw [← hjoined] at hmem
  rcases mem_intercalate hmem with heq | ⟨w, hw, hmem⟩
  · exact hsep heq.symm
  · exact h w hw hmem

theorem hash_notMem_integer {w : Text} {i : Int} (h : integer? w = some i) : '#' ∉ w :=
  fun hmem => absurd (mem_of_integer? h hmem) (by decide)

theorem hash_notMem_ids {t : Text} (h : (decodeIds t).isSome = true) : '#' ∉ t := by
  refine hash_notMem_of_splitOn (by decide : ',' ≠ '#') fun w hw => ?_
  have hsome := isSome_of_mem h w hw
  rw [Option.isSome_map] at hsome
  obtain ⟨i, hi⟩ := Option.isSome_iff_exists.mp hsome
  exact hash_notMem_integer hi

theorem hash_notMem_group {t : Text} (h : (decodeGroup t).isSome = true) : '#' ∉ t := by
  refine hash_notMem_of_splitOn (by decide : '=' ≠ '#') ?_
  unfold decodeGroup at h
  split at h
  · rename_i bus ids hsplit
    rw [hsplit]
    cases hbus : integer? bus with
    | none => simp [hbus] at h
    | some b =>
      cases hids : decodeIds ids with
      | none => simp [hbus, hids] at h
      | some l =>
        have hids' : '#' ∉ ids := hash_notMem_ids (by rw [hids]; rfl)
        simpa using ⟨hash_notMem_integer hbus, hids'⟩
  · cases h

theorem hash_notMem_groups {t : Text} (h : (decodeGroups t).isSome = true) : '#' ∉ t :=
  hash_notMem_of_splitOn (by decide) fun w hw => hash_notMem_group (isSome_of_mem h w hw)

theorem hash_notMem_idList {t : Text} (h : (decodeIdList t).isSome = true) : '#' ∉ t := by
  unfold decodeIdList at h
  split at h
  · rename_i hnil
    rw [hnil]
    exact List.not_mem_nil
  · exact hash_notMem_ids h

end RobotFramework.Setup

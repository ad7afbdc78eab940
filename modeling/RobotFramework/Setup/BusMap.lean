import RobotFramework.Setup.Setup

/-!
# The bus map of `build_pi3hat_cfg`

What the first loop makes of the lines: of the pairs that they are read as (`records`) it keeps, for
each bus, the ids joined by commas. What a comment is read as has a `#` in its id; without those the
pairs are the entries of the file (`filter_records`).
-/

namespace RobotFramework.Setup

open Cxx Shell

variable {h : Host}

/-! ## The pairs that are kept -/

/-- The loop skips a pair with such an id. -/
def Skipped (id : Text) : Prop := id = [] ∨ id = motorMapKey

instance (id : Text) : Decidable (Skipped id) := inferInstanceAs (Decidable (_ ∨ _))

theorem addMotor_eq (busMap : BusMap) (line : Text) :
    addMotor h busMap line =
      if Skipped (readMotor h line).1 then some busMap
      else if (readMotor h line).2 = [] then none
      else some (busMap.insert (readMotor h line).2
        (if busMap[(readMotor h line).2]?.getD [] = [] then (readMotor h line).1
        else busMap[(readMotor h line).2]?.getD [] ++ ',' :: (readMotor h line).1)) := rfl

def records (h : Host) (lines : List Text) : List (Text × Text) :=
  (lines.map (readMotor h)).filter fun r => ¬ Skipped r.1

/-- The ids of a bus, joined. -/
def joined (rs : List (Text × Text)) (bus : Text) : Option Text :=
  if rs.filter (·.2 = bus) = [] then none
  else some ([','].intercalate ((rs.filter (·.2 = bus)).map Prod.fst))

theorem joined_snoc {rs : List (Text × Text)} (hrs : ∀ r ∈ rs, r.1 ≠ []) (r : Text × Text)
    (bus : Text) :
    joined (rs ++ [r]) bus =
      if r.2 = bus then
        some (if (joined rs bus).getD [] = [] then r.1 else (joined rs bus).getD [] ++ ',' :: r.1)
      else joined rs bus := by
  by_cases hbus : r.2 = bus
  · have hfilter : (rs ++ [r]).filter (·.2 = bus) = rs.filter (·.2 = bus) ++ [r] := by
      rw [List.filter_append, List.filter_cons_of_pos (by simpa using hbus), List.filter_nil]
    rw [if_pos hbus, joined, hfilter, if_neg (by simp), List.map_append, List.map_singleton]
    by_cases hnil : rs.filter (·.2 = bus) = []
    · simp [joined, hnil]
    -- The ids of the bus are not empty, so neither is what the loop tests.
    · have hids : ∀ id ∈ (rs.filter (·.2 = bus)).map Prod.fst, id ≠ [] := by
        intro id hid
        obtain ⟨r', hr', rfl⟩ := List.mem_map.mp hid
        exact hrs r' (List.mem_of_mem_filter hr')
      have hmap : (rs.filter (·.2 = bus)).map Prod.fst ≠ [] := by simpa using hnil
      have hjoined : (joined rs bus).getD [] =
          [','].intercalate ((rs.filter (·.2 = bus)).map Prod.fst) := by
        rw [joined, if_neg hnil, Option.getD_some]
      rw [hjoined, if_neg (intercalate_ne_nil hmap hids), intercalate_snoc hmap]
  · have hfilter : (rs ++ [r]).filter (·.2 = bus) = rs.filter (·.2 = bus) := by
      rw [List.filter_append, List.filter_cons_of_neg (by simpa using hbus), List.filter_nil,
        List.append_nil]
    rw [if_neg hbus, joined, joined, hfilter]

theorem ne_nil_of_mem_records {lines : List Text} {r : Text × Text} (hr : r ∈ records h lines) :
    r.1 ≠ [] := by
  have hkept := (List.mem_filter.mp hr).2
  intro hnil
  simp [Skipped, hnil] at hkept

theorem records_snoc (lines : List Text) (line : Text) :
    records h (lines ++ [line]) = records h lines ++
      if Skipped (readMotor h line).1 then [] else [readMotor h line] := by
  unfold records
  rw [List.map_append, List.filter_append, List.map_singleton]
  congr 1
  by_cases hskip : Skipped (readMotor h line).1
  · rw [List.filter_cons_of_neg (by simpa using hskip), List.filter_nil, if_pos hskip]
  · rw [List.filter_cons_of_pos (by simpa using hskip), List.filter_nil, if_neg hskip]

/-- One round of the loop. -/
theorem addMotor_of_joined {busMap : BusMap} {lines : List Text}
    (hget : ∀ bus : Text, busMap[bus]? = joined (records h lines) bus) (line : Text) :
    (addMotor h busMap line = none ∧ ∃ r ∈ records h (lines ++ [line]), r.2 = []) ∨
    ∃ busMap', addMotor h busMap line = some busMap' ∧
      ((∀ r ∈ records h lines, r.2 ≠ []) → ∀ r ∈ records h (lines ++ [line]), r.2 ≠ []) ∧
      ∀ bus : Text, busMap'[bus]? = joined (records h (lines ++ [line])) bus := by
  rw [addMotor_eq, records_snoc]
  by_cases hskip : Skipped (readMotor h line).1
  · rw [if_pos hskip, if_pos hskip, List.append_nil]
    exact .inr ⟨busMap, rfl, id, hget⟩
  · rw [if_neg hskip, if_neg hskip]
    by_cases hempty : (readMotor h line).2 = []
    · rw [if_pos hempty]
      exact .inl ⟨rfl, readMotor h line, by simp, hempty⟩
    · rw [if_neg hempty]
      refine .inr ⟨_, rfl, fun hbuses => ?_, fun bus => ?_⟩
      · simpa [or_imp, forall_and, hempty] using hbuses
      · rw [getElem?_insert, hget, hget, joined_snoc fun r hr => ne_nil_of_mem_records hr]
        by_cases hbus : (readMotor h line).2 = bus
        · rw [if_pos hbus, if_pos hbus, hbus]
        · rw [if_neg hbus, if_neg hbus]

/-- **The first loop**: it stops at a pair without a bus, or has the ids of each bus in the end. -/
theorem foldlM_addMotor (lines : List Text) :
    (lines.foldlM (addMotor h) ∅ = none ∧ ∃ r ∈ records h lines, r.2 = []) ∨
    ∃ busMap, lines.foldlM (addMotor h) ∅ = some busMap ∧ (∀ r ∈ records h lines, r.2 ≠ []) ∧
      ∀ bus : Text, busMap[bus]? = joined (records h lines) bus := by
  -- From the end: a round adds the last line to what the rounds before it have kept.
  induction lines using List.reverseRecOn with
  | nil =>
    refine .inr ⟨∅, rfl, by simp [records], fun bus => ?_⟩
    simp [records, joined]
  | append_singleton lines line ih =>
    rw [List.foldlM_append]
    rcases ih with ⟨hnone, r, hr, hbus⟩ | ⟨busMap, hsome, hbuses, hget⟩
    · rw [hnone, records_snoc]
      exact .inl ⟨rfl, r, List.mem_append_left _ hr, hbus⟩
    · have hround : (lines.foldlM (addMotor h) ∅ >>= fun busMap =>
          [line].foldlM (addMotor h) busMap) = addMotor h busMap line := by
        rw [hsome]
        simp
      rw [hround]
      refine (addMotor_of_joined hget line).imp_right ?_
      rintro ⟨busMap', hadd, hkept, hget'⟩
      exact ⟨busMap', hadd, hkept hbuses, hget'⟩

/-! ## The pairs of a file -/

def fillerRecords (h : Host) (f : Filler) : List (Text × Text) :=
  if f.LikeEntry ∧ ¬ Skipped (readMotor h f.text).1 then [readMotor h f.text] else []

def lineRecords (h : Host) : MotorLine → List (Text × Text)
  | .filler f => fillerRecords h f
  | .entry e => [(e.id.text, e.bus.text)]

theorem records_append (ls ls' : List Text) :
    records h (ls ++ ls') = records h ls ++ records h ls' := by
  simp [records]

theorem records_cons (l : Text) (ls : List Text) :
    records h (l :: ls) =
      (if Skipped (readMotor h l).1 then [] else [readMotor h l]) ++ records h ls := by
  have hone := records_snoc (h := h) [] l
  rw [← List.singleton_append, records_append]
  exact congrArg (· ++ records h ls) hone

theorem records_fillers (fs : List Filler) :
    records h ((fs.map Filler.text).filter isMotorLine) = fs.flatMap (fillerRecords h) := by
  induction fs with
  | nil => rfl
  | cons f fs ih =>
    rw [List.map_cons, List.flatMap_cons, ← ih, fillerRecords]
    by_cases hlike : f.LikeEntry
    · rw [List.filter_cons_of_pos ((isMotorLine_filler f).mpr hlike), records_cons]
      by_cases hskip : Skipped (readMotor h f.text).1
      · rw [if_pos hskip, if_neg fun hkept => hkept.2 hskip]
      · rw [if_neg hskip, if_pos ⟨hlike, hskip⟩]
    · rw [List.filter_cons_of_neg (mt (isMotorLine_filler f).mp hlike),
        if_neg fun hkept => hlike hkept.1, List.nil_append]

theorem not_skipped_numeral (n : Numeral) : ¬ Skipped n.text := by
  rintro (hnil | hkey)
  · exact n.text_ne_nil hnil
  · have hm : 'm' ∈ n.text := hkey ▸ List.mem_cons_self
    exact n.notMem (by decide) hm

theorem records_body {indent : Nat} (hindent : 0 < indent) (body : List MotorLine) :
    records h ((body.map (MotorLine.text indent)).filter isMotorLine) =
      body.flatMap (lineRecords h) := by
  induction body with
  | nil => rfl
  | cons line body ih =>
    rw [List.map_cons, List.flatMap_cons, ← ih]
    cases line with
    | filler f =>
      have hone := records_fillers (h := h) [f]
      rw [List.map_singleton, List.flatMap_singleton] at hone
      show records h ((f.text :: body.map _).filter isMotorLine) = fillerRecords h f ++ _
      rw [← hone, ← records_append, ← List.filter_append]
      rfl
    | entry e =>
      show records h ((e.text indent :: body.map _).filter isMotorLine) = _
      rw [List.filter_cons_of_pos (isMotorLine_entry hindent e), records_cons,
        readMotor_entry hindent, if_neg (not_skipped_numeral e.id)]
      rfl

/-- **What the first loop keeps of a file.** -/
theorem records_text (f : MotorYaml) :
    records h (motorLines f.text) =
      f.before.flatMap (fillerRecords h) ++ f.body.flatMap (lineRecords h) := by
  rw [motorLines_text, records_append, records_cons, readMotor_header, if_pos (.inr rfl),
    List.nil_append, records_fillers, records_body f.indent_pos]

/-- What is kept of a comment. -/
theorem mem_fillerRecords {f : Filler} {r : Text × Text} (hr : r ∈ fillerRecords h f) :
    f.LikeEntry ∧ ¬ Skipped (readMotor h f.text).1 ∧ r = readMotor h f.text ∧ '#' ∈ r.1 := by
  unfold fillerRecords at hr
  split at hr
  · rename_i hkept
    obtain rfl := List.mem_singleton.mp hr
    refine ⟨hkept.1, hkept.2, rfl, ?_⟩
    cases f with
    | blank b => exact absurd hkept.1 id
    | comment indent c =>
      rcases readMotor_comment (h := h) indent.white hkept.1.1 hkept.1.2 with hnil | hmem
      · exact absurd (.inl hnil) hkept.2
      · exact hmem
  · cases hr

theorem mem_records_text_iff {f : MotorYaml} {r : Text × Text} :
    r ∈ records h (motorLines f.text) ↔
      (∃ e ∈ f.entries, r = (e.id.text, e.bus.text)) ∨
        ∃ filler ∈ f.fillers, r ∈ fillerRecords h filler := by
  rw [records_text, List.mem_append, List.mem_flatMap, List.mem_flatMap]
  constructor
  · rintro (⟨filler, hfiller, hr⟩ | ⟨line, hline, hr⟩)
    · exact .inr ⟨filler, List.mem_append_left _ hfiller, hr⟩
    · cases line with
      | filler filler =>
        have hmem : filler ∈ f.body.filterMap MotorLine.filler? :=
          List.mem_filterMap.mpr ⟨.filler filler, hline, rfl⟩
        exact .inr ⟨filler, List.mem_append_right _ hmem, hr⟩
      | entry e =>
        exact .inl ⟨e, List.mem_filterMap.mpr ⟨.entry e, hline, rfl⟩, List.mem_singleton.mp hr⟩
  · rintro (⟨e, he, rfl⟩ | ⟨filler, hfiller, hr⟩)
    · obtain ⟨line, hline, heq⟩ := List.mem_filterMap.mp he
      cases line with
      | filler filler => cases heq
      | entry e' =>
        cases heq
        exact .inr ⟨.entry e, hline, List.mem_singleton_self _⟩
    · rcases List.mem_append.mp hfiller with hfiller | hfiller
      · exact .inl ⟨filler, hfiller, hr⟩
      · obtain ⟨line, hline, heq⟩ := List.mem_filterMap.mp hfiller
        cases line with
        | filler filler' =>
          cases heq
          exact .inr ⟨.filler filler, hline, hr⟩
        | entry e => cases heq

/-- **But for the comments these are the entries.** -/
theorem filter_records (f : MotorYaml) :
    (records h (motorLines f.text)).filter (fun r => '#' ∉ r.1) =
      f.entries.map fun e => (e.id.text, e.bus.text) := by
  have hfiller (filler : Filler) :
      (fillerRecords h filler).filter (fun r => '#' ∉ r.1) = [] := by
    rw [List.filter_eq_nil_iff]
    intro r hr
    simpa using (mem_fillerRecords hr).2.2.2
  have hbefore : (f.before.flatMap (fillerRecords h)).filter (fun r => '#' ∉ r.1) = [] := by
    rw [List.filter_flatMap]
    exact List.flatMap_eq_nil_iff.mpr fun filler _ => hfiller filler
  rw [records_text, List.filter_append, hbefore, List.nil_append, MotorYaml.entries]
  induction f.body with
  | nil => rfl
  | cons line body ih =>
    rw [List.flatMap_cons, List.filter_append, ih]
    cases line with
    | filler filler =>
      show (fillerRecords h filler).filter _ ++ _ = _
      rw [hfiller]
      rfl
    | entry e =>
      have hid : '#' ∉ e.id.text := e.id.notMem (by decide)
      show [(e.id.text, e.bus.text)].filter _ ++ _ = _
      rw [List.filter_cons_of_pos (by simpa using hid)]
      rfl

/-- A bus that no comment is read as has its entries only. -/
theorem joined_of_clean {f : MotorYaml} {bus : Text}
    (hclean : ∀ r ∈ records h (motorLines f.text), r.2 = bus → '#' ∉ r.1) :
    joined (records h (motorLines f.text)) bus =
      joined (f.entries.map fun e => (e.id.text, e.bus.text)) bus := by
  have hfilter : (records h (motorLines f.text)).filter (·.2 = bus) =
      (f.entries.map fun e => (e.id.text, e.bus.text)).filter (·.2 = bus) := by
    rw [← filter_records (h := h), List.filter_filter]
    refine List.filter_congr fun r hr => ?_
    by_cases hbus : r.2 = bus
    · simp [hbus, hclean r hr hbus]
    · simp [hbus]
  unfold joined
  rw [hfilter]

/-- The ids of a bus, of entries. -/
theorem joined_entries (es : List MotorEntry) (bus : Text) :
    joined (es.map fun e => (e.id.text, e.bus.text)) bus =
      if es.filter (·.bus.text = bus) = [] then none
      else some ([','].intercalate ((es.filter (·.bus.text = bus)).map fun e => e.id.text)) := by
  have hfilter : (es.map fun e => (e.id.text, e.bus.text)).filter (·.2 = bus) =
      (es.filter (·.bus.text = bus)).map fun e => (e.id.text, e.bus.text) := by
    rw [List.filter_map]
    rfl
  unfold joined
  rw [hfilter]
  simp only [List.map_eq_nil_iff, List.map_map, Function.comp_def]

/-! ## The words of the second loop -/

theorem fields_printKeys (busMap : BusMap) :
    fields (printKeys busMap) = busMap.keys.flatMap fields := by
  unfold printKeys
  split
  · rename_i hnil
    rw [hnil]
    rfl
  · exact fields_unlines _

/-- They are the words of the keys, in some order. -/
theorem buses_perm (busMap : BusMap) :
    (buses h busMap).Perm ((busMap.keys.flatMap fields).flatMap h.glob) := by
  have hsort := (h.sortN_perm (linesOf (printKeys busMap))).flatMap_right fields
  unfold buses
  rw [fields_substituted, fields_unlines, ← fields_printKeys, ← flatMap_fields_linesOf]
  exact hsort.flatMap_right h.glob

theorem group_ne_nil (busMap : BusMap) (bus : Text) : group busMap bus ≠ [] := by simp [group]

/-- The second loop joins the groups. -/
theorem foldl_addGroup (busMap : BusMap) (bs : List Text) :
    bs.foldl (addGroup busMap) [] = [';'].intercalate (bs.map (group busMap)) := by
  induction bs using List.reverseRecOn with
  | nil => rfl
  | append_singleton bs b ih =>
    rw [List.foldl_append, ih, List.map_append, List.map_singleton, List.foldl_cons, List.foldl_nil,
      addGroup]
    by_cases hnil : bs = []
    · simp [hnil]
    · have hmap : bs.map (group busMap) ≠ [] := by simpa using hnil
      have hne : [';'].intercalate (bs.map (group busMap)) ≠ [] :=
        intercalate_ne_nil hmap (by simpa using fun b _ => group_ne_nil busMap b)
      rw [if_neg hne, intercalate_snoc hmap]

end RobotFramework.Setup

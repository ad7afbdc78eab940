import RobotFramework.Setup.Encoding

/-!
# The list of `get_motor_ids`

Its lines are those with a colon that do not begin with `#` and nowhere hold `motorMap`. The list
can be read if all of them are entries; then it names the entries whose comment does not hold
`motorMap` (`motorIds_iff`).
-/

namespace RobotFramework.Setup

open Cxx Shell Lines

/-! ## The list -/

theorem newline_notMem_column (line : Text) : '\n' ∉ column line := by
  intro hmem
  have hfirst : '\n' ∈ firstField line := List.mem_of_mem_filter hmem
  unfold firstField at hfirst
  cases hfields : fields line with
  | nil =>
    rw [hfields] at hfirst
    cases hfirst
  | cons w ws =>
    rw [hfields] at hfirst
    have hw : w ∈ fields line := hfields ▸ List.mem_cons_self
    exact absurd (not_isIfs_of_mem_fields hw _ hfirst) (by decide)

/-- `tr '\n' ','` of lines -/
theorem map_unlines {ls : List Text} (h : ∀ l ∈ ls, '\n' ∉ l) :
    (unlines ls).map (fun c => if c = '\n' then ',' else c) = terminated ',' ls := by
  rw [unlines, terminated, terminated, List.map_flatMap]
  refine List.flatMap_congr fun l hl => ?_
  have hself : l.map (fun c => if c = '\n' then ',' else c) = l := by
    have hkept : ∀ c ∈ l, (if c = '\n' then ',' else c) = c := fun c hc =>
      if_neg fun heq : c = '\n' => h l hl (heq ▸ hc)
    rw [List.map_congr_left hkept, List.map_id']
  rw [List.map_append, hself]
  rfl

theorem dropComma_terminated (ls : List Text) :
    dropComma (terminated ',' ls) = [','].intercalate ls := by
  cases ls using List.reverseRecOn with
  | nil => rfl
  | append_singleton ls l =>
    have hlast : terminated ',' (ls ++ [l]) = terminated ',' ls ++ l ++ [','] := by
      simp [terminated]
    rw [hlast, dropComma, if_pos (by simp), List.dropLast_concat, intercalate_concat]

theorem getMotorIds_eq (text : Text) :
    getMotorIds (some text) = [','].intercalate ((idLines text).map column) := by
  have hcolumns : ∀ l ∈ (idLines text).map column, '\n' ∉ l := by
    rw [List.forall_mem_map]
    exact fun line _ => newline_notMem_column line
  rw [getMotorIds, map_unlines hcolumns, dropComma_terminated]

/-! ## Which lines are left -/

/-- The key of the map cannot reach into a text that has none of its characters. -/
theorem infix_append_iff {key u v : Text} (hne : key ≠ []) (hu : ∀ c ∈ u, c ∉ key) :
    key <:+: u ++ v ↔ key <:+: v := by
  induction u with
  | nil => rfl
  | cons c u ih =>
    have hprefix : ¬ key <+: c :: (u ++ v) := by
      intro hprefix
      obtain ⟨d, key, rfl⟩ := List.exists_cons_of_ne_nil hne
      obtain ⟨rfl, -⟩ := List.cons_prefix_cons.mp hprefix
      exact hu d List.mem_cons_self List.mem_cons_self
    rw [List.cons_append, List.infix_cons_iff, or_iff_right hprefix]
    exact ih fun d hd => hu d (List.mem_cons_of_mem _ hd)

/-- The comment of the entry holds the key of the map. -/
def Named (e : MotorEntry) : Prop := ∃ c ∈ e.lineEnd.comment, motorMapKey <:+: c.text

instance (e : MotorEntry) : Decidable (Named e) :=
  inferInstanceAs (Decidable (∃ c ∈ e.lineEnd.comment, motorMapKey <:+: c.text))

theorem White.notMem_key {t : Text} (ht : White t) : ∀ c ∈ t, c ∉ motorMapKey := by
  intro c hc
  rcases ht c hc with rfl | rfl <;> decide

theorem notMem_key_numeral (n : Numeral) : ∀ c ∈ n.text, c ∉ motorMapKey := by
  intro c hc hmem
  have hkey : ∀ d ∈ motorMapKey, d.isDigit = false ∧ d ≠ '-' ∧ d ≠ '+' := by decide
  exact n.notMem (hkey c hmem) hc

theorem infix_entry_iff (indent : Nat) (e : MotorEntry) :
    motorMapKey <:+: e.text indent ↔ Named e := by
  have hne : motorMapKey ≠ [] := by decide
  have hcons {c : Char} (hc : c ∉ motorMapKey) {t : Text} :
      motorMapKey <:+: c :: t ↔ motorMapKey <:+: t :=
    infix_append_iff (u := [c]) hne (by simpa using hc)
  have hindent : ∀ c ∈ List.replicate indent ' ', c ∉ motorMapKey := by
    intro c hc
    rw [(List.mem_replicate.mp hc).2]
    decide
  rw [MotorEntry.text, infix_append_iff hne hindent, infix_append_iff hne (notMem_key_numeral _),
    hcons (by decide), infix_append_iff hne (White.notMem_key e.gap.white),
    infix_append_iff hne (notMem_key_numeral _), LineEnd.text,
    infix_append_iff hne (White.notMem_key e.lineEnd.blanks.white)]
  unfold Named
  cases e.lineEnd.comment with
  | none => simp [hne]
  | some c => simp [hcons (c := '#') (by decide)]

theorem column_entry {indent : Nat} (e : MotorEntry) : column (e.text indent) = e.id.text := by
  obtain ⟨d, gap, hgap⟩ := List.exists_cons_of_ne_nil e.gap_ne_nil
  have hd : isIfs d = true := e.gap.white.isIfs d (hgap ▸ List.mem_cons_self)
  have hindent : ∀ c ∈ List.replicate indent ' ', isIfs c = true := by
    intro c hc
    rw [(List.mem_replicate.mp hc).2]
    rfl
  have hword : ∀ c ∈ e.id.text ++ [':'], isIfs c = false := by
    rw [List.forall_mem_append]
    exact ⟨fun c hc => isIfs_of_isPlain (e.id.isPlain c hc), by decide⟩
  -- The colon is part of the first word, since it is white space that follows it.
  have hline : e.id.text ++ ':' :: (e.gap.text ++ (e.bus.text ++ e.lineEnd.text)) =
      (e.id.text ++ [':']) ++ d :: (gap ++ (e.bus.text ++ e.lineEnd.text)) := by
    simp [hgap]
  have hself : e.id.text.filter (· ≠ ':') = e.id.text := by
    rw [List.filter_eq_self]
    intro c hc
    have hcolon : ':' ∉ e.id.text := e.id.notMem (by decide)
    simpa using fun heq : c = ':' => hcolon (heq ▸ hc)
  rw [column, firstField, MotorEntry.text, fields_append_left hindent, hline,
    fields_append_cons _ _ hd, fields_of_plain (by simp) hword]
  show (e.id.text ++ [':']).filter (· ≠ ':') = _
  rw [List.filter_append, hself]
  simp

theorem column_filler {f : Filler} (hf : f.LikeEntry) : '#' ∈ column f.text := by
  cases f with
  | blank b => exact absurd hf id
  | comment indent c =>
    obtain ⟨w, ws, hfields⟩ := exists_fields_cons (c := '#') rfl c.text
    have hfirst : firstField (indent.text ++ '#' :: c.text) = '#' :: w := by
      rw [firstField, fields_append_left indent.white.isIfs, hfields]
      rfl
    show '#' ∈ (firstField (indent.text ++ '#' :: c.text)).filter (· ≠ ':')
    rw [hfirst]
    simp

/-! ## The list of a file -/

def isIdLine (line : Text) : Bool := isMotorLine line && !decide (motorMapKey <:+: line)

theorem isIdLine_iff {line : Text} :
    isIdLine line = true ↔ isMotorLine line = true ∧ ¬ motorMapKey <:+: line := by
  simp [isIdLine]

theorem idLines_text (f : MotorYaml) : idLines f.text = f.lines.filter isIdLine := by
  rw [idLines, motorLines, List.filter_filter, ← f.filter_linesOf_text (p := isIdLine) rfl]
  refine List.filter_congr fun line _ => ?_
  rw [isIdLine, Bool.and_comm]

theorem isIdLine_filler {f : Filler} (hf : f.LikeEntry → motorMapKey <:+: f.text) :
    ¬ isIdLine f.text = true := by
  rw [isIdLine_iff, isMotorLine_filler]
  exact fun h => h.2 (hf h.1)

theorem isIdLine_header (f : MotorYaml) : ¬ isIdLine f.header = true := by
  rw [isIdLine_iff]
  exact fun h => h.2 List.infix_append_left

theorem isIdLine_entry {indent : Nat} (hindent : 0 < indent) (e : MotorEntry) :
    isIdLine (e.text indent) = true ↔ ¬ Named e := by
  rw [isIdLine_iff, infix_entry_iff, and_iff_right (isMotorLine_entry hindent e)]

/-- Every comment with a colon holds the key of the map, if it is indented. -/
def CommentsNamed (f : MotorYaml) : Prop :=
  ∀ filler ∈ f.fillers, filler.LikeEntry → motorMapKey <:+: filler.text

theorem filter_body {indent : Nat} (hindent : 0 < indent) {body : List MotorLine}
    (h : ∀ filler ∈ body.filterMap MotorLine.filler?, ¬ isIdLine filler.text = true) :
    (body.map (MotorLine.text indent)).filter isIdLine =
      ((body.filterMap MotorLine.entry?).filter (¬ Named ·)).map (MotorEntry.text indent) := by
  induction body with
  | nil => rfl
  | cons line body ih =>
    cases line with
    | filler filler =>
      obtain ⟨hfiller, hbody⟩ :
          ¬ isIdLine filler.text = true ∧
            ∀ filler ∈ body.filterMap MotorLine.filler?, ¬ isIdLine filler.text = true :=
        List.forall_mem_cons.mp h
      exact (List.filter_cons_of_neg hfiller).trans (ih hbody)
    | entry e =>
      have hentry := isIdLine_entry hindent e
      show (e.text indent :: body.map _).filter isIdLine =
        ((e :: body.filterMap MotorLine.entry?).filter _).map _
      by_cases hnamed : Named e
      · rw [List.filter_cons_of_neg (mt hentry.mp (not_not_intro hnamed)),
          List.filter_cons_of_neg (by simpa using hnamed), ih h]
      · rw [List.filter_cons_of_pos (hentry.mpr hnamed),
          List.filter_cons_of_pos (by simpa using hnamed), List.map_cons, ih h]

theorem idLines_of_commentsNamed {f : MotorYaml} (h : CommentsNamed f) :
    idLines f.text = (f.entries.filter (¬ Named ·)).map (MotorEntry.text f.indent) := by
  have hbefore : (f.before.map Filler.text).filter isIdLine = [] := by
    rw [List.filter_eq_nil_iff, List.forall_mem_map]
    exact fun filler hmem => isIdLine_filler (h filler (List.mem_append_left _ hmem))
  have hbody := filter_body f.indent_pos fun filler hmem =>
    isIdLine_filler (h filler (List.mem_append_right _ hmem))
  rw [idLines_text, MotorYaml.lines, List.filter_append, hbefore, List.nil_append,
    List.filter_cons_of_neg (isIdLine_header f), hbody, MotorYaml.entries]

theorem mem_lines_filler {f : MotorYaml} {filler : Filler} (h : filler ∈ f.fillers) :
    filler.text ∈ f.lines := by
  rw [MotorYaml.lines, List.mem_append, List.mem_cons]
  rcases List.mem_append.mp h with h | h
  · exact .inl (List.mem_map_of_mem h)
  · obtain ⟨line, hline, heq⟩ := List.mem_filterMap.mp h
    cases line with
    | filler filler' =>
      cases heq
      exact .inr (.inr (List.mem_map_of_mem (f := MotorLine.text f.indent) hline))
    | entry e => cases heq

theorem substituted_getMotorIds (text : Text) :
    substituted (getMotorIds (some text)) = getMotorIds (some text) := by
  rw [getMotorIds_eq]
  refine substituted_of_last fun hmem => ?_
  rcases mem_intercalate hmem with heq | ⟨w, hw, hmem⟩
  · cases heq
  · obtain ⟨line, -, rfl⟩ := List.mem_map.mp hw
    exact newline_notMem_column line hmem

theorem decodeIdList_of_commentsNamed {f : MotorYaml} (hcomments : CommentsNamed f) :
    decodeIdList ([','].intercalate ((idLines f.text).map column)) =
      some ((f.entries.filter (¬ Named ·)).map fun e => e.id.value) := by
  have hcolumns : (idLines f.text).map column =
      ((f.entries.filter (¬ Named ·)).map MotorEntry.id).map Numeral.text := by
    rw [idLines_of_commentsNamed hcomments, List.map_map, List.map_map]
    exact List.map_congr_left fun e _ => column_entry e
  rw [hcolumns, decodeIdList_intercalate, concatM_decodeIds, List.map_map]
  · rfl
  · rw [List.forall_mem_map]
    exact fun n _ => n.text_ne_nil

/-- Of a comment that is left the column is no number. -/
theorem commentsNamed_of_decodeIdList {f : MotorYaml}
    (hread : (decodeIdList ([','].intercalate ((idLines f.text).map column))).isSome = true) :
    CommentsNamed f := by
  intro filler hfiller hlike
  by_contra hkey
  have hline : filler.text ∈ idLines f.text := by
    rw [idLines_text, List.mem_filter, isIdLine_iff, isMotorLine_filler]
    exact ⟨mem_lines_filler hfiller, hlike, hkey⟩
  exact hash_notMem_idList hread
    (mem_intercalate_of_mem (List.mem_map_of_mem hline) (column_filler hlike))

/-- **The list names the motors** exactly if `motorMap` is in every comment that looks like an
entry, and in none behind one. -/
theorem motorIds_iff (f : MotorYaml) :
    (∃ ids, decodeIdList (substituted (getMotorIds (some f.text))) = some ids ∧
      ids.Perm (f.entries.map fun e => e.id.value)) ↔
      CommentsNamed f ∧ ∀ e ∈ f.entries, ¬ Named e := by
  rw [substituted_getMotorIds, getMotorIds_eq]
  constructor
  · rintro ⟨ids, hids, hperm⟩
    have hcomments : CommentsNamed f := commentsNamed_of_decodeIdList (by rw [hids]; rfl)
    refine ⟨hcomments, fun e he hnamed => ?_⟩
    -- The ids that are left are all of them, so no entry is filtered out.
    rw [decodeIdList_of_commentsNamed hcomments] at hids
    obtain rfl := Option.some.inj hids
    have hlength := hperm.length_eq
    rw [List.length_map, List.length_map, List.length_filter_eq_length_iff] at hlength
    exact absurd hnamed (by simpa using hlength e he)
  · rintro ⟨hcomments, hnamed⟩
    refine ⟨_, decodeIdList_of_commentsNamed hcomments, ?_⟩
    rw [List.filter_eq_self.mpr (by simpa using hnamed)]

end RobotFramework.Setup

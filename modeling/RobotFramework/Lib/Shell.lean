import Mathlib.Data.List.DropRight
import RobotFramework.Lib.Lines
import RobotFramework.Lib.Stream

/-!
# Text in a shell script

What the usual tools make of the text that a script sends through them: `cut`, `xargs` and the first
column of `awk`; and what `bash` itself does with text, in `read`, in `echo`, when it substitutes a
command and when it splits words.

What depends on the machine is a `Host`: what `/bin/echo` makes of options, how `sort -n` orders
lines and which files a pattern matches. Little of it is needed, and that little is what its fields
say.
-/

namespace Shell

open Cxx Lines

/-! ## Lines -/

/-- The lines of a text, the last of which need not be ended. -/
def linesOf (t : Text) : List Text :=
  if (t.splitOn '\n').getLast? = some [] then (t.splitOn '\n').dropLast else t.splitOn '\n'

/-- Lines, as a tool puts them out. -/
def unlines (ls : List Text) : Text := terminated '\n' ls

theorem linesOf_unlines {ls : List Text} (h : ∀ l ∈ ls, '\n' ∉ l) : linesOf (unlines ls) = ls := by
  unfold linesOf unlines
  rw [splitOn_terminated_iff.mpr h, if_pos (by simp), List.dropLast_concat]

/-- A last line without its end. -/
theorem linesOf_unlines_append {ls : List Text} {l : Text} (h : ∀ l ∈ ls, '\n' ∉ l) (hl : '\n' ∉ l)
    (hne : l ≠ []) : linesOf (unlines ls ++ l) = ls ++ [l] := by
  unfold linesOf unlines
  rw [splitOn_terminated h hl, if_neg (by simpa using hne)]

/-- `$(…)`: the newlines at the end are dropped. -/
def substituted (t : Text) : Text := t.rdropWhile (· == '\n')

theorem substituted_append_newline (t : Text) : substituted (t ++ ['\n']) = substituted t := by
  unfold substituted
  exact List.rdropWhile_concat_pos _ _ _ rfl

theorem substituted_of_last {t : Text} (h : '\n' ∉ t) : substituted t = t := by
  unfold substituted
  rw [List.rdropWhile_eq_self_iff]
  intro hne hlast
  exact h ((beq_iff_eq.mp hlast) ▸ List.getLast_mem hne)

theorem substituted_idem (t : Text) : substituted (substituted t) = substituted t :=
  List.rdropWhile_idempotent _ _

/-- The end of a text decides. -/
theorem substituted_append {s t : Text} (ht : substituted t = t) (hne : t ≠ []) :
    substituted (s ++ t) = s ++ t := by
  unfold substituted at ht ⊢
  rw [List.rdropWhile_eq_self_iff] at ht ⊢
  intro happend
  rw [List.getLast_append_of_right_ne_nil _ _ hne]
  exact ht hne

/-- Nothing but newlines is dropped. -/
theorem mem_substituted {t : Text} {c : Char} (hc : c ∈ t) (hne : c ≠ '\n') :
    c ∈ substituted t := by
  induction t using List.reverseRecOn with
  | nil => cases hc
  | append_singleton t d ih =>
    unfold substituted at ih ⊢
    rw [List.rdropWhile_concat]
    split
    · rename_i hd
      rcases List.mem_append.mp hc with hc | hc
      · exact ih hc
      · rw [List.mem_singleton.mp hc] at hne
        exact absurd (beq_iff_eq.mp hd) hne
    · exact hc

/-! ## Words -/

/-- The default `IFS`, and what separates the fields of `awk`. -/
def isIfs (c : Char) : Bool := c == ' ' || c == '\t' || c == '\n'

/-- The words of a text, as an unquoted expansion is split. -/
def fields (t : Text) : List Text := (t.splitOnP isIfs).filter (· ≠ [])

/-- `awk '{print $1}'`, of a line. -/
def firstField (line : Text) : Text := (fields line).head?.getD []

theorem fields_nil : fields [] = [] := by simp [fields]

theorem fields_append_cons (s t : Text) {c : Char} (hc : isIfs c = true) :
    fields (s ++ c :: t) = fields s ++ fields t := by
  unfold fields
  rw [List.splitOnP_append_cons s t hc, List.filter_append]

theorem fields_of_plain {w : Text} (hne : w ≠ []) (hw : ∀ c ∈ w, isIfs c = false) :
    fields w = [w] := by
  unfold fields
  rw [List.splitOnP_eq_singleton hw, List.filter_cons_of_pos (by simpa using hne), List.filter_nil]

theorem fields_append_left {b : Text} (hb : ∀ c ∈ b, isIfs c = true) (t : Text) :
    fields (b ++ t) = fields t := by
  induction b with
  | nil => rfl
  | cons c b ih =>
    have hcons : c :: b ++ t = [] ++ c :: (b ++ t) := rfl
    rw [hcons, fields_append_cons _ _ (hb c List.mem_cons_self), fields_nil, List.nil_append]
    exact ih fun d hd => hb d (List.mem_cons_of_mem _ hd)

/-- The first word begins where the text does. -/
theorem exists_fields_cons {c : Char} (hc : isIfs c = false) (t : Text) :
    ∃ w ws, fields (c :: t) = (c :: w) :: ws := by
  have hw : ∀ d ∈ c :: t.takeWhile (!isIfs ·), isIfs d = false := by
    rw [List.forall_mem_cons]
    exact ⟨hc, fun d hd => by simpa using List.mem_takeWhile_imp hd⟩
  have hsplit : c :: t = (c :: t.takeWhile (!isIfs ·)) ++ t.dropWhile (!isIfs ·) := by
    rw [List.cons_append, List.takeWhile_append_dropWhile]
  cases hrest : t.dropWhile (!isIfs ·) with
  | nil =>
    rw [hrest, List.append_nil] at hsplit
    refine ⟨t.takeWhile (!isIfs ·), [], ?_⟩
    rw [hsplit, fields_of_plain (List.cons_ne_nil _ _) hw]
  | cons d r =>
    have hd : isIfs d = true := by
      have hhead := List.head?_dropWhile_not (!isIfs ·) t
      rw [hrest] at hhead
      simpa using hhead
    rw [hrest] at hsplit
    refine ⟨t.takeWhile (!isIfs ·), fields r, ?_⟩
    rw [hsplit, fields_append_cons _ _ hd, fields_of_plain (List.cons_ne_nil _ _) hw]
    rfl

theorem fields_unlines (ls : List Text) : fields (unlines ls) = ls.flatMap fields := by
  induction ls with
  | nil => exact fields_nil
  | cons l ls ih =>
    have hcons : unlines (l :: ls) = l ++ '\n' :: unlines ls := by
      simp [unlines, terminated]
    rw [hcons, fields_append_cons _ _ rfl, ih, List.flatMap_cons]

theorem fields_substituted (t : Text) : fields (substituted t) = fields t := by
  induction t using List.reverseRecOn with
  | nil => rfl
  | append_singleton t c ih =>
    -- A newline at the end is dropped, and separates no word from another.
    by_cases hc : c = '\n'
    · subst hc
      rw [substituted_append_newline, ih, fields_append_cons _ _ rfl, fields_nil, List.append_nil]
    · unfold substituted
      rw [List.rdropWhile_concat, if_neg (by simpa using hc)]

theorem fields_intercalate {sep : Char} (hsep : isIfs sep = true) (ls : List Text) :
    fields ([sep].intercalate ls) = ls.flatMap fields := by
  induction ls with
  | nil => exact fields_nil
  | cons l ls ih =>
    cases ls with
    | nil => simp
    | cons l' ls =>
      rw [List.intercalate_cons_cons, List.append_assoc, List.singleton_append,
        fields_append_cons _ _ hsep, ih]
      rfl

/-- The words of a text are those of its lines. -/
theorem flatMap_fields_linesOf (t : Text) : (linesOf t).flatMap fields = fields t := by
  have hsplit : (t.splitOn '\n').flatMap fields = fields t := by
    have hnewline : isIfs '\n' = true := rfl
    rw [← fields_intercalate hnewline, List.intercalate_splitOn]
  unfold linesOf
  split
  · rename_i hlast
    have hconcat : (t.splitOn '\n').dropLast ++ [[]] = t.splitOn '\n' :=
      List.dropLast_append_getLast? _ hlast
    rw [← hsplit, ← hconcat, List.flatMap_append]
    simp [fields_nil]
  · exact hsplit

theorem not_isIfs_of_mem_fields {t w : Text} (hw : w ∈ fields t) : ∀ c ∈ w, isIfs c = false :=
  sep_of_mem_splitOnP (List.mem_of_mem_filter hw)

/-! ## `xargs` -/

/-- What opens and closes a quotation for `xargs`: the two quotation marks. -/
def isQuote (c : Char) : Bool := c.toNat == 34 || c.toNat == 39

inductive Mode where
  | blank
  | word
  | quote (mark : Char)
  | backslash

/-- What a character does to a word that is not quoted. -/
def Mode.take (c : Char) (word : Text) : Mode × Text :=
  if c = '\\' then (.backslash, word)
  else if isQuote c then (.quote c, word)
  else (.word, word ++ [c])

/-- The arguments that `xargs` makes of its input, until it ends or a line ends within a quotation;
and whether it got to the end. -/
def arguments : Mode → Text → Text → List Text × Bool
  | mode, word, [] =>
    if word = [] then ([], true)
    else match mode with
      | .quote _ => ([], false)
      | _ => ([word], true)
  | .blank, word, c :: t =>
    if isSpace c then arguments .blank word t
    else arguments (Mode.take c word).1 (Mode.take c word).2 t
  | .word, word, c :: t =>
    if isIfs c then (word :: (arguments .blank [] t).1, (arguments .blank [] t).2)
    else arguments (Mode.take c word).1 (Mode.take c word).2 t
  | .quote mark, word, c :: t =>
    if c = '\n' then ([], false)
    else if c = mark then arguments .word word t
    else arguments (.quote mark) (word ++ [c]) t
  | .backslash, word, c :: t => arguments .word (word ++ [c]) t

/-- A character that stands for itself. -/
def isPlain (c : Char) : Bool := !isSpace c && c != '\\' && !isQuote c

theorem isPlain_iff {c : Char} :
    isPlain c = true ↔ isSpace c = false ∧ c ≠ '\\' ∧ isQuote c = false := by
  simp [isPlain, and_assoc]

theorem isSpace_of_isIfs {c : Char} (h : isIfs c = true) : isSpace c = true := by
  simp only [isIfs, Bool.or_eq_true, beq_iff_eq] at h
  rcases h with (rfl | rfl) | rfl <;> decide

theorem isIfs_of_isPlain {c : Char} (h : isPlain c = true) : isIfs c = false := by
  cases hifs : isIfs c with
  | false => rfl
  | true =>
    rw [isPlain_iff, isSpace_of_isIfs hifs] at h
    exact absurd h.1 (by decide)

theorem take_of_isPlain {c : Char} (h : isPlain c = true) (word : Text) :
    Mode.take c word = (.word, word ++ [c]) := by
  obtain ⟨-, hback, hquote⟩ := isPlain_iff.mp h
  rw [Mode.take, if_neg hback, if_neg (by simp [hquote])]

theorem arguments_blank {b : Text} (hb : ∀ c ∈ b, isSpace c = true) (t : Text) :
    arguments .blank [] (b ++ t) = arguments .blank [] t := by
  induction b with
  | nil => rfl
  | cons c b ih =>
    rw [List.cons_append, arguments, if_pos (hb c List.mem_cons_self)]
    exact ih fun d hd => hb d (List.mem_cons_of_mem _ hd)

theorem arguments_word {w : Text} (hw : ∀ c ∈ w, isPlain c = true) (word t : Text) :
    arguments .word word (w ++ t) = arguments .word (word ++ w) t := by
  induction w generalizing word with
  | nil => simp
  | cons c w ih =>
    have hc := hw c List.mem_cons_self
    rw [List.cons_append, arguments, if_neg (by simp [isIfs_of_isPlain hc]), take_of_isPlain hc,
      ih fun d hd => hw d (List.mem_cons_of_mem _ hd)]
    simp

/-- A plain character begins a word. -/
theorem arguments_begin {c : Char} (hc : isPlain c = true) {b : Text}
    (hb : ∀ d ∈ b, isSpace d = true) (t : Text) :
    arguments .blank [] (b ++ c :: t) = arguments .word [c] t := by
  rw [arguments_blank hb, arguments, if_neg (by simp [(isPlain_iff.mp hc).1]), take_of_isPlain hc]
  rfl

/-- A word of plain characters that a blank or a newline follows. -/
theorem arguments_plain {w : Text} (hne : w ≠ []) (hw : ∀ c ∈ w, isPlain c = true) {d : Char}
    (hd : isIfs d = true) (t : Text) :
    arguments .blank [] (w ++ d :: t) =
      (w :: (arguments .blank [] t).1, (arguments .blank [] t).2) := by
  obtain ⟨c, w, rfl⟩ := List.exists_cons_of_ne_nil hne
  have hbegin := arguments_begin (hw c List.mem_cons_self) (List.forall_mem_nil _) (w ++ d :: t)
  rw [List.nil_append] at hbegin
  rw [List.cons_append, hbegin, arguments_word fun d hd => hw d (List.mem_cons_of_mem _ hd),
    arguments, if_pos hd]
  rfl

theorem take_spec (c : Char) (word : Text) :
    (Mode.take c word).1 ≠ .blank ∧ word <+: (Mode.take c word).2 := by
  unfold Mode.take
  split_ifs
  · exact ⟨by simp, List.prefix_rfl⟩
  · exact ⟨by simp, List.prefix_rfl⟩
  · exact ⟨by simp, List.prefix_append _ _⟩

/-- An argument that has been begun only grows. -/
theorem prefix_arguments {mode : Mode} {word t : Text} (hmode : mode ≠ .blank) :
    ∀ a ∈ (arguments mode word t).1.head?, word <+: a := by
  -- Whatever its mode, a character ends the word or goes behind it.
  induction t generalizing mode word with
  | nil =>
    intro a ha
    unfold arguments at ha
    split at ha
    · cases ha
    · cases mode with
      | quote mark => cases ha
      | blank => exact absurd rfl hmode
      | word =>
        cases ha
        exact List.prefix_rfl
      | backslash =>
        cases ha
        exact List.prefix_rfl
  | cons c t ih =>
    intro a ha
    cases mode with
    | blank => exact absurd rfl hmode
    | word =>
      rw [arguments] at ha
      split at ha
      · cases ha
        exact List.prefix_rfl
      · obtain ⟨htake, hprefix⟩ := take_spec c word
        exact hprefix.trans (ih htake a ha)
    | quote mark =>
      rw [arguments] at ha
      split_ifs at ha
      · cases ha
      · exact ih (by simp) a ha
      · exact (List.prefix_append _ _).trans (ih (by simp) a ha)
    | backslash =>
      rw [arguments] at ha
      exact (List.prefix_append _ _).trans (ih (by simp) a ha)

/-- A line of text makes arguments without a newline, but for one at the end of the last of them. -/
theorem newline_arguments {mode : Mode} {word t : Text} (hword : '\n' ∉ word) (ht : '\n' ∉ t) :
    ∃ args : List Text, (∀ a ∈ args, '\n' ∉ a) ∧
      ((arguments mode word (t ++ ['\n'])).1 = args ∨
        ∃ a : Text, '\n' ∉ a ∧
          (arguments mode word (t ++ ['\n'])).1 = args ++ [a ++ ['\n']]) := by
  -- The newline at the end closes the last word; behind a backslash it is part of it.
  induction t generalizing mode word with
  | nil =>
    cases mode with
    | blank =>
      by_cases hempty : word = []
      · exact ⟨[], by simp, .inl (by simp [arguments, isSpace, hempty])⟩
      · exact ⟨[word], by simpa using hword, .inl (by simp [arguments, isSpace, hempty])⟩
    | word => exact ⟨[word], by simpa using hword, .inl (by simp [arguments, isIfs])⟩
    | quote mark => exact ⟨[], by simp, .inl (by simp [arguments])⟩
    | backslash => exact ⟨[], by simp, .inr ⟨word, hword, by simp [arguments]⟩⟩
  | cons c t ih =>
    obtain ⟨hc, ht⟩ : '\n' ≠ c ∧ '\n' ∉ t := by simpa using ht
    have hsnoc : '\n' ∉ word ++ [c] := by simp [hword, hc]
    have htake : '\n' ∉ (Mode.take c word).2 := by
      unfold Mode.take
      split_ifs
      · exact hword
      · exact hword
      · exact hsnoc
    rw [List.cons_append]
    cases mode with
    | blank =>
      rw [arguments]
      split
      · exact ih hword ht
      · exact ih htake ht
    | word =>
      rw [arguments]
      split
      · obtain ⟨args, hargs, heq⟩ := @ih .blank [] List.not_mem_nil ht
        refine ⟨word :: args, List.forall_mem_cons.mpr ⟨hword, hargs⟩, heq.imp ?_ ?_⟩
        · exact fun heq => by rw [heq]
        · rintro ⟨a, ha, heq⟩
          exact ⟨a, ha, by rw [heq]; rfl⟩
      · exact ih htake ht
    | quote mark =>
      rw [arguments, if_neg (Ne.symm hc)]
      split
      · exact ih hword ht
      · exact ih hsnoc ht
    | backslash =>
      rw [arguments]
      exact ih hsnoc ht

/-! ## The machine -/

/-- The argument may be an option: a minus sign that no digit follows. -/
def isOption : Text → Bool
  | '-' :: c :: _ => !c.isDigit
  | _ => false

/-- What scripts leave to the machine they run on. -/
structure Host where
  /-- `/bin/echo` -/
  echo : List Text → Text
  /-- The lines that `sort -n` is given, in its order. -/
  sortN : List Text → List Text
  /-- Pathname expansion of a word. -/
  glob : Text → List Text
  echo_plain : ∀ args, (∀ arg ∈ args.head?, isOption arg = false) →
    echo args = [' '].intercalate args ++ ['\n']
  sortN_perm : ∀ ls, (sortN ls).Perm ls
  glob_plain : ∀ w : Text, (∀ c ∈ w, c ∉ "*?[\\".toList) → glob w = [w]
  glob_ne_nil : ∀ w, glob w ≠ []

/-- The `echo` of `bash`, of one argument. -/
def echo : Text → Text
  | '-' :: c :: t =>
    if (c :: t).all (· ∈ "neE".toList) then (if 'n' ∈ c :: t then [] else ['\n'])
    else '-' :: c :: t ++ ['\n']
  | t => t ++ ['\n']

/-- `IFS=sep read -r a b`, where `sep` is no white space: `b` is all that stands behind the first
`sep`, without another one at its end that is the only one. -/
def readTwo (sep : Char) (line : Text) : Text × Text :=
  let rest := (line.dropWhile (· ≠ sep)).drop 1
  (line.takeWhile (· ≠ sep),
    if rest.getLast? = some sep ∧ rest.count sep = 1 then rest.dropLast else rest)

/-- `cut -dsep -f1` -/
def cut (sep : Char) (t : Text) : Text := unlines ((linesOf t).map (·.takeWhile (· ≠ sep)))

/-- `xargs`, which hands its arguments to `/bin/echo`: those that are complete even where the input
is not. -/
def Host.xargs (h : Host) (t : Text) : Text :=
  match arguments .blank [] t with
  | ([], false) => []
  | (args, _) => h.echo args

theorem substituted_line {l : Text} (h : '\n' ∉ l) : substituted (l ++ ['\n']) = l := by
  rw [substituted_append_newline, substituted_of_last h]

theorem readTwo_append {sep : Char} {l : Text} (hl : sep ∉ l) (r : Text) :
    readTwo sep (l ++ sep :: r) =
      (l, if r.getLast? = some sep ∧ r.count sep = 1 then r.dropLast else r) := by
  have hne : ∀ c ∈ l, decide (c ≠ sep) = true := fun c hc => by
    simpa using fun heq : c = sep => hl (heq ▸ hc)
  have htake : (l ++ sep :: r).takeWhile (· ≠ sep) = l := by
    rw [List.takeWhile_append_of_pos hne, List.takeWhile_cons_of_neg (by simp), List.append_nil]
  have hdrop : (l ++ sep :: r).dropWhile (· ≠ sep) = sep :: r := by
    rw [List.dropWhile_append_of_pos hne, List.dropWhile_cons_of_neg (by simp)]
  unfold readTwo
  rw [htake, hdrop]
  rfl

theorem echo_of_head {t : Text} (h : t.head? ≠ some '-') : echo t = t ++ ['\n'] := by
  unfold echo
  split
  · exact absurd rfl h
  · rfl

/-- A text with a character that is in no option. -/
theorem echo_of_mem {t : Text} {c : Char} (hc : c ∈ t) (hminus : c ≠ '-')
    (hoption : c ∉ "neE".toList) : echo t = t ++ ['\n'] := by
  unfold echo
  split
  · rename_i d t
    have htail : c ∈ d :: t := (List.mem_cons.mp hc).resolve_left hminus
    rw [if_neg fun hall => hoption (by simpa using List.all_eq_true.mp hall c htail)]
  · rfl

theorem linesOf_newlines {l : Text} (hl : '\n' ∉ l) (k : Nat) :
    linesOf (l ++ List.replicate (k + 1) '\n') = l :: List.replicate k [] := by
  have hlines : l ++ List.replicate (k + 1) '\n' = unlines (l :: List.replicate k []) := by
    simp [unlines, terminated, List.replicate_succ, List.flatMap_replicate]
  rw [hlines, linesOf_unlines]
  intro l' hl'
  rcases List.mem_cons.mp hl' with rfl | hl'
  · exact hl
  · rw [(List.mem_replicate.mp hl').2]
    exact List.not_mem_nil

theorem cut_newlines {sep : Char} {l : Text} (hl : '\n' ∉ l) (k : Nat) :
    cut sep (l ++ List.replicate (k + 1) '\n') =
      l.takeWhile (· ≠ sep) ++ List.replicate (k + 1) '\n' := by
  rw [cut, linesOf_newlines hl]
  simp [unlines, terminated, List.replicate_succ, List.flatMap_replicate]

/-! ## Words through a pipeline -/

theorem intercalate_append_last (sep : Text) (ls : List Text) (l s : Text) :
    sep.intercalate (ls ++ [l ++ s]) = sep.intercalate (ls ++ [l]) ++ s := by
  induction ls with
  | nil => simp
  | cons l' ls ih =>
    rw [List.cons_append, List.cons_append, List.intercalate_cons_of_ne_nil (by simp),
      List.intercalate_cons_of_ne_nil (by simp), ih]
    simp

theorem intercalate_snoc {sep : Char} {ls : List Text} (hne : ls ≠ []) (l : Text) :
    [sep].intercalate (ls ++ [l]) = [sep].intercalate ls ++ sep :: l := by
  induction ls with
  | nil => exact absurd rfl hne
  | cons l' ls ih =>
    cases ls with
    | nil => simp
    | cons l'' ls =>
      rw [List.cons_append, List.intercalate_cons_of_ne_nil (by simp), ih (by simp),
        List.intercalate_cons_cons]
      simp

theorem intercalate_ne_nil {sep : Char} {ls : List Text} (hne : ls ≠ [])
    (hls : ∀ l ∈ ls, l ≠ []) : [sep].intercalate ls ≠ [] := by
  cases ls with
  | nil => exact absurd rfl hne
  | cons l ls =>
    have hl := hls l List.mem_cons_self
    cases ls with
    | nil => simpa using hl
    | cons l' ls => simp [List.intercalate_cons_cons]

variable {h : Host} {w : Text}

/-- A single word goes through `xargs` as it is. -/
theorem Host.xargs_word (hne : w ≠ []) (hw : ∀ c ∈ w, isPlain c = true)
    (hoption : isOption w = false) {pre post : Text} (hpre : ∀ c ∈ pre, isSpace c = true)
    {d : Char} (hd : isIfs d = true) (hpost : ∀ c ∈ post, isSpace c = true) :
    h.xargs (pre ++ (w ++ d :: post)) = w ++ ['\n'] := by
  have hrest : arguments .blank [] post = ([], true) := by
    have hall := arguments_blank hpost []
    rwa [List.append_nil] at hall
  rw [Host.xargs, arguments_blank hpre, arguments_plain hne hw hd, hrest]
  show h.echo [w] = w ++ ['\n']
  rw [h.echo_plain [w] (by simpa using hoption), List.intercalate_singleton]

/-- The arguments of a line, put together again, are a line and newlines. -/
theorem intercalate_arguments {mode : Mode} {word t : Text} (hword : '\n' ∉ word) (ht : '\n' ∉ t) :
    ∃ (l : Text) (k : Nat), '\n' ∉ l ∧
      [' '].intercalate (arguments mode word (t ++ ['\n'])).1 = l ++ List.replicate k '\n' := by
  have hjoin : ∀ args : List Text, (∀ a ∈ args, '\n' ∉ a) → '\n' ∉ [' '].intercalate args := by
    intro args hargs hmem
    rcases mem_intercalate hmem with heq | ⟨a, ha, hmem⟩
    · cases heq
    · exact hargs a ha hmem
  obtain ⟨args, hargs, heq | ⟨a, ha, heq⟩⟩ := @newline_arguments mode word t hword ht
  · exact ⟨_, 0, hjoin args hargs, by rw [heq]; simp⟩
  · refine ⟨[' '].intercalate (args ++ [a]), 1, hjoin _ ?_, ?_⟩
    · simpa [or_imp, forall_and] using ⟨hargs, ha⟩
    · rw [heq, intercalate_append_last]
      rfl

/-- They begin with the character that the first one began with, if there is any. -/
theorem intercalate_arguments_word {sep : Char} (hsep : isPlain sep = true) {t : Text}
    (ht : '\n' ∉ t) :
    (arguments .word [sep] (t ++ ['\n'])).1 = [] ∨
      (arguments .word [sep] (t ++ ['\n'])).1 ≠ [] ∧ ∃ (r : Text) (k : Nat), '\n' ∉ r ∧
        [' '].intercalate (arguments .word [sep] (t ++ ['\n'])).1 =
          sep :: r ++ List.replicate k '\n' := by
  have hnewline : '\n' ∉ [sep] := by
    rw [List.mem_singleton]
    rintro rfl
    exact absurd hsep (by decide)
  have hhead : ∀ a ∈ (arguments .word [sep] (t ++ ['\n'])).1.head?, [sep] <+: a :=
    prefix_arguments (by simp)
  obtain ⟨l, k, hl, hjoin⟩ := @intercalate_arguments .word [sep] t hnewline ht
  rw [hjoin]
  cases hargs : (arguments .word [sep] (t ++ ['\n'])).1 with
  | nil => exact .inl rfl
  | cons a args =>
    rw [hargs] at hhead hjoin
    obtain ⟨r, hr⟩ := hhead a rfl
    have hfirst : ([' '].intercalate (a :: args)).head? = some sep := by
      rw [← hr]
      cases args <;> simp
    rw [hjoin] at hfirst
    refine .inr ⟨List.cons_ne_nil _ _, ?_⟩
    cases l with
    | nil =>
      cases k with
      | zero => cases hfirst
      | succ k =>
        cases hfirst
        exact absurd (List.mem_singleton_self _) hnewline
    | cons c l =>
      obtain rfl : c = sep := by simpa using hfirst
      exact ⟨l, k, fun hmem => hl (List.mem_cons_of_mem _ hmem), rfl⟩

/-- What `xargs` makes of a line whose second word begins with `sep`. -/
theorem Host.xargs_words (hne : w ≠ []) (hw : ∀ c ∈ w, isPlain c = true)
    (hoption : isOption w = false) {sep : Char} (hsep : isPlain sep = true) {pre post t : Text}
    (hpre : ∀ c ∈ pre, isSpace c = true) {d : Char} (hd : isIfs d = true)
    (hpost : ∀ c ∈ post, isSpace c = true) (ht : '\n' ∉ t) :
    h.xargs (pre ++ (w ++ d :: (post ++ sep :: (t ++ ['\n'])))) = w ++ ['\n'] ∨
      ∃ (r : Text) (k : Nat), '\n' ∉ r ∧
        h.xargs (pre ++ (w ++ d :: (post ++ sep :: (t ++ ['\n'])))) =
          w ++ [' '] ++ sep :: r ++ List.replicate (k + 1) '\n' := by
  have hecho : h.xargs (pre ++ (w ++ d :: (post ++ sep :: (t ++ ['\n'])))) =
      [' '].intercalate (w :: (arguments .word [sep] (t ++ ['\n'])).1) ++ ['\n'] := by
    rw [Host.xargs, arguments_blank hpre, arguments_plain hne hw hd, arguments_begin hsep hpost]
    exact h.echo_plain _ (by simpa using hoption)
  rw [hecho]
  rcases intercalate_arguments_word hsep ht with hnil | ⟨hargs, r, k, hr, hjoin⟩
  · exact .inl (by rw [hnil, List.intercalate_singleton])
  · refine .inr ⟨r, k, hr, ?_⟩
    rw [List.intercalate_cons_of_ne_nil hargs, hjoin, List.replicate_succ']
    simp

/-- A line without `sep` goes through `cut` as it is. -/
theorem cut_of_notMem {sep : Char} {l : Text} (hl : '\n' ∉ l) (hsep : sep ∉ l) (k : Nat) :
    cut sep (l ++ List.replicate (k + 1) '\n') = l ++ List.replicate (k + 1) '\n' := by
  have hself : l.takeWhile (· ≠ sep) = l := by
    rw [List.takeWhile_eq_self_iff]
    intro c hc
    have hne : c ≠ sep := fun heq => hsep (heq ▸ hc)
    simpa using hne
  rw [cut_newlines hl, hself]

/-- Of a line with `sep`, what stands before it. -/
theorem cut_of_mem {sep : Char} {l r : Text} (hl : '\n' ∉ l) (hr : '\n' ∉ r) (hnew : sep ≠ '\n')
    (hsep : sep ∉ l) (k : Nat) :
    cut sep (l ++ sep :: r ++ List.replicate (k + 1) '\n') =
      l ++ List.replicate (k + 1) '\n' := by
  have hline : '\n' ∉ l ++ sep :: r := by simp [hl, hr, Ne.symm hnew]
  have htake : (l ++ sep :: r).takeWhile (· ≠ sep) = l := by
    rw [List.takeWhile_append_of_pos, List.takeWhile_cons_of_neg (by simp), List.append_nil]
    intro c hc
    have hne : c ≠ sep := fun heq => hsep (heq ▸ hc)
    simpa using hne
  rw [cut_newlines hline, htake]

/-- **The first word of a line**: `xargs`, then `cut` at the `sep` that the second word begins with,
then `xargs` once more. -/
theorem Host.xargs_cut_xargs (hne : w ≠ []) (hw : ∀ c ∈ w, isPlain c = true)
    (hoption : isOption w = false) {sep : Char} (hsep : isPlain sep = true) (hmem : sep ∉ w)
    {pre post t : Text} (hpre : ∀ c ∈ pre, isSpace c = true) {d : Char} (hd : isIfs d = true)
    (hpost : ∀ c ∈ post, isSpace c = true) (ht : '\n' ∉ t) :
    h.xargs (cut sep (h.xargs (pre ++ (w ++ d :: (post ++ sep :: (t ++ ['\n'])))))) =
      w ++ ['\n'] := by
  have hnewline : '\n' ∉ w := fun hmem => absurd (hw _ hmem) (by decide)
  -- Behind the word there is only white space now.
  have hagain : ∀ (d : Char) (b : Text), isIfs d = true → (∀ c ∈ b, isSpace c = true) →
      h.xargs (w ++ d :: b) = w ++ ['\n'] :=
    fun d b hd hb => Host.xargs_word hne hw hoption (List.forall_mem_nil _) hd hb
  have hspaces : ∀ k, ∀ c ∈ List.replicate k '\n', isSpace c = true := by
    intro k c hc
    rw [(List.mem_replicate.mp hc).2]
    rfl
  rcases h.xargs_words hne hw hoption hsep hpre hd hpost ht with heq | ⟨r, k, hr, heq⟩
  · rw [heq, show ['\n'] = List.replicate (0 + 1) '\n' from rfl, cut_of_notMem hnewline hmem]
    exact hagain '\n' [] rfl (List.forall_mem_nil _)
  · obtain ⟨hspace, -, -⟩ := isPlain_iff.mp hsep
    have hblank : '\n' ∉ w ++ [' '] := by simp [hnewline]
    have hmem' : sep ∉ w ++ [' '] := by
      rw [List.mem_append, List.mem_singleton, not_or]
      refine ⟨hmem, ?_⟩
      rintro rfl
      exact absurd hspace (by decide)
    have hnew : sep ≠ '\n' := by
      rintro rfl
      exact absurd hspace (by decide)
    rw [heq, cut_of_mem hblank hr hnew hmem', List.append_assoc]
    exact hagain ' ' _ rfl (hspaces (k + 1))

/-- The same of a word that stands alone. -/
theorem Host.xargs_cut_xargs_word (hne : w ≠ []) (hw : ∀ c ∈ w, isPlain c = true)
    (hoption : isOption w = false) {sep : Char} (hmem : sep ∉ w) {pre post : Text}
    (hpre : ∀ c ∈ pre, isSpace c = true) {d : Char} (hd : isIfs d = true)
    (hpost : ∀ c ∈ post, isSpace c = true) :
    h.xargs (cut sep (h.xargs (pre ++ (w ++ d :: post)))) = w ++ ['\n'] := by
  have hnewline : '\n' ∉ w := fun hmem => absurd (hw _ hmem) (by decide)
  have hagain : h.xargs ([] ++ (w ++ '\n' :: [])) = w ++ ['\n'] :=
    h.xargs_word hne hw hoption (List.forall_mem_nil _) rfl (List.forall_mem_nil _)
  rw [h.xargs_word hne hw hoption hpre hd hpost, show ['\n'] = List.replicate (0 + 1) '\n' from rfl,
    cut_of_notMem hnewline hmem]
  exact hagain

/-- A text that begins with a plain character keeps it, or all of it is lost. -/
theorem Host.xargs_begin {c : Char} (hc : isPlain c = true) (hdash : c ≠ '-') {pre : Text}
    (hpre : ∀ d ∈ pre, isSpace d = true) (t : Text) :
    substituted (h.xargs (pre ++ c :: t)) = [] ∨ c ∈ substituted (h.xargs (pre ++ c :: t)) := by
  obtain ⟨hspace, -, -⟩ := isPlain_iff.mp hc
  have hhead : ∀ a ∈ (arguments .word [c] t).1.head?, [c] <+: a := prefix_arguments (by simp)
  have hnew : c ≠ '\n' := by
    rintro rfl
    exact absurd hspace (by decide)
  have hnothing : substituted (h.echo []) = [] := by
    rw [h.echo_plain [] (by simp)]
    rfl
  rw [Host.xargs, arguments_begin hc hpre]
  generalize arguments .word [c] t = r at hhead ⊢
  obtain ⟨_ | ⟨a, args⟩, finished⟩ := r
  · left
    cases finished with
    | false => rfl
    | true => exact hnothing
  · right
    obtain ⟨r, rfl⟩ := hhead a rfl
    show c ∈ substituted (h.echo (([c] ++ r) :: args))
    refine mem_substituted ?_ hnew
    rw [h.echo_plain]
    · cases args <;> simp
    · intro arg harg
      cases harg
      unfold isOption
      split
      · rename_i heq
        cases heq
        exact absurd rfl hdash
      · rfl

end Shell

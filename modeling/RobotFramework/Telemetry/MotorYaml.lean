import RobotFramework.Lib.Numeral
import RobotFramework.Lib.Shell
import RobotFramework.Telemetry.Telemetry

/-!
# `config/Motor.yaml`

The motor map in block style: `motorMap:`, an entry `id: bus` on each of the lines below, and blank
lines and comments anywhere. A `MotorYaml` is such a file, line by line.

`yaml-cpp` is a parameter: its parser, that turns the text of a file into the scalars of its
`motorMap`, and its `as<int>`, which takes the base of a number from its prefix, so that digits
behind a zero are octal.
-/

namespace RobotFramework

open Cxx Shell Lines

/-! ## The file -/

/-- White space within a line. -/
def White (t : Text) : Prop := ∀ c ∈ t, c = ' ' ∨ c = '\t'

instance (t : Text) : Decidable (White t) :=
  inferInstanceAs (Decidable (∀ c ∈ t, c = ' ' ∨ c = '\t'))

structure Blanks where
  text : Text
  white : White text

/-- A printable character that breaks no line. -/
def isCommentChar (c : Char) : Bool :=
  c == '\t' || (0x20 ≤ c.toNat && c.toNat ≤ 0x7E) || c.toNat == 0x85 ||
    (0xA0 ≤ c.toNat && c.toNat ≤ 0xD7FF) ||
    (0xE000 ≤ c.toNat && c.toNat ≤ 0xFFFD && c.toNat != 0xFEFF) || 0x10000 ≤ c.toNat

/-- A comment: what stands behind its `#`. -/
structure Comment where
  text : Text
  printable : ∀ c ∈ text, isCommentChar c = true

/-- The end of a line; white space separates the comment. -/
structure LineEnd where
  blanks : Blanks
  comment : Option Comment
  separated : comment.isSome = true → blanks.text ≠ []

/-- A line without content. -/
inductive Filler where
  | blank (blanks : Blanks)
  | comment (indent : Blanks) (comment : Comment)

/-- An integer as it is written. -/
structure Numeral where
  text : Text
  value : Int
  reads : integer? text = some value

structure MotorEntry where
  id : Numeral
  bus : Numeral
  /-- What separates the bus from the colon. -/
  gap : Blanks
  gap_ne_nil : gap.text ≠ []
  lineEnd : LineEnd

/-- A line behind `motorMap:`. -/
inductive MotorLine where
  | filler (filler : Filler)
  | entry (entry : MotorEntry)

def MotorLine.entry? : MotorLine → Option MotorEntry
  | .entry e => some e
  | .filler _ => none

def MotorLine.filler? : MotorLine → Option Filler
  | .filler f => some f
  | .entry _ => none

/-- An indented comment with a colon. -/
def Filler.LikeEntry : Filler → Prop
  | .blank _ => False
  | .comment indent c => indent.text ≠ [] ∧ ':' ∈ c.text

instance (f : Filler) : Decidable f.LikeEntry :=
  match f with
  | .blank _ => inferInstanceAs (Decidable False)
  | .comment indent c => inferInstanceAs (Decidable (indent.text ≠ [] ∧ ':' ∈ c.text))

/-- A file in block style, with distinct ids. -/
structure MotorYaml where
  before : List Filler
  headerEnd : LineEnd
  /-- The indentation of the entries. -/
  indent : Nat
  body : List MotorLine
  /-- The last line ends with a newline. -/
  ended : Bool
  indent_pos : 0 < indent
  ids_nodup : ((body.filterMap MotorLine.entry?).map fun e => e.id.value).Nodup

/-- The key of the map. -/
def motorMapKey : Text := "motorMap".toList

def LineEnd.text (e : LineEnd) : Text :=
  e.blanks.text ++ match e.comment with
    | none => []
    | some c => '#' :: c.text

def Filler.text : Filler → Text
  | .blank blanks => blanks.text
  | .comment indent c => indent.text ++ '#' :: c.text

def MotorEntry.text (indent : Nat) (e : MotorEntry) : Text :=
  List.replicate indent ' ' ++
    (e.id.text ++ ':' :: (e.gap.text ++ (e.bus.text ++ e.lineEnd.text)))

def MotorLine.text (indent : Nat) : MotorLine → Text
  | .filler f => f.text
  | .entry e => e.text indent

namespace MotorYaml

def entries (f : MotorYaml) : List MotorEntry := f.body.filterMap MotorLine.entry?

def fillers (f : MotorYaml) : List Filler := f.before ++ f.body.filterMap MotorLine.filler?

def header (f : MotorYaml) : Text := motorMapKey ++ ':' :: f.headerEnd.text

def lines (f : MotorYaml) : List Text :=
  f.before.map Filler.text ++ f.header :: f.body.map (MotorLine.text f.indent)

/-- The file as a text. -/
def text (f : MotorYaml) : Text :=
  if f.ended then unlines f.lines else ['\n'].intercalate f.lines

end MotorYaml

/-! ## Numerals -/

theorem Numeral.notMem {c : Char} (hc : c.isDigit = false ∧ c ≠ '-' ∧ c ≠ '+') (n : Numeral) :
    c ∉ n.text := by
  intro hmem
  rcases mem_of_integer? n.reads hmem with hdigit | hminus | hplus
  · rw [hc.1] at hdigit
    cases hdigit
  · exact hc.2.1 hminus
  · exact hc.2.2 hplus

theorem Numeral.text_ne_nil (n : Numeral) : n.text ≠ [] := by
  intro hnil
  have hreads := n.reads
  rw [hnil] at hreads
  cases hreads

theorem Numeral.isPlain (n : Numeral) : ∀ c ∈ n.text, Shell.isPlain c = true := by
  intro c hc
  rcases mem_of_integer? n.reads hc with hdigit | rfl | rfl
  · rw [isPlain_iff]
    refine ⟨not_isSpace_of_isDigit hdigit, ?_, ?_⟩
    · rintro rfl
      exact absurd hdigit (by decide)
    -- In the order of the characters a digit stands behind both quotation marks.
    · have hle : 48 ≤ c.toNat := (Char.isDigit_iff_toNat.mp hdigit).1
      simp only [isQuote, Bool.or_eq_false_iff, beq_eq_false_iff_ne]
      omega
  · decide
  · decide

/-- A number is no option. -/
theorem Numeral.isOption (n : Numeral) : Shell.isOption n.text = false := by
  have hreads := n.reads
  unfold Shell.isOption
  split
  · rename_i c t htext
    rw [htext] at hreads
    by_contra hc
    rw [integer?_neg_of_not_isDigit (by simpa using hc)] at hreads
    cases hreads
  · rfl

/-! ## No line is broken -/

theorem White.isIfs {t : Text} (h : White t) : ∀ c ∈ t, isIfs c = true := by
  intro c hc
  rcases h c hc with rfl | rfl <;> rfl

theorem White.isSpace {t : Text} (h : White t) : ∀ c ∈ t, isSpace c = true :=
  fun c hc => isSpace_of_isIfs (h.isIfs c hc)

theorem White.newline_notMem {t : Text} (h : White t) : '\n' ∉ t := by
  intro hmem
  rcases h _ hmem with heq | heq <;> cases heq

theorem Blanks.newline_notMem (b : Blanks) : '\n' ∉ b.text := b.white.newline_notMem

theorem Comment.newline_notMem (c : Comment) : '\n' ∉ c.text :=
  fun h => absurd (c.printable _ h) (by decide)

theorem LineEnd.newline_notMem (e : LineEnd) : '\n' ∉ e.text := by
  have hblanks := e.blanks.newline_notMem
  unfold LineEnd.text
  cases e.comment with
  | none => simpa using hblanks
  | some c => simp [hblanks, c.newline_notMem]

theorem Filler.newline_notMem (f : Filler) : '\n' ∉ f.text := by
  cases f with
  | blank b => exact b.newline_notMem
  | comment b c => simp [Filler.text, b.newline_notMem, c.newline_notMem]

theorem MotorEntry.newline_notMem (indent : Nat) (e : MotorEntry) : '\n' ∉ e.text indent := by
  have hnumeral (n : Numeral) : '\n' ∉ n.text := n.notMem (by decide)
  simp [MotorEntry.text, hnumeral, e.gap.newline_notMem, e.lineEnd.newline_notMem]

namespace MotorYaml

theorem newline_notMem_lines (f : MotorYaml) : ∀ l ∈ f.lines, '\n' ∉ l := by
  have hkey : '\n' ∉ motorMapKey := by decide
  have hheader : '\n' ∉ f.header := by simp [header, hkey, f.headerEnd.newline_notMem]
  rw [lines, List.forall_mem_append, List.forall_mem_cons, List.forall_mem_map,
    List.forall_mem_map]
  refine ⟨fun filler _ => filler.newline_notMem, hheader, fun line _ => ?_⟩
  cases line with
  | filler filler => exact filler.newline_notMem
  | entry e => exact e.newline_notMem _

/-- The lines of the text are those of the file, but for an empty one at its end. -/
theorem filter_linesOf_text (f : MotorYaml) {p : Text → Bool} (hp : p [] = false) :
    (linesOf f.text).filter p = f.lines.filter p := by
  have hlines := f.newline_notMem_lines
  unfold text
  split
  · rw [linesOf_unlines hlines]
  · have hne : f.lines ≠ [] := by simp [lines]
    obtain ⟨ls, l, heq⟩ := List.eq_nil_or_concat' f.lines |>.resolve_left hne
    rw [heq] at hlines ⊢
    have hls : ∀ l ∈ ls, '\n' ∉ l := fun l hl => hlines l (List.mem_append_left _ hl)
    rw [intercalate_concat, ← unlines]
    -- A last line that is empty is none for the tools, and none for `p`.
    by_cases hl : l = []
    · rw [hl, List.append_nil, linesOf_unlines hls, List.filter_append,
        List.filter_cons_of_neg (by simp [hp]), List.filter_nil, List.append_nil]
    · rw [linesOf_unlines_append hls (hlines l (by simp)) hl]

end MotorYaml

/-! ## The loader -/

/-- What fits an `int`. -/
def Fits (i : Int) : Prop := INT_MIN ≤ i ∧ i ≤ INT_MAX

instance (i : Int) : Decidable (Fits i) := inferInstanceAs (Decidable (_ ∧ _))

/-- `yaml-cpp`. -/
structure YamlCpp where
  /-- `YAML::LoadFile` and `config["motorMap"]`: the scalars of the entries in file order, if the
  file can be loaded. -/
  load : Text → Option (List (Text × Text))
  /-- `as<int>` of a scalar, if it does not throw. -/
  asInt : Text → Option Int
  /-- Digits without a zero in front are a decimal number, which has to fit. -/
  asInt_decimal : ∀ scalar, (takeSign scalar).2 ≠ [] →
    (∀ c ∈ (takeSign scalar).2, c.isDigit = true) → (takeSign scalar).2.head? ≠ some '0' →
    asInt scalar =
      let i := signed (takeSign scalar).1 (digitsValue (takeSign scalar).2)
      if Fits i then some i else none
  /-- Digits with a zero in front are an octal number, if they are octal digits. -/
  asInt_octal : ∀ scalar, (∀ c ∈ (takeSign scalar).2, c.isDigit = true) →
    (takeSign scalar).2.head? = some '0' →
    asInt scalar =
      let i := signed (takeSign scalar).1 (octalValue (takeSign scalar).2)
      if (takeSign scalar).2.all isOctal = true ∧ Fits i then some i else none

/-- One entry in the loop of `YAML_Load_MotorMap`. -/
def YamlCpp.entry (yaml : YamlCpp) (scalars : Text × Text) : Option (Int × Int) := do
  let id ← yaml.asInt scalars.1
  let bus ← yaml.asInt scalars.2
  return (id, bus)

/-- The entries as the loop reads them; none where it throws. -/
def motorEntries (yaml : YamlCpp) (text : Text) : Option (List (Int × Int)) := do
  let scalars ← yaml.load text
  scalars.mapM yaml.entry

/-- `YAML_Load_MotorMap` of a file. -/
def loadMotorMap (yaml : YamlCpp) (text : Text) : Std.TreeMap Int Int :=
  Telemetry.yamlLoadMotorMap (motorEntries yaml text)

/-- The loader does what the YAML standard says of the file: the scalars of its entries, in order.
-/
def LoadsAs (yaml : YamlCpp) (f : MotorYaml) : Prop :=
  yaml.load f.text = some (f.entries.map fun e => (e.id.text, e.bus.text))

/-! ## What the numbers are read as -/

/-- A number that is an `int`, and below eight if a zero in front makes it octal. -/
def Numeral.IsInt (n : Numeral) : Prop :=
  Fits n.value ∧ ((takeSign n.text).2.head? = some '0' → n.value.natAbs < 8)

instance (n : Numeral) : Decidable n.IsInt := inferInstanceAs (Decidable (_ ∧ _))

theorem fits_of_natAbs_lt {i : Int} (h : i.natAbs < 8) : Fits i := by
  unfold Fits INT_MIN INT_MAX
  omega

section

variable (yaml : YamlCpp) {n : Numeral}

/-- A number is never read as a larger one, and as the same only where octal and decimal agree. -/
theorem YamlCpp.asInt_some {i : Int} (h : yaml.asInt n.text = some i) :
    i.natAbs ≤ n.value.natAbs ∧ (i.natAbs = n.value.natAbs → n.IsInt) := by
  obtain ⟨hne, hdigits, hvalue⟩ := digits_of_integer? n.reads
  by_cases hzero : (takeSign n.text).2.head? = some '0'
  · rw [yaml.asInt_octal n.text hdigits hzero] at h
    dsimp only at h
    split at h
    · rename_i hoctal
      obtain rfl := Option.some.inj h
      rw [hvalue, natAbs_signed, natAbs_signed]
      refine ⟨octalValue_le _, fun heq => ?_⟩
      have hlt : n.value.natAbs < 8 := by
        rw [hvalue, natAbs_signed]
        exact (octalValue_eq_iff hdigits).mp ⟨List.all_eq_true.mp hoctal.1, heq⟩
      exact ⟨fits_of_natAbs_lt hlt, fun _ => hlt⟩
    · cases h
  · rw [yaml.asInt_decimal n.text hne hdigits hzero] at h
    dsimp only at h
    rw [← hvalue] at h
    split at h
    · rename_i hfits
      obtain rfl := Option.some.inj h
      exact ⟨Nat.le_refl _, fun _ => ⟨hfits, fun h => absurd h hzero⟩⟩
    · cases h

theorem YamlCpp.asInt_of_isInt (hn : n.IsInt) : yaml.asInt n.text = some n.value := by
  obtain ⟨hne, hdigits, hvalue⟩ := digits_of_integer? n.reads
  by_cases hzero : (takeSign n.text).2.head? = some '0'
  · have hlt := hn.2 hzero
    rw [hvalue, natAbs_signed] at hlt
    obtain ⟨hoctal, heq⟩ := (octalValue_eq_iff hdigits).mpr hlt
    rw [yaml.asInt_octal n.text hdigits hzero]
    dsimp only
    rw [heq, ← hvalue, if_pos ⟨List.all_eq_true.mpr hoctal, hn.1⟩]
  · rw [yaml.asInt_decimal n.text hne hdigits hzero]
    dsimp only
    rw [← hvalue, if_pos hn.1]

/-- The numbers of an entry. -/
def MotorEntry.IsInt (e : MotorEntry) : Prop := e.id.IsInt ∧ e.bus.IsInt

instance (e : MotorEntry) : Decidable e.IsInt := inferInstanceAs (Decidable (_ ∧ _))

theorem mapM_eq_some {α β : Type} {f : α → Option β} {l : List α} {r : List β} :
    l.mapM f = some r ↔ l.map f = r.map some := by
  induction l generalizing r with
  | nil => cases r <;> simp
  | cons a l ih =>
    rw [List.mapM_cons]
    cases ha : f a with
    | none => cases r <;> simp [ha]
    | some b =>
      cases r with
      | nil => cases l.mapM f <;> simp
      | cons b' r =>
        simp only [List.map_cons, ha, List.cons.injEq, Option.some_inj, ← ih]
        cases l.mapM f <;> simp

variable {yaml} {f : MotorYaml}

/-- The numbers are what the file says. -/
theorem motorEntries_of_isInt (h : LoadsAs yaml f) (hint : ∀ e ∈ f.entries, e.IsInt) :
    motorEntries yaml f.text = some (f.entries.map fun e => (e.id.value, e.bus.value)) := by
  have hentries : (f.entries.map fun e => (e.id.text, e.bus.text)).mapM yaml.entry =
      some (f.entries.map fun e => (e.id.value, e.bus.value)) := by
    rw [mapM_eq_some, List.map_map, List.map_map]
    apply List.map_congr_left
    intro e he
    obtain ⟨hid, hbus⟩ := hint e he
    simp [YamlCpp.entry, yaml.asInt_of_isInt hid, yaml.asInt_of_isInt hbus]
  rw [motorEntries, h]
  exact hentries

/-- The map of a file whose numbers are read as they stand. -/
theorem mem_loadMotorMap_iff (h : LoadsAs yaml f) (hint : ∀ e ∈ f.entries, e.IsInt)
    {id bus : Int} :
    (id, bus) ∈ (loadMotorMap yaml f.text).toList ↔
      ∃ e ∈ f.entries, e.id.value = id ∧ e.bus.value = bus := by
  have hnodup : ((f.entries.map fun e => (e.id.value, e.bus.value)).map Prod.fst).Nodup := by
    rw [List.map_map]
    exact f.ids_nodup
  rw [loadMotorMap, motorEntries_of_isInt h hint, Telemetry.yamlLoadMotorMap,
    mem_toList_foldl_insert_iff hnodup]
  simp

/-- The map of a file that cannot be read is the fallback. -/
theorem loadMotorMap_of_none (h : motorEntries yaml f.text = none) :
    (loadMotorMap yaml f.text).toList = [(1, 1), (2, 2), (3, 3), (4, 4)] := by
  rw [loadMotorMap, h]
  rfl

/-- The entries of a file that is read, one by one. -/
theorem motorEntries_eq_some (h : LoadsAs yaml f) {l : List (Int × Int)}
    (hl : motorEntries yaml f.text = some l) :
    ∃ read : MotorEntry → Int × Int, l = f.entries.map read ∧
      ∀ e ∈ f.entries, yaml.asInt e.id.text = some (read e).1 ∧
        yaml.asInt e.bus.text = some (read e).2 := by
  have hmap : (f.entries.map fun e => yaml.entry (e.id.text, e.bus.text)) = l.map some := by
    rw [motorEntries, h] at hl
    have hentries := mapM_eq_some.mp hl
    rwa [List.map_map] at hentries
  have hentry : ∀ e ∈ f.entries, ∃ p, yaml.entry (e.id.text, e.bus.text) = some p := by
    intro e he
    have hmem : yaml.entry (e.id.text, e.bus.text) ∈ l.map some := by
      rw [← hmap]
      exact List.mem_map_of_mem he
    obtain ⟨p, -, hp⟩ := List.mem_map.mp hmem
    exact ⟨p, hp.symm⟩
  refine ⟨fun e => (yaml.entry (e.id.text, e.bus.text)).getD (0, 0), ?_, ?_⟩
  · apply List.map_injective_iff.mpr (Option.some_injective _)
    rw [← hmap, List.map_map]
    apply List.map_congr_left
    intro e he
    obtain ⟨p, hp⟩ := hentry e he
    simp [hp]
  · intro e he
    obtain ⟨p, hp⟩ := hentry e he
    dsimp only
    rw [hp, Option.getD_some]
    obtain ⟨id, hid, hrest⟩ := Option.bind_eq_some_iff.mp hp
    obtain ⟨bus, hbus, heq⟩ := Option.bind_eq_some_iff.mp hrest
    obtain rfl := Option.some.inj heq
    exact ⟨hid, hbus⟩

end

end RobotFramework

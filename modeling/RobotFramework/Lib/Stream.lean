import Mathlib.Algebra.Order.Ring.Unbundled.Rat
import Mathlib.Data.Rat.Cast.Defs
import Std.Data.TreeMap.Lemmas

/-!
# Formatted input from a character stream

`operator>>` of an input stream in the classic locale, as far as programs that read numbers from a
line of text use it: a sentry that skips white space, then `num_get` for `int`, `bool` and `double`.

What makes this more than a number parser is what happens when it fails. A *sentry* that finds
nothing but the end of the stream sets failbit and leaves the target alone; a *conversion* that
fails sets failbit and **stores a value all the same** (zero, or the bound that was exceeded, or
`true`); and once failbit is set every further extraction leaves its target alone. A program that
never looks at the stream's state sees these values, so they are modelled.

A scanner is *local* (`Local`) when appending text that starts with white space does not change what
it reads. All of `num_get` is local, and that is the whole reason why reading the words of a line
one by one is the same as reading the line (`extract_word`).
-/

namespace Cxx

/-- The bytes of a `std::string`. -/
abbrev Text := List Char

/-- What holds of the characters of a text is decided along the text, not over all characters. -/
instance {p : Char → Prop} [DecidablePred p] (t : Text) : Decidable (∀ c ∈ t, p c) :=
  List.decidableBAll p t

/-- `operator[]` of a `std::map`, behind an assignment to one of its keys. -/
theorem getElem?_insert {β : Type} (t : Std.TreeMap Text β) (key key' : Text) (v : β) :
    (t.insert key v)[key']? = if key = key' then some v else t[key']? := by
  rw [Std.TreeMap.getElem?_insert]
  by_cases h : key = key'
  · rw [if_pos h, if_pos (Std.LawfulEqCmp.compare_eq_iff_eq.mpr h)]
  · rw [if_neg h, if_neg fun hc => h (Std.LawfulEqCmp.compare_eq_iff_eq.mp hc)]

/-! ## Characters and words -/

/-- `isspace` in the classic locale. -/
def isSpace (c : Char) : Bool := c == ' ' || (9 ≤ c.toNat && c.toNat ≤ 13)

/-- The words of a text: its maximal runs of characters that are not white space. -/
def words : Text → List Text
  | [] => []
  | [c] => if isSpace c then [] else [[c]]
  | c :: d :: cs =>
    if isSpace c then words (d :: cs)
    else if isSpace d then [c] :: words (d :: cs)
    else
      match words (d :: cs) with
      | [] => [[c]]
      | w :: ws => (c :: w) :: ws

/-- A text at which every scanner of numbers stops: empty, or white space first. -/
def Stops (r : Text) : Prop := ∀ c r', r = c :: r' → isSpace c = true

theorem stops_nil : Stops [] := by
  intro c r' h
  cases h

theorem not_isSpace_of_isDigit {c : Char} (h : c.isDigit = true) : isSpace c = false := by
  simp only [Char.isDigit, Bool.and_eq_true, decide_eq_true_eq, ge_iff_le, UInt32.le_iff_toNat_le]
    at h
  have hle : 48 ≤ c.toNat := h.1
  have hne : c ≠ ' ' := by
    rintro rfl
    exact absurd hle (by decide)
  simp only [isSpace, Bool.or_eq_false_iff, beq_eq_false_iff_ne, Bool.and_eq_false_iff,
    decide_eq_false_iff_not]
  exact ⟨hne, Or.inr (by omega)⟩

theorem Stops.isDigit {c : Char} {r : Text} (h : Stops (c :: r)) : c.isDigit = false := by
  cases hd : c.isDigit with
  | false => rfl
  | true => exact absurd (h c r rfl) (by simp [not_isSpace_of_isDigit hd])

theorem Stops.ne {c d : Char} {r : Text} (h : Stops (c :: r)) (hd : isSpace d = false) : c ≠ d := by
  rintro rfl
  exact absurd (h c r rfl) (by simp [hd])

theorem words_ne_nil {c : Char} (hc : isSpace c = false) (cs : Text) : words (c :: cs) ≠ [] := by
  cases cs with
  | nil => simp [words, hc]
  | cons d cs =>
    simp only [words, hc, Bool.false_eq_true, if_false]
    split
    · exact List.cons_ne_nil _ _
    · split <;> exact List.cons_ne_nil _ _

/-- **The first word of a line.** Past the leading white space stands the first word, and behind it
a text that stops every scanner and holds the other words. -/
theorem words_eq_cons : ∀ {s t : Text} {ts : List Text}, words s = t :: ts →
    ∃ r, s.dropWhile isSpace = t ++ r ∧ t ≠ [] ∧ Stops r ∧ words r = ts
  | [], _, _, h => absurd h (by simp [words])
  | [c], t, ts, h => by
    cases hc : isSpace c with
    | true => simp [words, hc] at h
    | false =>
      simp only [words, hc, Bool.false_eq_true, if_false, List.cons.injEq] at h
      obtain ⟨rfl, rfl⟩ := h
      exact ⟨[], by simp [hc], by simp, stops_nil, rfl⟩
  | c :: d :: cs, t, ts, h => by
    cases hc : isSpace c with
    | true =>
      simp only [words, hc, if_true] at h
      obtain ⟨r, hr, hrest⟩ := words_eq_cons h
      exact ⟨r, by rw [List.dropWhile_cons_of_pos hc, hr], hrest⟩
    | false =>
      have hdrop : (c :: d :: cs).dropWhile isSpace = c :: d :: cs := by
        rw [List.dropWhile_cons_of_neg (by simp [hc])]
      -- The word ends here, or goes on with the one that the rest begins with.
      cases hd : isSpace d with
      | true =>
        simp only [words, hc, hd, Bool.false_eq_true, if_false, if_true, List.cons.injEq] at h
        obtain ⟨rfl, hts⟩ := h
        refine ⟨d :: cs, by rw [hdrop]; rfl, by simp, ?_, hts⟩
        intro c' r' hcr
        obtain ⟨rfl, -⟩ := List.cons.inj hcr
        exact hd
      | false =>
        simp only [words, hc, hd, Bool.false_eq_true, if_false] at h
        have hself : (d :: cs).dropWhile isSpace = d :: cs := by
          rw [List.dropWhile_cons_of_neg (by simp [hd])]
        cases hw : words (d :: cs) with
        | nil => exact absurd hw (words_ne_nil hd cs)
        | cons w ws =>
          rw [hw] at h
          simp only [List.cons.injEq] at h
          obtain ⟨rfl, rfl⟩ := h
          obtain ⟨r, hr, -, hstop, hrest⟩ := words_eq_cons hw
          rw [hself] at hr
          exact ⟨r, by rw [hdrop, hr]; rfl, by simp, hstop, hrest⟩

/-! ## Scanners -/

/-- A scanner reads a value off the front of a text and leaves the rest. -/
def Scanner (α : Type) := Text → α × Text

instance : Monad Scanner where
  pure a := fun t => (a, t)
  bind p f := fun t => f (p t).1 (p t).2

/-- Text that starts with white space does not change what the scanner reads before it. -/
def Local {α : Type} (p : Scanner α) : Prop :=
  ∀ t r, Stops r → p (t ++ r) = ((p t).1, (p t).2 ++ r)

theorem Local.pure {α : Type} (a : α) : Local (Pure.pure a : Scanner α) := fun _ _ _ => rfl

theorem Local.bind {α β : Type} {p : Scanner α} {f : α → Scanner β} (hp : Local p)
    (hf : ∀ a, Local (f a)) : Local (p >>= f) := by
  intro t r hr
  show f (p (t ++ r)).1 (p (t ++ r)).2 = _
  rw [hp t r hr]
  exact hf _ _ r hr

/-- An optional sign; `true` for a minus. -/
def takeSign : Scanner Bool
  | [] => (false, [])
  | c :: cs => if c = '-' then (true, cs) else if c = '+' then (false, cs) else (false, c :: cs)

def takeDigits : Scanner Text := fun cs => (cs.takeWhile Char.isDigit, cs.dropWhile Char.isDigit)

def takeFraction : Scanner Text
  | [] => ([], [])
  | c :: cs => if c = '.' then takeDigits cs else ([], c :: cs)

/-- The sign and the digits of an exponent, if there is an `e`. -/
def takeExponent : Scanner (Option (Bool × Text))
  | [] => (none, [])
  | c :: cs =>
    if c = 'e' ∨ c = 'E' then (do return some (← takeSign, ← takeDigits) : Scanner _) cs
    else (none, c :: cs)

theorem takeSign_local : Local takeSign
  | [], [], _ => rfl
  | [], c :: r, h => by
    have h1 : c ≠ '-' := h.ne (by decide)
    have h2 : c ≠ '+' := h.ne (by decide)
    simp [takeSign, h1, h2]
  | c :: cs, r, _ => by
    simp only [List.cons_append, takeSign]
    split
    · rfl
    · split <;> rfl

theorem takeDigits_local : Local takeDigits
  | [], [], _ => rfl
  | [], c :: r, h => by simp [takeDigits, h.isDigit]
  | c :: cs, r, h => by
    have ih := takeDigits_local cs r h
    obtain ⟨htake, hdrop⟩ := Prod.mk.inj ih
    cases hc : c.isDigit with
    | true => simp [takeDigits, hc, htake, hdrop]
    | false => simp [takeDigits, hc]

theorem takeFraction_local : Local takeFraction
  | [], [], _ => rfl
  | [], c :: r, h => by
    have h1 : c ≠ '.' := h.ne (by decide)
    simp [takeFraction, h1]
  | c :: cs, r, h => by
    simp only [List.cons_append, takeFraction]
    split
    · exact takeDigits_local cs r h
    · rfl

theorem takeExponent_local : Local takeExponent
  | [], [], _ => rfl
  | [], c :: r, h => by
    have h1 : c ≠ 'e' := h.ne (by decide)
    have h2 : c ≠ 'E' := h.ne (by decide)
    simp [takeExponent, h1, h2]
  | c :: cs, r, h => by
    have hexp :
        Local (do return some (← takeSign, ← takeDigits) : Scanner (Option (Bool × Text))) :=
      takeSign_local.bind fun _ => takeDigits_local.bind fun _ => Local.pure _
    simp only [List.cons_append, takeExponent]
    split
    · exact hexp cs r h
    · rfl

/-! ## `num_get` -/

def digitsValue (ds : Text) : Nat := ds.foldl (fun n c => 10 * n + (c.toNat - 48)) 0

def signed (neg : Bool) (n : Nat) : Int := if neg then -(n : Int) else n

/-- The integer at the front of a text, in base ten; `none` when there is no digit. -/
def scanInt : Scanner (Option Int) := do
  let neg ← takeSign
  let ds ← takeDigits
  return if ds = [] then none else some (signed neg (digitsValue ds))

/-- The decimal at the front of a text; `none` when the accumulated characters are no numeral, which
is so without any digit and behind an `e` without one. -/
def scanDecimal : Scanner (Option ℚ) := do
  let neg ← takeSign
  let whole ← takeDigits
  let frac ← takeFraction
  if whole = [] ∧ frac = [] then return none
  let mantissa := signed neg (digitsValue (whole ++ frac))
  match ← takeExponent with
  | none => return some (mantissa * (10 : ℚ) ^ (-(frac.length : Int)))
  | some (eneg, ds) =>
    return if ds = [] then none
      else some (mantissa * (10 : ℚ) ^ (signed eneg (digitsValue ds) - frac.length))

theorem scanInt_local : Local scanInt :=
  takeSign_local.bind fun _ => takeDigits_local.bind fun _ => Local.pure _

theorem scanDecimal_local : Local scanDecimal := by
  refine takeSign_local.bind fun neg => takeDigits_local.bind fun whole =>
    takeFraction_local.bind fun frac => ?_
  dsimp only
  split
  · exact Local.pure _
  · refine takeExponent_local.bind fun e => ?_
    cases e with
    | none => exact Local.pure _
    | some p => exact Local.pure _

/-- What a conversion leaves behind: the value it stores and whether it set failbit. -/
structure Got (α : Type) where
  value : α
  fail : Bool
deriving DecidableEq

def INT_MAX : Int := 2147483647

def INT_MIN : Int := -2147483648

/-- `operator>>(int &)`: read as a `long`, then narrowed. -/
def getInt : Scanner (Got Int) := do
  match ← scanInt with
  | none => return ⟨0, true⟩
  | some n =>
    if n < INT_MIN then return ⟨INT_MIN, true⟩
    else if INT_MAX < n then return ⟨INT_MAX, true⟩
    else return ⟨n, false⟩

/-- `num_get` for `bool` without `boolalpha`: a number that has to be 0 or 1. -/
def getBool : Scanner (Got Bool) := do
  match ← scanInt with
  | none => return ⟨false, true⟩
  | some n => return if n = 0 then ⟨false, false⟩ else if n = 1 then ⟨true, false⟩ else ⟨true, true⟩

def DBL_MAX : ℚ := 2 ^ 1024 - 2 ^ 971

/-- The least magnitude that `strtod` rounds to infinity. -/
def DBL_OVERFLOW : ℚ := 2 ^ 1024 - 2 ^ 970

/-- What is stored for the number scanned, if any: beyond the range it is the bound that was
exceeded. -/
def rangeDouble : Option ℚ → Got ℚ
  | none => ⟨0, true⟩
  | some q =>
    if DBL_OVERFLOW ≤ q then ⟨DBL_MAX, true⟩
    else if q ≤ -DBL_OVERFLOW then ⟨-DBL_MAX, true⟩
    else ⟨q, false⟩

/-- `num_get` for `double`, into any type of numbers that holds the rationals: the value read is
taken exactly, not rounded to the nearest `double`. -/
def getDouble {K : Type} [RatCast K] : Scanner (Got K) := do
  let got := rangeDouble (← scanDecimal)
  return ⟨(got.value : K), got.fail⟩

theorem getInt_local : Local getInt := by
  refine scanInt_local.bind fun n => ?_
  cases n with
  | none => exact Local.pure _
  | some n =>
    dsimp only
    split
    · exact Local.pure _
    · split <;> exact Local.pure _

theorem getBool_local : Local getBool := by
  refine scanInt_local.bind fun n => ?_
  cases n <;> exact Local.pure _

theorem getDouble_local {K : Type} [RatCast K] : Local (getDouble (K := K)) :=
  scanDecimal_local.bind fun _ => Local.pure _

/-- What a numeral of the type spells: the conversion of the word succeeds and reads all of it. -/
def numeral? {α : Type} (get : Scanner (Got α)) (w : Text) : Option α :=
  match get w with
  | (⟨v, false⟩, []) => some v
  | _ => none

/-- What a numeral spells does not depend on the type of numbers it is read into. -/
theorem numeral?_getDouble_cast {K : Type} [RatCast K] (w : Text) :
    numeral? (getDouble (K := K)) w = (numeral? (getDouble (K := ℚ)) w).map (↑) := by
  unfold numeral? getDouble
  simp only [bind, pure]
  cases (rangeDouble (scanDecimal w).1).fail <;> cases (scanDecimal w).2 <;> rfl

theorem numeral?_eq_some {α : Type} {get : Scanner (Got α)} {w : Text} {v : α} :
    numeral? get w = some v ↔ get w = (⟨v, false⟩, []) := by
  unfold numeral?
  split
  · rename_i h
    rw [h]
    simp
  · rename_i h
    exact ⟨fun hv => (Option.some_ne_none v hv.symm).elim, fun hv => absurd hv (h v)⟩

/-! ## The stream -/

/-- An input stream over a text: what has not been read yet, and failbit. (Eofbit needs no field: a
stream read to its end fails at the next sentry either way.) -/
structure IStream where
  rest : Text
  fail : Bool
deriving DecidableEq

namespace IStream

def ofText (message : Text) : IStream := ⟨message, false⟩

/-- `operator>>` through a `num_get`: the new value of the target and the stream behind it. -/
def extract {α : Type} (get : Scanner (Got α)) (s : IStream) (target : α) : α × IStream :=
  if s.fail then (target, s)
  else
    match s.rest.dropWhile isSpace with
    | [] => (target, ⟨[], true⟩)
    | c :: cs =>
      let (got, rest) := get (c :: cs)
      (got.value, ⟨rest, got.fail⟩)

theorem extract_snd {α : Type} (get : Scanner (Got α)) (s : IStream) (target target' : α) :
    (extract get s target).2 = (extract get s target').2 := by
  unfold extract
  split
  · rfl
  · split <;> rfl

/-- **Reading the next word.** A word that is a numeral of the type is stored, whatever the target
held, and the stream is left at the words behind it. -/
theorem extract_word {α : Type} {get : Scanner (Got α)} (hget : Local get) {s : IStream}
    (hs : s.fail = false) {w : Text} {ws : List Text} (hw : words s.rest = w :: ws) {v : α}
    (hv : numeral? get w = some v) (target : α) :
    ∃ r, extract get s target = (v, ⟨r, false⟩) ∧ words r = ws := by
  obtain ⟨r, hdrop, hne, hstop, hws⟩ := words_eq_cons hw
  refine ⟨r, ?_, hws⟩
  have hscan : get (w ++ r) = (⟨v, false⟩, r) := by
    rw [hget w r hstop, numeral?_eq_some.mp hv]
    rfl
  unfold extract
  rw [hs, hdrop]
  cases w with
  | nil => exact absurd rfl hne
  | cons c cs =>
    rw [List.cons_append] at hscan
    simp [hscan]

/-! ## Chains of extractions

A chain `iss >> x >> y >> …` stores values in its first targets and leaves the others alone. Which
values, and in how many targets, the text alone decides (`extractAll_eq`).
-/

section

variable {α β : Type}

/-- The targets behind a chain of extractions. -/
def extractAll : List (Scanner (Got α)) → IStream → List α → List α
  | get :: gets, s, target :: targets =>
    let (value, s) := extract get s target
    value :: extractAll gets s targets
  | _, _, targets => targets

/-- The values that a chain stores. -/
def stored : List (Scanner (Got α)) → IStream → List α
  | [], _ => []
  | get :: gets, s =>
    if s.fail then []
    else
      match s.rest.dropWhile isSpace with
      | [] => []
      | c :: cs =>
        let (got, rest) := get (c :: cs)
        got.value :: stored gets ⟨rest, got.fail⟩

theorem stored_of_fail (gets : List (Scanner (Got α))) {s : IStream} (h : s.fail = true) :
    stored gets s = [] := by
  cases gets with
  | nil => rfl
  | cons get gets => rw [stored, if_pos h]

theorem extractAll_of_fail (gets : List (Scanner (Got α))) {s : IStream} (h : s.fail = true)
    (targets : List α) : extractAll gets s targets = targets := by
  induction gets generalizing targets with
  | nil => cases targets <;> rfl
  | cons get gets ih =>
    cases targets with
    | nil => rfl
    | cons target targets => simp only [extractAll, extract, h, if_true, ih]

theorem length_stored_le (gets : List (Scanner (Got α))) (s : IStream) :
    (stored gets s).length ≤ gets.length := by
  induction gets generalizing s with
  | nil => exact Nat.le_refl 0
  | cons get gets ih =>
    rw [stored]
    split
    · exact Nat.zero_le _
    · split
      · exact Nat.zero_le _
      · exact Nat.succ_le_succ (ih _)

/-- **A chain overwrites its first targets**, and which and with what does not depend on them. -/
theorem extractAll_eq (gets : List (Scanner (Got α))) (s : IStream) {targets : List α}
    (h : targets.length = gets.length) :
    extractAll gets s targets = stored gets s ++ targets.drop (stored gets s).length := by
  induction gets generalizing s targets with
  | nil =>
    obtain rfl := List.length_eq_zero_iff.mp h
    rfl
  | cons get gets ih =>
    cases targets with
    | nil => cases h
    | cons target targets =>
      have hlen : targets.length = gets.length := Nat.succ.inj h
      cases hfail : s.fail with
      | true => rw [extractAll_of_fail _ hfail, stored_of_fail _ hfail]; rfl
      | false =>
        cases hrest : s.rest.dropWhile isSpace with
        | nil =>
          simp only [extractAll, extract, stored, hfail, hrest, Bool.false_eq_true, if_false]
          rw [extractAll_of_fail _ rfl]
          rfl
        | cons c cs =>
          simp only [extractAll, extract, stored, hfail, hrest, Bool.false_eq_true, if_false,
            ih _ hlen]
          rfl

theorem dropWhile_of_words_eq_nil : ∀ {t : Text}, words t = [] → t.dropWhile isSpace = []
  | [], _ => rfl
  | [c], h => by
    cases hc : isSpace c with
    | true => simp [hc]
    | false => simp [words, hc] at h
  | c :: d :: cs, h => by
    cases hc : isSpace c with
    | true =>
      simp only [words, hc, if_true] at h
      rw [List.dropWhile_cons_of_pos hc, dropWhile_of_words_eq_nil h]
    | false => exact absurd h (words_ne_nil hc _)

/-- Nothing is stored when there is no further word. -/
theorem stored_of_words_eq_nil (gets : List (Scanner (Got α))) {s : IStream}
    (h : words s.rest = []) : stored gets s = [] := by
  cases gets with
  | nil => rfl
  | cons get gets => rw [stored, dropWhile_of_words_eq_nil h, ite_self]

/-- Otherwise the first target gets what the conversion makes of the next word. -/
theorem stored_of_words_eq_cons {get : Scanner (Got α)} (hget : Local get)
    (gets : List (Scanner (Got α))) {s : IStream} (hs : s.fail = false) {w : Text} {ws : List Text}
    (hw : words s.rest = w :: ws) :
    ∃ r, words r = ws ∧
      stored (get :: gets) s = (get w).1.value :: stored gets ⟨(get w).2 ++ r, (get w).1.fail⟩ := by
  obtain ⟨r, hdrop, hne, hstop, hws⟩ := words_eq_cons hw
  refine ⟨r, hws, ?_⟩
  have hscan := hget w r hstop
  rw [stored, hs, hdrop]
  cases w with
  | nil => exact absurd rfl hne
  | cons c cs =>
    rw [List.cons_append] at hscan
    simp [hscan]

/-- The conversion of a scanner, stored as a value of another type. -/
def storeAs (f : α → β) (get : Scanner (Got α)) : Scanner (Got β) := do
  let got ← get
  return ⟨f got.value, got.fail⟩

theorem storeAs_local {f : α → β} {get : Scanner (Got α)} (h : Local get) : Local (storeAs f get) :=
  h.bind fun _ => Local.pure _

theorem extract_storeAs (f : α → β) (get : Scanner (Got α)) (s : IStream) (target : α) :
    extract (storeAs f get) s (f target) =
      (f (extract get s target).1, (extract get s target).2) := by
  unfold extract
  split
  · rfl
  · split <;> rfl

end

end IStream

end Cxx

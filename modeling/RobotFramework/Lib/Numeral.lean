import Mathlib.Algebra.Order.Floor.Ring
import Mathlib.Algebra.Order.Field.Basic
import Mathlib.Data.List.TakeWhile
import Mathlib.Tactic.FieldSimp
import Mathlib.Tactic.Linarith
import Mathlib.Tactic.Ring
import RobotFramework.Lib.Double

/-!
# Numerals, written and read back

The texts that a program prints numbers as (`natText`, `intText`, `fixed6`, `Double.toText`) are
read back by readers that take the whole of a text or refuse it. What is read back is the number
itself for integers, and for a `double` the number rounded to six decimals (`round6`).
-/

namespace Cxx

/-! ## Digits -/

theorem isDigit_of_mem_natText {n : Nat} {c : Char} (h : c ∈ natText n) : c.isDigit = true :=
  Nat.isDigit_of_mem_toDigits (by decide) (by decide) h

theorem natText_ne_nil (n : Nat) : natText n ≠ [] := Nat.toDigits_ne_nil

@[simp] theorem digitsValue_natText (n : Nat) : digitsValue (natText n) = n :=
  Nat.ofDigitChars_ten_toDigits

theorem digitsValue_append (ds es : Text) :
    digitsValue (ds ++ es) = 10 ^ es.length * digitsValue ds + digitsValue es := by
  show Nat.ofDigitChars 10 (ds ++ es) 0 = _
  rw [Nat.ofDigitChars_append, Nat.ofDigitChars_eq_ofDigitChars_zero]
  rfl

theorem digitsValue_zeros (k : Nat) : digitsValue (List.replicate k '0') = 0 :=
  Nat.ofDigitChars_replicate_zero.trans (Nat.mul_zero _)

/-- Zeros in front of a numeral say nothing. -/
@[simp] theorem digitsValue_padLeft (width : Nat) (t : Text) :
    digitsValue (padLeft '0' width t) = digitsValue t := by
  rw [padLeft, digitsValue_append, digitsValue_zeros, Nat.mul_zero, Nat.zero_add]

theorem isDigit_of_mem_padLeft {width : Nat} {t : Text} (ht : ∀ c ∈ t, c.isDigit = true) :
    ∀ c ∈ padLeft '0' width t, c.isDigit = true := by
  intro c hc
  rcases List.mem_append.mp hc with hpad | hmem
  · rw [(List.mem_replicate.mp hpad).2]
    rfl
  · exact ht c hmem

theorem length_natText_le {n k : Nat} (hk : 0 < k) (h : n < 10 ^ k) : (natText n).length ≤ k :=
  (Nat.length_toDigits_le_iff (by decide) hk).mpr h

theorem length_padLeft {fill : Char} {width : Nat} {t : Text} (h : t.length ≤ width) :
    (padLeft fill width t).length = width := by
  rw [padLeft, List.length_append, List.length_replicate]
  omega

theorem padLeft_of_le {fill : Char} {width : Nat} {t : Text} (h : width ≤ t.length) :
    padLeft fill width t = t := by
  rw [padLeft, Nat.sub_eq_zero_of_le h]
  rfl

/-- A run of digits is taken off the front of a text that goes on with something else. -/
theorem takeDigits_append {ds r : Text} (hds : ∀ c ∈ ds, c.isDigit = true)
    (hr : ∀ c ∈ r.head?, c.isDigit = false) : takeDigits (ds ++ r) = (ds, r) := by
  have hstop : r.takeWhile Char.isDigit = [] ∧ r.dropWhile Char.isDigit = r := by
    cases r with
    | nil => exact ⟨rfl, rfl⟩
    | cons c r =>
      have hc := hr c rfl
      exact ⟨by simp [hc], by simp [hc]⟩
  unfold takeDigits
  rw [List.takeWhile_append_of_pos hds, List.dropWhile_append_of_pos hds, hstop.1, hstop.2,
    List.append_nil]

theorem takeDigits_all {ds : Text} (hds : ∀ c ∈ ds, c.isDigit = true) :
    takeDigits ds = (ds, []) := by
  have := takeDigits_append hds (r := []) (by simp)
  rwa [List.append_nil] at this

theorem not_isDigit_sign {c : Char} (h : c.isDigit = true) : c ≠ '-' ∧ c ≠ '+' := by
  constructor
  · rintro rfl
    exact absurd h (by decide)
  · rintro rfl
    exact absurd h (by decide)

/-- Digits are no sign. -/
theorem takeSign_digits {ds : Text} (hne : ds ≠ []) (hds : ∀ c ∈ ds, c.isDigit = true)
    (r : Text) : takeSign (ds ++ r) = (false, ds ++ r) := by
  cases ds with
  | nil => exact absurd rfl hne
  | cons c ds =>
    obtain ⟨hminus, hplus⟩ := not_isDigit_sign (hds c List.mem_cons_self)
    simp [takeSign, hminus, hplus]

/-! ## Integers -/

/-- The integer that a text spells, all of it. -/
def integer? (w : Text) : Option Int :=
  match scanInt w with
  | (some n, []) => some n
  | _ => none

theorem scanInt_natText (n : Nat) : scanInt (natText n) = (some (n : Int), []) := by
  have hdigits : ∀ c ∈ natText n, c.isDigit = true := fun _ => isDigit_of_mem_natText
  have hsign := takeSign_digits (natText_ne_nil n) hdigits []
  rw [List.append_nil] at hsign
  simp only [scanInt, bind, pure, hsign, takeDigits_all hdigits, natText_ne_nil, if_false,
    digitsValue_natText, signed, Bool.false_eq_true]

theorem scanInt_neg_natText (n : Nat) : scanInt ('-' :: natText n) = (some (-(n : Int)), []) := by
  have hdigits : ∀ c ∈ natText n, c.isDigit = true := fun _ => isDigit_of_mem_natText
  have hsign : takeSign ('-' :: natText n) = (true, natText n) := rfl
  simp only [scanInt, bind, pure, hsign, takeDigits_all hdigits, natText_ne_nil, if_false,
    digitsValue_natText, signed, if_true]

theorem scanInt_intText (i : Int) : scanInt (intText i) = (some i, []) := by
  cases i with
  | ofNat n => exact scanInt_natText n
  | negSucc n => exact scanInt_neg_natText (n + 1)

/-- **An integer is read back as itself.** -/
@[simp] theorem integer?_intText (i : Int) : integer? (intText i) = some i := by
  rw [integer?, scanInt_intText]

theorem takeSign_eq (t : Text) :
    (takeSign t).2 = t ∨ ∃ c, (c = '-' ∨ c = '+') ∧ t = c :: (takeSign t).2 := by
  cases t with
  | nil => exact .inl rfl
  | cons c t =>
    by_cases hminus : c = '-'
    · exact .inr ⟨c, .inl hminus, by simp [takeSign, hminus]⟩
    · by_cases hplus : c = '+'
      · exact .inr ⟨c, .inr hplus, by simp [takeSign, hplus]⟩
      · exact .inl (by simp [takeSign, hminus, hplus])

/-- A text that spells an integer is a sign and its digits. -/
theorem digits_of_integer? {w : Text} {i : Int} (h : integer? w = some i) :
    (takeSign w).2 ≠ [] ∧ (∀ c ∈ (takeSign w).2, c.isDigit = true) ∧
      i = signed (takeSign w).1 (digitsValue (takeSign w).2) := by
  have hscan : scanInt w = (some i, []) := by
    unfold integer? at h
    split at h
    · rename_i heq
      rw [heq, h]
    · cases h
  have hrest : (takeSign w).2.dropWhile Char.isDigit = [] := congrArg Prod.snd hscan
  have hdigits : ∀ c ∈ (takeSign w).2, c.isDigit = true := by
    rwa [List.dropWhile_eq_nil_iff] at hrest
  have htake : (takeSign w).2.takeWhile Char.isDigit = (takeSign w).2 :=
    List.takeWhile_eq_self_iff.mpr hdigits
  have hvalue : (if (takeSign w).2 = [] then none
      else some (signed (takeSign w).1 (digitsValue (takeSign w).2))) = some i := by
    have hfst := congrArg Prod.fst hscan
    simpa [scanInt, bind, pure, takeDigits, htake] using hfst
  split at hvalue
  · cases hvalue
  · rename_i hne
    exact ⟨hne, hdigits, (Option.some.inj hvalue).symm⟩

/-- A text that spells an integer is a sign and digits. -/
theorem mem_of_integer? {w : Text} {i : Int} (h : integer? w = some i) {c : Char} (hc : c ∈ w) :
    c.isDigit = true ∨ c = '-' ∨ c = '+' := by
  obtain ⟨-, hdigits, -⟩ := digits_of_integer? h
  rcases takeSign_eq w with heq | ⟨d, hd, heq⟩
  · rw [heq] at hdigits
    exact .inl (hdigits c hc)
  · rw [heq] at hc
    rcases List.mem_cons.mp hc with rfl | hc
    · exact .inr hd
    · exact .inl (hdigits c hc)

@[simp] theorem natAbs_signed (neg : Bool) (n : Nat) : (signed neg n).natAbs = n := by
  cases neg <;> simp [signed]

/-! ## Octal digits -/

def isOctal (c : Char) : Bool := 48 ≤ c.toNat && c.toNat ≤ 55

/-- What digits add to a number in front of them. -/
def digitsFrom (base n : Nat) (ds : Text) : Nat :=
  ds.foldl (fun n c => base * n + (c.toNat - 48)) n

theorem digitsFrom_cons (base n : Nat) (c : Char) (ds : Text) :
    digitsFrom base n (c :: ds) = digitsFrom base (base * n + (c.toNat - 48)) ds := by
  simp only [digitsFrom, List.foldl_cons]

def octalValue (ds : Text) : Nat := digitsFrom 8 0 ds

theorem digitsFrom_le {m n : Nat} (h : m ≤ n) (ds : Text) :
    digitsFrom 8 m ds ≤ digitsFrom 10 n ds := by
  induction ds generalizing m n with
  | nil => exact h
  | cons c ds ih =>
    rw [digitsFrom_cons, digitsFrom_cons]
    exact ih (by omega)

theorem digitsFrom_lt {m n : Nat} (h : m < n) (ds : Text) :
    digitsFrom 8 m ds < digitsFrom 10 n ds := by
  induction ds generalizing m n with
  | nil => exact h
  | cons c ds ih =>
    rw [digitsFrom_cons, digitsFrom_cons]
    exact ih (by omega)

theorem le_digitsFrom (n : Nat) (ds : Text) : n ≤ digitsFrom 10 n ds := by
  induction ds generalizing n with
  | nil => exact Nat.le_refl n
  | cons c ds ih =>
    rw [digitsFrom_cons]
    exact Nat.le_trans (by omega) (ih _)

/-- Octal digits stand for no more than they do in decimal. -/
theorem octalValue_le (ds : Text) : octalValue ds ≤ digitsValue ds :=
  digitsFrom_le (Nat.le_refl 0) ds

theorem digitsFrom_lt_of_eq {n : Nat} (hn : n < 8) {ds : Text}
    (hds : ∀ c ∈ ds, isOctal c = true) (h : digitsFrom 8 n ds = digitsFrom 10 n ds) :
    digitsFrom 10 n ds < 8 := by
  induction ds generalizing n with
  | nil => exact hn
  | cons c ds ih =>
    obtain ⟨hc, hrest⟩ := List.forall_mem_cons.mp hds
    simp only [isOctal, Bool.and_eq_true, decide_eq_true_eq] at hc
    rw [digitsFrom_cons, digitsFrom_cons] at h
    rw [digitsFrom_cons]
    rcases Nat.eq_zero_or_pos n with rfl | hpos
    · exact ih (by omega) hrest h
    · -- A second digit that counts makes the decimal number the larger one.
      exact absurd h (digitsFrom_lt (by omega) ds).ne

theorem digitsFrom_eq_of_lt {n : Nat} {ds : Text} (hds : ∀ c ∈ ds, c.isDigit = true)
    (h : digitsFrom 10 n ds < 8) :
    (∀ c ∈ ds, isOctal c = true) ∧ digitsFrom 8 n ds = digitsFrom 10 n ds := by
  induction ds generalizing n with
  | nil => exact ⟨by simp, rfl⟩
  | cons c ds ih =>
    obtain ⟨hc, hrest⟩ := List.forall_mem_cons.mp hds
    rw [digitsFrom_cons] at h
    have hle := le_digitsFrom (10 * n + (c.toNat - 48)) ds
    have hdigit : 48 ≤ c.toNat := (Char.isDigit_iff_toNat.mp hc).1
    obtain rfl : n = 0 := by omega
    obtain ⟨hoctal, hvalue⟩ := ih hrest h
    refine ⟨List.forall_mem_cons.mpr ⟨?_, hoctal⟩, hvalue⟩
    simp only [isOctal, Bool.and_eq_true, decide_eq_true_eq]
    omega

/-- **They stand for the same number** exactly if it is below eight. -/
theorem octalValue_eq_iff {ds : Text} (hds : ∀ c ∈ ds, c.isDigit = true) :
    ((∀ c ∈ ds, isOctal c = true) ∧ octalValue ds = digitsValue ds) ↔ digitsValue ds < 8 :=
  ⟨fun h => digitsFrom_lt_of_eq (by decide) h.1 h.2, digitsFrom_eq_of_lt hds⟩

/-- A minus sign that no digit follows begins no integer. -/
theorem integer?_neg_of_not_isDigit {c : Char} (hc : c.isDigit = false) (t : Text) :
    integer? ('-' :: c :: t) = none := by
  have hscan : (scanInt ('-' :: c :: t)).1 = none := by
    simp [scanInt, bind, pure, takeSign, takeDigits, hc]
  unfold integer?
  split
  · rename_i heq
    rw [heq] at hscan
    cases hscan
  · rfl

theorem mem_intText {i : Int} {c : Char} (h : c ∈ intText i) : c.isDigit = true ∨ c = '-' := by
  cases i with
  | ofNat n => exact Or.inl (isDigit_of_mem_natText h)
  | negSucc n =>
    rcases List.mem_cons.mp h with rfl | h
    · exact Or.inr rfl
    · exact Or.inl (isDigit_of_mem_natText h)

theorem newline_notMem_intText (i : Int) : '\n' ∉ intText i :=
  fun h => absurd (mem_intText h) (by decide)

/-! ## Decimals -/

section

variable {K : Type} [Field K]

/-- The decimal numeral that a text is, all of it: an optional sign, digits, and the digits of a
fraction if there is a point. -/
def decimal? (w : Text) : Option K :=
  let (neg, r) := takeSign w
  let (whole, r) := takeDigits r
  let (frac, r) := takeFraction r
  if whole = [] ∨ r ≠ [] then none
  else some ((signed neg (digitsValue (whole ++ frac)) : Int) / ((10 ^ frac.length : Nat) : K))

def signText (neg : Bool) : Text := if neg then ['-'] else []

/-- What the reader makes of a sign, digits, a point and digits. -/
theorem decimal?_digits {whole frac : Text} (neg : Bool) (hne : whole ≠ [])
    (hwhole : ∀ c ∈ whole, c.isDigit = true) (hfrac : ∀ c ∈ frac, c.isDigit = true) :
    decimal? (signText neg ++ whole ++ '.' :: frac) =
      some ((signed neg (digitsValue (whole ++ frac)) : Int) /
        ((10 ^ frac.length : Nat) : K)) := by
  have hsign : takeSign (signText neg ++ whole ++ '.' :: frac) = (neg, whole ++ '.' :: frac) := by
    cases neg with
    | true => rfl
    | false => exact takeSign_digits hne hwhole _
  have hdigits : takeDigits (whole ++ '.' :: frac) = (whole, '.' :: frac) :=
    takeDigits_append hwhole (by simp)
  have hpoint : takeFraction ('.' :: frac) = (frac, []) := by
    rw [takeFraction, if_pos rfl, takeDigits_all hfrac]
  simp only [decimal?, hsign, hdigits, hpoint]
  rw [if_neg (by simp [hne])]

/-- Digits that go on with anything but a digit or a point are no numeral. -/
theorem decimal?_broken {ds r : Text} {c : Char} (hne : ds ≠ [])
    (hds : ∀ d ∈ ds, d.isDigit = true) (hc : c.isDigit = false) (hpoint : c ≠ '.') :
    decimal? (K := K) (ds ++ c :: r) = none := by
  have hsign := takeSign_digits hne hds (c :: r)
  have hdigits : takeDigits (ds ++ c :: r) = (ds, c :: r) :=
    takeDigits_append hds (by simpa using hc)
  have hfrac : takeFraction (c :: r) = ([], c :: r) := by rw [takeFraction, if_neg hpoint]
  simp [decimal?, hsign, hdigits, hfrac]

theorem length_fraction (n : Nat) : (padLeft '0' 6 (natText (n % 1000000))).length = 6 :=
  length_padLeft (length_natText_le (by decide) (Nat.mod_lt _ (by decide)))

/-- The numeral of a magnitude in units of 10⁻⁶, with `k` zeros in front. -/
theorem decimal?_micros (neg : Bool) (k n : Nat) :
    decimal? (signText neg ++ (List.replicate k '0' ++ natText (n / 1000000)) ++
        '.' :: padLeft '0' 6 (natText (n % 1000000))) =
      some ((signed neg n : Int) / ((10 ^ 6 : Nat) : K)) := by
  have hwhole : ∀ c ∈ List.replicate k '0' ++ natText (n / 1000000), c.isDigit = true := by
    intro c hc
    rcases List.mem_append.mp hc with hpad | hmem
    · rw [(List.mem_replicate.mp hpad).2]
      rfl
    · exact isDigit_of_mem_natText hmem
  have hfrac : ∀ c ∈ padLeft '0' 6 (natText (n % 1000000)), c.isDigit = true :=
    isDigit_of_mem_padLeft fun _ => isDigit_of_mem_natText
  have hne : List.replicate k '0' ++ natText (n / 1000000) ≠ [] :=
    List.append_ne_nil_of_right_ne_nil _ (natText_ne_nil _)
  have hvalue : digitsValue (List.replicate k '0' ++ natText (n / 1000000) ++
      padLeft '0' 6 (natText (n % 1000000))) = n := by
    rw [digitsValue_append, digitsValue_append, digitsValue_zeros, length_fraction,
      digitsValue_padLeft, digitsValue_natText, digitsValue_natText, Nat.mul_zero, Nat.zero_add]
    exact Nat.div_add_mod _ _
  rw [decimal?_digits _ hne hwhole hfrac, hvalue, length_fraction]

/-- The text of negative zero is a numeral of zero. -/
theorem decimal?_negZero : decimal? (K := K) "-0.000000".toList = some 0 := by
  have hread : decimal? (K := K) (signText true ++ ['0'] ++ '.' :: "000000".toList) =
      some ((signed true (digitsValue (['0'] ++ "000000".toList)) : Int) /
        ((10 ^ "000000".toList.length : Nat) : K)) :=
    decimal?_digits true (by decide) (by decide) (by decide)
  rw [show signed true (digitsValue (['0'] ++ "000000".toList)) = 0 by decide, Int.cast_zero,
    zero_div] at hread
  exact hread

variable [LinearOrder K] [FloorRing K]

/-- The magnitude that `fixed6` prints, in units of 10⁻⁶. -/
def micros (x : K) : Nat := (roundHalfEven (|x| * (1000000 : Nat))).toNat

/-- The number that `fixed6` prints: `x` rounded to six decimals. -/
def round6 (x : K) : K := (signed (decide (x < 0)) (micros x) : Int) / ((10 ^ 6 : Nat) : K)

theorem micros_eq (x : K) : micros x = (roundHalfEven (|x| * 1000000)).toNat := by
  rw [micros, Nat.cast_ofNat]

theorem fixed6_eq (x : K) :
    fixed6 x = signText (decide (x < 0)) ++ natText (micros x / 1000000) ++
      '.' :: padLeft '0' 6 (natText (micros x % 1000000)) := by
  unfold fixed6 signText
  simp only [← micros_eq]
  simp only [decide_eq_true_eq, List.append_assoc, List.singleton_append]

/-- **A decimal is read back rounded to six places.** -/
theorem decimal?_fixed6 (x : K) : decimal? (fixed6 x) = some (round6 x) := by
  rw [fixed6_eq]
  exact decimal?_micros _ 0 _

/-- Zeros in front of a number that is not negative are read over. -/
theorem decimal?_zeros_fixed6 {x : K} (hx : 0 ≤ x) (k : Nat) :
    decimal? (List.replicate k '0' ++ fixed6 x) = some (round6 x) := by
  have hneg : decide (x < 0) = false := decide_eq_false (not_lt.mpr hx)
  have hread := decimal?_micros (K := K) false k (micros x)
  rw [fixed6_eq, round6, signText, hneg, ← hread, signText]
  simp

theorem fixed6_of_neg {x : K} (hx : x < 0) :
    fixed6 x = '-' :: (natText (micros x / 1000000) ++
      '.' :: padLeft '0' 6 (natText (micros x % 1000000))) := by
  rw [fixed6_eq, signText, decide_eq_true hx]
  rfl

/-! ## What `fixed6` rounds to -/

theorem round6_eq (x : K) : round6 x = (if x < 0 then -1 else 1) * (micros x / 1000000) := by
  unfold round6 signed
  split
  · rename_i h
    rw [if_pos (of_decide_eq_true h)]
    push_cast
    ring
  · rename_i h
    rw [if_neg (by simpa using h)]
    push_cast
    ring

variable [IsStrictOrderedRing K]

theorem roundHalfEven_intCast (n : Int) : roundHalfEven (n : K) = n := by
  simp [roundHalfEven, Int.floor_intCast]

/-- The magnitude of a number with six decimals. -/
theorem micros_of_micros (n : Int) : micros ((n : K) / 1000000) = n.natAbs := by
  have habs : |(n : K) / 1000000| * 1000000 = ((|n| : Int) : K) := by
    rw [abs_div, Int.cast_abs, abs_of_pos (by norm_num : (0 : K) < 1000000)]
    field_simp
  rw [micros_eq, habs, roundHalfEven_intCast, Int.abs_eq_natAbs, Int.toNat_natCast]

theorem micros_neg_iff (n : Int) : (n : K) / 1000000 < 0 ↔ n < 0 := by
  rw [div_lt_iff₀ (by norm_num), zero_mul, Int.cast_lt_zero]

/-- A number with six decimals is not changed. -/
theorem round6_of_micros (n : Int) : round6 ((n : K) / 1000000) = n / 1000000 := by
  rw [round6_eq, micros_of_micros]
  split
  · rename_i h
    have hn : ((n.natAbs : Int) : K) = -n := by
      rw [Int.ofNat_natAbs_of_nonpos ((micros_neg_iff n).mp h).le, Int.cast_neg]
    rw [← Int.cast_natCast, hn]
    ring
  · rename_i h
    have hn : ((n.natAbs : Int) : K) = n := by
      rw [Int.natAbs_of_nonneg (not_lt.mp fun hlt => h ((micros_neg_iff n).mpr hlt))]
    rw [← Int.cast_natCast, hn, one_mul]

end

/-! ## The values of a `double` -/

section

variable {K : Type} [Field K]

/-- The value that a printed `double` spells. -/
def Double.ofText? (w : Text) : Option (Double K) :=
  if w = "nan".toList then some nan
  else if w = "-nan".toList then some (nan true)
  else if w = "inf".toList then some (inf false)
  else if w = "-inf".toList then some (inf true)
  else (decimal? w).map num

variable [LinearOrder K] [FloorRing K]

/-- A value rounded to six decimals, in which a zero has lost its sign; what is no number stays as it
is. -/
def Double.round6 : Double K → Double K
  | num x => num (Cxx.round6 x)
  | negZero => num 0
  | nan negative => nan negative
  | inf negative => inf negative

theorem mem_fixed6 {x : K} {c : Char} (h : c ∈ fixed6 x) :
    c.isDigit = true ∨ c = '-' ∨ c = '.' := by
  rw [fixed6_eq, List.append_assoc] at h
  rcases List.mem_append.mp h with hsign | h
  · unfold signText at hsign
    split at hsign
    · exact Or.inr (Or.inl (List.mem_singleton.mp hsign))
    · cases hsign
  · rcases List.mem_append.mp h with hwhole | h
    · exact Or.inl (isDigit_of_mem_natText hwhole)
    · rcases List.mem_cons.mp h with rfl | hfrac
      · exact Or.inr (Or.inr rfl)
      · exact Or.inl (isDigit_of_mem_padLeft (fun _ => isDigit_of_mem_natText) _ hfrac)

/-- A printed number is none of the words for what is no number. -/
theorem fixed6_ne {x : K} {w : Text} (hw : 'n' ∈ w) : fixed6 x ≠ w := by
  rintro rfl
  exact absurd (mem_fixed6 hw) (by decide)

/-- **A printed `double` is read back**, a number rounded to six decimals. -/
theorem Double.ofText?_toText (d : Double K) : Double.ofText? d.toText = some d.round6 := by
  cases d with
  | num x =>
    have hnan : fixed6 x ≠ "nan".toList := fixed6_ne (by decide)
    have hnegnan : fixed6 x ≠ "-nan".toList := fixed6_ne (by decide)
    have hinf : fixed6 x ≠ "inf".toList := fixed6_ne (by decide)
    have hneg : fixed6 x ≠ "-inf".toList := fixed6_ne (by decide)
    rw [Double.toText_num, Double.ofText?, if_neg hnan, if_neg hnegnan, if_neg hinf, if_neg hneg,
      decimal?_fixed6]
    rfl
  | negZero =>
    rw [Double.toText_negZero, Double.ofText?, if_neg (by decide), if_neg (by decide),
      if_neg (by decide), if_neg (by decide), decimal?_negZero]
    rfl
  | nan negative => cases negative <;> rfl
  | inf negative => cases negative <;> rfl

/-- The characters that a `double` is printed with: digits and those of `-`, `.`, `nan`, `inf`. -/
theorem Double.mem_toText {d : Double K} {c : Char} (h : c ∈ d.toText) :
    c.isDigit = true ∨ c ∈ "-.nanif".toList := by
  cases d with
  | num x =>
    rcases mem_fixed6 h with hdigit | rfl | rfl
    · exact Or.inl hdigit
    · exact Or.inr (by decide)
    · exact Or.inr (by decide)
  | negZero =>
    have hword : ∀ c ∈ "-0.000000".toList, c.isDigit = true ∨ c ∈ "-.nanif".toList := by decide
    exact hword c h
  | nan negative =>
    have hword : ∀ c ∈ (if negative then "-nan".toList else "nan".toList),
        c ∈ "-.nanif".toList := by cases negative <;> decide
    exact Or.inr (hword c h)
  | inf negative =>
    have hword : ∀ c ∈ (if negative then "-inf".toList else "inf".toList),
        c ∈ "-.nanif".toList := by cases negative <;> decide
    exact Or.inr (hword c h)

end

end Cxx

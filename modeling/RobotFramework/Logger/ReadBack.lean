import Mathlib.Data.Rat.Floor
import RobotFramework.Lib.Numeral
import RobotFramework.Logger.Logger

/-!
# The numbers in a log line

What a reader of a log file makes of the values in a line. `flush` pads each of them with zeros to
ten characters, on the left of its sign, so a short negative number does not come out as a numeral
(`0-0.500000`); and it prints a value that is no number as the stream does, padded too, not as
`sanitize` prescribes.
-/

namespace RobotFramework

open Cxx

variable {K : Type}

/-! ## The data of a line -/

section

variable [Field K] [LinearOrder K] [FloorRing K]

/-- `Logger::sanitize` -/
def Logger.sanitize : Double K → Text
  | .num x => fixed6 x
  | .negZero => "-0.000000".toList
  | .nan _ => "null".toList
  | .inf _ => "null".toList

/-- A value as `flush` prints it. -/
def valueText (value : Double K) : Text := padLeft '0' 10 value.toText

def LogEntry.dataText (entry : LogEntry K) : Text :=
  entry.numericData.toList.flatMap fun kv => " | ".toList ++ valueText kv.2

end

def LogEntry.messageText (entry : LogEntry K) : Text :=
  if entry.message = [] then []
  else " [".toList ++ logLevelToString entry.level ++ "] ".toList ++ entry.message

/-- The fields of the data of a line: what follows each bar, without the blanks. -/
def dataFields (data : Text) : List Text :=
  (data.splitOn '|').tail.map fun field => field.filter (· ≠ ' ')

theorem filter_blank {t : Text} (h : ' ' ∉ t) : t.filter (· ≠ ' ') = t :=
  List.filter_eq_self.mpr fun c hc => by
    simp only [decide_eq_true_eq, ne_eq]
    rintro rfl
    exact h hc

/-- Splitting at the bars what was put together with them; `front` stands before the first one. -/
theorem splitOn_bars (front : Text) (values : List Text) (hfront : '|' ∉ front)
    (hvalues : ∀ value ∈ values, '|' ∉ value ∧ ' ' ∉ value) :
    ((front ++ values.flatMap (" | ".toList ++ ·)).splitOn '|').map
        (fun field => field.filter (· ≠ ' ')) =
      front.filter (· ≠ ' ') :: values := by
  induction values generalizing front with
  | nil => simp [List.splitOn_eq_singleton hfront]
  | cons value values ih =>
    obtain ⟨hbar, hblank⟩ := hvalues value List.mem_cons_self
    have hsplit : front ++ (value :: values).flatMap (" | ".toList ++ ·) =
        (front ++ [' ']) ++ '|' :: ((' ' :: value) ++ values.flatMap (" | ".toList ++ ·)) := by
      have hsep : " | ".toList = [' ', '|', ' '] := by decide
      simp only [List.flatMap_cons, hsep, List.append_assoc, List.cons_append, List.nil_append]
    rw [hsplit, List.splitOn_append_cons_self_of_not_mem (by simpa using hfront), List.map_cons,
      ih (' ' :: value) (by simpa using hbar)
        fun v hv => hvalues v (List.mem_cons_of_mem _ hv)]
    have hfilter : (' ' :: value).filter (· ≠ ' ') = value := by
      rw [List.filter_cons_of_neg (by simp), filter_blank hblank]
    rw [hfilter, List.filter_append]
    simp

section

variable [Field K] [LinearOrder K] [FloorRing K]

theorem notMem_valueText (value : Double K) : '|' ∉ valueText value ∧ ' ' ∉ valueText value := by
  have hchars : ∀ c ∈ valueText value, c.isDigit = true ∨ c ∈ "-.nanif".toList := by
    intro c hc
    rcases List.mem_append.mp hc with hpad | hmem
    · rw [(List.mem_replicate.mp hpad).2]
      exact Or.inl rfl
    · exact Double.mem_toText hmem
  exact ⟨fun h => absurd (hchars _ h) (by decide), fun h => absurd (hchars _ h) (by decide)⟩

/-- **The fields are the values**, one for each in the order of the keys. -/
theorem dataFields_dataText (entry : LogEntry K) :
    dataFields entry.dataText = entry.numericData.toList.map fun kv => valueText kv.2 := by
  have hsplit := splitOn_bars [] (entry.numericData.toList.map fun kv => valueText kv.2) (by simp)
    (by
      intro value hvalue
      obtain ⟨kv, -, rfl⟩ := List.mem_map.mp hvalue
      exact notMem_valueText kv.2)
  rw [List.nil_append, List.flatMap_map] at hsplit
  rw [dataFields, List.map_tail, LogEntry.dataText, hsplit]
  rfl

/-! ## Reading a value back -/

/-- The field spells the value: a numeral of exactly that value (of zero for either zero) or, for
what is no number, the text that `sanitize` prescribes. -/
def Reads (field : Text) (value : Double K) : Prop :=
  match value with
  | .num x => decimal? field = some x
  | .negZero => decimal? field = some (0 : K)
  | .nan negative => field = Logger.sanitize (.nan negative : Double K)
  | .inf negative => field = Logger.sanitize (.inf negative : Double K)

/-- The data of the line reads back: its fields spell the values of the entry, in key order. -/
def LogEntry.ReadsBack (entry : LogEntry K) : Prop :=
  ∃ data, entry.line =
      padLeft '0' 8 (intText entry.timestampMs) ++ data ++ entry.messageText ++ ['\n'] ∧
    List.Forall₂ Reads (dataFields data) (entry.numericData.toList.map Prod.snd)

/-- A value with six decimals, as either zero is, or none at all. -/
def Micros (value : Double K) : Prop := ∀ x, value = .num x → ∃ n : Int, x = n / (1000000 : Nat)

/-- A number with no minus sign, or one wide enough for no padding. -/
def Wide (value : Double K) : Prop := ∃ x, value = .num x ∧ (0 ≤ x ∨ x ≤ (-10 : Int))

theorem readsBack_iff (entry : LogEntry K) :
    entry.ReadsBack ↔ ∀ kv ∈ entry.numericData.toList, Reads (valueText kv.2) kv.2 := by
  have hdata : ∀ data, entry.line =
      padLeft '0' 8 (intText entry.timestampMs) ++ data ++ entry.messageText ++ ['\n'] ↔
        entry.dataText = data := by
    intro data
    have hline : entry.line = padLeft '0' 8 (intText entry.timestampMs) ++ entry.dataText ++
        entry.messageText ++ ['\n'] := rfl
    rw [hline, List.append_left_inj, List.append_left_inj, List.append_right_inj]
  unfold LogEntry.ReadsBack
  simp only [hdata, exists_eq_left', dataFields_dataText, List.forall₂_map_left_iff,
    List.forall₂_map_right_iff, List.forall₂_same]

/-- Negative zero is written as `0-0.000000`. -/
theorem reads_negZero : ¬ Reads (valueText (.negZero : Double K)) (.negZero : Double K) := by
  show ¬ decimal? (['0'] ++ '-' :: "0.000000".toList) = some (0 : K)
  rw [decimal?_broken (by simp) (by decide) (by decide) (by decide)]
  simp

theorem reads_nan (negative : Bool) :
    ¬ Reads (valueText (.nan negative : Double K)) (.nan negative : Double K) := by
  show ¬ padLeft '0' 10 (if negative then "-nan".toList else "nan".toList) = "null".toList
  cases negative <;> decide

theorem reads_inf (negative : Bool) :
    ¬ Reads (valueText (.inf negative : Double K)) (.inf negative : Double K) := by
  show ¬ padLeft '0' 10 (if negative then "-inf".toList else "inf".toList) = "null".toList
  cases negative <;> decide

variable [IsStrictOrderedRing K]

/-- The digits in front of the point: more than one from ten on. -/
theorem ten_le_iff (n : Int) (hn : n < 0) :
    10 ≤ n.natAbs / 1000000 ↔ (n : K) / 1000000 ≤ -10 := by
  rw [div_le_iff₀ (by norm_num)]
  have hcast : (n : K) ≤ -10 * 1000000 ↔ n ≤ -10000000 := by
    rw [← Int.cast_le (R := K)]
    norm_num
  rw [hcast]
  omega

/-- **When a number with six decimals reads back.** -/
theorem reads_num_iff (n : Int) :
    Reads (valueText (.num ((n : K) / 1000000))) (.num ((n : K) / 1000000) : Double K) ↔
      0 ≤ (n : K) / 1000000 ∨ (n : K) / 1000000 ≤ -10 := by
  by_cases hneg : (n : K) / 1000000 < 0
  · have hn := (micros_neg_iff n).mp hneg
    rw [or_iff_right (not_le.mpr hneg), ← ten_le_iff n hn]
    show decimal? (padLeft '0' 10 (fixed6 _)) = some _ ↔ _
    have hlength : (fixed6 ((n : K) / 1000000)).length =
        (natText (n.natAbs / 1000000)).length + 8 := by
      rw [fixed6_of_neg hneg, micros_of_micros]
      simp [length_fraction]
    constructor
    · intro hread
      by_contra hlt
      -- A single digit leaves room for one zero, in front of the sign.
      have hone : (natText (n.natAbs / 1000000)).length = 1 := by
        have hle : (natText (n.natAbs / 1000000)).length ≤ 1 :=
          length_natText_le (by decide) (by omega)
        have := List.length_pos_of_ne_nil (natText_ne_nil (n.natAbs / 1000000))
        omega
      rw [padLeft, hlength, hone, fixed6_of_neg hneg,
        decimal?_broken (by simp) (by simp) (by decide) (by decide)] at hread
      cases hread
    · intro hle
      have htwo : 2 ≤ (natText (n.natAbs / 1000000)).length := by
        by_contra hlt
        have := (Nat.length_toDigits_le_iff (b := 10) (n := n.natAbs / 1000000) (by decide)
          (by decide : 0 < 1)).mp (by unfold natText at hlt; omega)
        omega
      rw [padLeft_of_le (by omega), decimal?_fixed6, round6_of_micros]
  · have hnonneg := not_lt.mp hneg
    rw [iff_true_right (Or.inl hnonneg)]
    show decimal? (List.replicate _ '0' ++ fixed6 _) = some _
    rw [decimal?_zeros_fixed6 hnonneg, round6_of_micros]

theorem reads_iff {value : Double K} (h : Micros value) :
    Reads (valueText value) value ↔ Wide value := by
  cases value with
  | num x =>
    obtain ⟨n, rfl⟩ := h x rfl
    rw [Nat.cast_ofNat, reads_num_iff]
    simp [Wide]
  | negZero => simp [reads_negZero, Wide]
  | nan negative => simp [reads_nan, Wide]
  | inf negative => simp [reads_inf, Wide]

/-- **When a line reads back**: with values of six decimals, exactly if each of them is a number,
none lies between -10 and 0, and none is negative zero. -/
theorem line_reads_back_iff (entry : LogEntry K)
    (hmicros : ∀ kv ∈ entry.numericData.toList, Micros kv.2) :
    entry.ReadsBack ↔ ∀ kv ∈ entry.numericData.toList, Wide kv.2 := by
  rw [readsBack_iff]
  exact forall₂_congr fun kv hkv => reads_iff (hmicros kv hkv)

end

/-- An entry with one value. -/
def singleEntry (value : Double ℚ) : LogEntry ℚ :=
  { timestampMs := 0
    numericData := .ofList [("velocity", value)]
    message := []
    level := .INFO }

theorem toList_singleEntry (value : Double ℚ) :
    (singleEntry value).numericData.toList = [("velocity", value)] := rfl

theorem forall_mem_singleEntry {value : Double ℚ} {p : Double ℚ → Prop} :
    (∀ kv ∈ (singleEntry value).numericData.toList, p kv.2) ↔ p value := by
  simp [toList_singleEntry]

theorem readsBack_singleEntry {value : Double ℚ} (h : (singleEntry value).ReadsBack) :
    Reads (valueText value) value :=
  (readsBack_iff _).mp h ("velocity", value) (by
    rw [toList_singleEntry]
    exact List.mem_singleton_self _)

theorem line_reads_back_quarter : (singleEntry (.num (-49 / 4))).ReadsBack := by
  refine (line_reads_back_iff (singleEntry (.num (-49 / 4))) ?_).mpr ?_
  · rw [forall_mem_singleEntry]
    rintro x hx
    obtain rfl := Double.num.inj hx
    exact ⟨-12250000, by norm_num⟩
  · rw [forall_mem_singleEntry]
    exact ⟨_, rfl, Or.inr (by norm_num)⟩

/-- A motor turning slowly backwards, one at rest that reports negative zero, and a current that was
not reported. -/
theorem line_broken :
    (Micros (.num (-1 / 2) : Double ℚ) ∧
      (singleEntry (.num (-1 / 2))).line = "00000000 | 0-0.500000\n".toList ∧
      ¬ (singleEntry (.num (-1 / 2))).ReadsBack) ∧
    ((singleEntry .negZero).line = "00000000 | 0-0.000000\n".toList ∧
      ¬ (singleEntry .negZero).ReadsBack) ∧
    (singleEntry .nan).line = "00000000 | 0000000nan\n".toList ∧
    ¬ (singleEntry .nan).ReadsBack := by
  refine ⟨⟨?_, by decide +kernel, fun h => ?_⟩, ⟨by decide +kernel, fun h => ?_⟩,
    by decide +kernel, fun h => ?_⟩
  · intro x hx
    obtain rfl := Double.num.inj hx
    exact ⟨-500000, by norm_num⟩
  · have hread := readsBack_singleEntry h
    have hnone : decimal? (valueText (.num (-1 / 2) : Double ℚ)) ≠ some (-1 / 2 : ℚ) := by
      decide +kernel
    exact hnone hread
  · exact reads_negZero (readsBack_singleEntry h)
  · exact reads_nan false (readsBack_singleEntry h)

end RobotFramework

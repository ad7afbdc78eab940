import Mathlib.Algebra.Group.Nat.Defs
import Mathlib.Data.List.Basic
import Mathlib.Data.List.Induction
import Mathlib.Data.UInt
import Mathlib.Tactic.SplitIfs

/-!
# Hexadecimal text

Numbers as hexadecimal digits in ASCII, the highest first. Letters of either case are read
(`value?`); `fixed` writes a number with a fixed number of digits, and is read back as long as the
number fits (`value_fixed_of_lt`).
-/

namespace Hex

/-- What a digit stands for. -/
def value? (c : UInt8) : Option Nat :=
  if 0x30 ≤ c ∧ c ≤ 0x39 then some (c.toNat - 0x30)
  else if 0x61 ≤ c ∧ c ≤ 0x66 then some (c.toNat - 0x61 + 10)
  else if 0x41 ≤ c ∧ c ≤ 0x46 then some (c.toNat - 0x41 + 10)
  else none

def isDigit (c : UInt8) : Bool := (value? c).isSome

/-- The digit of a number below 16; `letter` is the one that stands for ten. -/
def digit (letter : UInt8) (n : Nat) : UInt8 :=
  if n < 10 then 0x30 + UInt8.ofNat n else letter + UInt8.ofNat (n - 10)

/-- The lowest digits of a number. -/
def fixed (letter : UInt8) : Nat → Nat → List UInt8
  | 0, _ => []
  | width + 1, n => fixed letter width (n / 16) ++ [digit letter (n % 16)]

/-- The number that digits stand for. -/
def value (text : List UInt8) : Nat := text.foldl (fun v c => v * 16 + (value? c).getD 0) 0

variable {letter : UInt8}

theorem value?_digit (hletter : letter = 0x61 ∨ letter = 0x41) {n : Nat} (hn : n < 16) :
    value? (digit letter n) = some n := by
  rcases hletter with rfl | rfl
  · revert n
    decide
  · revert n
    decide

@[simp] theorem length_fixed (width n : Nat) : (fixed letter width n).length = width := by
  induction width generalizing n with
  | zero => rfl
  | succ width ih => rw [fixed, List.length_append, ih, List.length_singleton]

theorem isDigit_of_mem_fixed (hletter : letter = 0x61 ∨ letter = 0x41) {width n : Nat} {c : UInt8}
    (hc : c ∈ fixed letter width n) : isDigit c = true := by
  induction width generalizing n with
  | zero => cases hc
  | succ width ih =>
    rw [fixed, List.mem_append, List.mem_singleton] at hc
    rcases hc with hc | rfl
    · exact ih hc
    · simp [isDigit, value?_digit hletter (Nat.mod_lt n (by decide))]

theorem value_snoc (text : List UInt8) (c : UInt8) :
    value (text ++ [c]) = value text * 16 + (value? c).getD 0 := by
  rw [value, List.foldl_append]
  rfl

theorem value_fixed (hletter : letter = 0x61 ∨ letter = 0x41) (width n : Nat) :
    value (fixed letter width n) = n % 16 ^ width := by
  induction width generalizing n with
  | zero => rw [Nat.pow_zero, Nat.mod_one]; rfl
  | succ width ih =>
    have hlow : value? (digit letter (n % 16)) = some (n % 16) :=
      value?_digit hletter (Nat.mod_lt n (by decide))
    rw [fixed, value_snoc, ih, hlow, Option.getD_some, Nat.pow_succ', Nat.mod_mul]
    omega

theorem value_fixed_of_lt (hletter : letter = 0x61 ∨ letter = 0x41) {width n : Nat}
    (hn : n < 16 ^ width) : value (fixed letter width n) = n := by
  rw [value_fixed hletter, Nat.mod_eq_of_lt hn]

/-- The digits are the first of all digits and letters. -/
theorem le_of_isDigit {c : UInt8} (hc : isDigit c = true) : 0x30 ≤ c.toNat := by
  rw [isDigit, value?] at hc
  simp only [UInt8.le_iff_toNat_le] at hc
  split_ifs at hc with hdigit hlower hupper
  · exact hdigit.1
  · have hle : 0x61 ≤ c.toNat := hlower.1
    omega
  · have hle : 0x41 ≤ c.toNat := hupper.1
    omega
  · cases hc

theorem getD_value?_lt (c : UInt8) : (value? c).getD 0 < 16 := by
  rw [value?]
  simp only [UInt8.le_iff_toNat_le]
  split_ifs with hdigit hlower hupper
  · have hc : c.toNat ≤ 0x39 := hdigit.2
    rw [Option.getD_some]
    omega
  · have hc : c.toNat ≤ 0x66 := hlower.2
    rw [Option.getD_some]
    omega
  · have hc : c.toNat ≤ 0x46 := hupper.2
    rw [Option.getD_some]
    omega
  · exact Nat.zero_lt_succ _

theorem value_lt (text : List UInt8) : value text < 16 ^ text.length := by
  induction text using List.reverseRecOn with
  | nil => exact Nat.one_pos
  | append_singleton text c ih =>
    have hc := getD_value?_lt c
    rw [value_snoc, List.length_append, List.length_singleton, Nat.pow_succ]
    omega

/-- Zeros in front do not count. -/
theorem value_dropWhile (text rest : List UInt8) :
    value (text.dropWhile (· = 0x30) ++ rest) = value (text ++ rest) := by
  induction text with
  | nil => rfl
  | cons c text ih =>
    by_cases hc : c = 0x30
    · rw [List.dropWhile_cons_of_pos (by simpa using hc), ih, hc]
      rfl
    · rw [List.dropWhile_cons_of_neg (by simpa using hc)]

/-- Two digits are a byte. -/
theorem fixed_two (b : UInt8) :
    fixed letter 2 b.toNat = [digit letter (b.toNat / 16), digit letter (b.toNat % 16)] := by
  have hhigh : b.toNat / 16 % 16 = b.toNat / 16 := by
    have hb := b.toNat_lt
    omega
  rw [fixed, fixed, fixed, hhigh]
  rfl

end Hex

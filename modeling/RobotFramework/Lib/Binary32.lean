import Mathlib.Data.Int.Log
import RobotFramework.Lib.Numeral

/-!
# Single precision

A `float` is the IEEE 754 binary32 format: a sign bit, eight bits of exponent, 23 bits of fraction.
`encode` is the conversion of a `double` (rounding to the nearest `float`, ties to even), `decode`
the value of the 32 bits. The finite numbers of a sign are counted in order by the 31 bits below it:
a significand `m` at the exponent `e` is the number `(e + 126) * 2 ^ 23 + m`, which also holds where
rounding carries `m` up to the next power of two, and below the normal numbers, where `e` stays at
its least value.
-/

namespace Cxx.Binary32

variable {K : Type} [Field K]

/-- The first of the numbers that stand for no finite one: exponent bits all set, no fraction. -/
def infinity : Nat := 255 * 2 ^ 23

def pow2 (e : Int) : K := ((2 : Nat) : K) ^ e

/-- The magnitude that a number below `infinity` stands for. -/
def value (n : Nat) : K :=
  if n < 2 ^ 23 then n * pow2 (-149)
  else (2 ^ 23 + n % 2 ^ 23 : Nat) * pow2 ((n / 2 ^ 23 : Nat) - 150)

/-- The value of 32 bits. -/
def decode (bits : Nat) : Double K :=
  let n := bits % 2 ^ 31
  let negative := decide (2 ^ 31 ≤ bits % 2 ^ 32)
  if n < infinity then
    if negative then if n = 0 then .negZero else .num (-value n)
    else .num (value n)
  else if n = infinity then .inf negative
  else .nan negative

section

variable [LinearOrder K] [FloorRing K]

/-- The exponent at which a number is rounded. -/
def exponent (x : K) : Int := if x = 0 then -126 else max (Int.log 2 |x|) (-126)

/-- The distance of two neighbours there. -/
def ulp (x : K) : K := pow2 (exponent x - 23)

def significand (x : K) : Nat := (roundHalfEven (|x| / ulp x)).toNat

/-- The magnitude of a number, as the 31 bits count it. -/
def magnitude (x : K) : Nat := (exponent x + 126).toNat * 2 ^ 23 + significand x

/-- `static_cast<float>`, as 32 bits. -/
def encode : Double K → Nat
  | .num x => (if x < 0 then 2 ^ 31 else 0) + min (magnitude x) infinity
  | .negZero => 2 ^ 31
  | .nan negative => (if negative then 2 ^ 31 else 0) + infinity + 2 ^ 22
  | .inf negative => (if negative then 2 ^ 31 else 0) + infinity

end

section

variable [LinearOrder K] [FloorRing K]

@[simp] theorem decode_encode_nan : decode (encode (.nan : Double K)) = (.nan : Double K) := by
  rw [encode, decode]
  norm_num [infinity]

variable [IsStrictOrderedRing K]

@[simp] theorem significand_zero : significand (0 : K) = 0 := by
  have hround : roundHalfEven ((0 : Int) : K) = 0 := roundHalfEven_intCast 0
  rw [Int.cast_zero] at hround
  rw [significand, abs_zero, zero_div, hround]
  rfl

@[simp] theorem encode_zero : encode (.num (0 : K)) = 0 := by
  simp [encode, magnitude, exponent]

end

end Cxx.Binary32

import Mathlib.Algebra.Order.Floor.Defs
import Mathlib.Algebra.Field.Defs
import RobotFramework.Lib.Stream

/-!
# Floating-point values over an exact field

A `double` is a number of the field `K`, taken exactly, or one of the values that no number of a
field is: negative zero, the two infinities, and NaN, which has a sign too. What is modelled is what
a program observes of these, that every comparison with NaN is false and every sum with it is NaN,
and what `std::to_string` and the streams print. Arithmetic is exact but where a result is cut to an
integer: there it is rounded first, in the way of the machine (`Libm.round`).
-/

namespace Cxx

/-- A `double` (or `float`) whose finite values are the elements of `K`, and negative zero. -/
inductive Double (K : Type) where
  | num (x : K)
  | negZero
  | nan (negative : Bool := false)
  | inf (negative : Bool)
deriving DecidableEq

/-- What a program takes from `<cmath>`, and what the language leaves to the machine. -/
class Libm (K : Type) where
  /-- `M_PI` -/
  pi : K
  sin : K → K
  cos : K → K
  hypot : K → K → K
  /-- The `double` for a number: what a literal is, and the result of an operation. -/
  round : K → K
  /-- `static_cast<int>` of NaN, of an infinity and of a number out of range, which is undefined. -/
  castInt : Double K → Int

variable {K : Type}

namespace Double

/-- The number of a finite value, which is zero for either zero. -/
def value? [Zero K] : Double K → Option K
  | num x => some x
  | negZero => some 0
  | nan _ => none
  | inf _ => none

def gt [Zero K] [LinearOrder K] : Double K → Double K → Bool
  | nan _, _ => false
  | _, nan _ => false
  | inf m, inf n => !m && n
  | inf n, _ => !n
  | _, inf n => n
  | a, b => a.value?.getD 0 > b.value?.getD 0

def add [Add K] : Double K → Double K → Double K
  | num a, num b => num (a + b)
  | num a, negZero => num a
  | negZero, num b => num b
  | negZero, negZero => negZero
  | nan n, _ => nan n
  | _, nan n => nan n
  | inf m, inf n => if m = n then inf m else nan
  | inf m, _ => inf m
  | _, inf n => inf n

/-- `a / k`, for a positive number `k` -/
def divPos [Div K] : Double K → K → Double K
  | num a, k => num (a / k)
  | negZero, _ => negZero
  | nan n, _ => nan n
  | inf m, _ => inf m

/-- The result of an operation, rounded. -/
def rounded [Libm K] : Double K → Double K
  | num x => num (Libm.round x)
  | value => value

/-- Nothing is above a threshold on the strength of a value that was never reported. -/
@[simp] theorem nan_gt [Zero K] [LinearOrder K] (n : Bool) (b : Double K) :
    gt (nan n) b = false := by
  cases b <;> rfl

/-- The integer part of a number. -/
def truncate [Ring K] [LinearOrder K] [FloorRing K] (x : K) : Int := if 0 ≤ x then ⌊x⌋ else ⌈x⌉

/-- `static_cast<int>` -/
def trunc [Ring K] [LinearOrder K] [FloorRing K] [Libm K] (value : Double K) : Int :=
  match value.value? with
  | none => Libm.castInt value
  | some x =>
    let n := truncate x
    if -2147483648 ≤ n ∧ n ≤ 2147483647 then n else Libm.castInt value

end Double

/-! ## Text -/

def natText (n : Nat) : Text := Nat.toDigits 10 n

/-- `std::to_string` of an integer. -/
def intText : Int → Text
  | .ofNat n => natText n
  | .negSucc n => '-' :: natText (n + 1)

def padLeft (fill : Char) (width : Nat) (t : Text) : Text :=
  List.replicate (width - t.length) fill ++ t

/-- The nearest integer, ties going to the even one. -/
def roundHalfEven [Field K] [LinearOrder K] [FloorRing K] (x : K) : Int :=
  let rest := x - ⌊x⌋
  if rest + rest < 1 then ⌊x⌋
  else if 1 < rest + rest then ⌊x⌋ + 1
  else if ⌊x⌋ % 2 = 0 then ⌊x⌋
  else ⌊x⌋ + 1

def fixed6 [Field K] [LinearOrder K] [FloorRing K] (x : K) : Text :=
  let n := (roundHalfEven (|x| * 1000000)).toNat
  (if x < 0 then ['-'] else []) ++ natText (n / 1000000) ++ ['.'] ++
    padLeft '0' 6 (natText (n % 1000000))

def Double.toText [Field K] [LinearOrder K] [FloorRing K] : Double K → Text
  | num x => fixed6 x
  | negZero => "-0.000000".toList
  | nan negative => if negative then "-nan".toList else "nan".toList
  | inf negative => if negative then "-inf".toList else "inf".toList

theorem Double.toText_num [Field K] [LinearOrder K] [FloorRing K] (x : K) :
    (num x).toText = fixed6 x := rfl

theorem Double.toText_negZero [Field K] [LinearOrder K] [FloorRing K] :
    (negZero : Double K).toText = "-0.000000".toList := rfl

end Cxx

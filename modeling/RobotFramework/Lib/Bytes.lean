import Mathlib.Algebra.Group.Nat.Defs

/-!
# Integers in memory

What `memcpy` makes of an integer on a little-endian machine: `size` bytes, the lowest first, and
for a signed type its two's complement. A value that does not fit is cut to the bytes there are.
-/

namespace Cxx

/-- The `size` lowest bytes of a number. -/
def writeNat : Nat → Nat → List UInt8
  | 0, _ => []
  | size + 1, n => UInt8.ofNat n :: writeNat size (n / 256)

def readNat : List UInt8 → Nat
  | [] => 0
  | b :: bs => b.toNat + 256 * readNat bs

/-- A signed integer of `size` bytes. -/
def writeInt (size : Nat) (i : Int) : List UInt8 := writeNat size (i % (256 ^ size : Nat)).toNat

def readInt (bs : List UInt8) : Int := (readNat bs : Int).bmod (256 ^ bs.length)

@[simp] theorem length_writeNat (size n : Nat) : (writeNat size n).length = size := by
  induction size generalizing n with
  | zero => rfl
  | succ size ih => rw [writeNat, List.length_cons, ih]

@[simp] theorem length_writeInt (size : Nat) (i : Int) : (writeInt size i).length = size :=
  length_writeNat _ _

end Cxx

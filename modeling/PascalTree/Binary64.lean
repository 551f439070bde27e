/-! # 64-bit binary floating-point values

A value is its bit pattern. Apart from the infinities and the patterns that are not a number, it
stands for `significand * 2 ^ scale` with a sign.
-/
namespace PascalTree
set_option autoImplicit false

structure Binary64 where
  bits : UInt64
  deriving DecidableEq, Repr

namespace Binary64

instance : Inhabited Binary64 := ⟨⟨0⟩⟩

/-- The weight of the bit above the fifty-two fraction bits. -/
def hiddenBit : Nat := 0x10000000000000

/-- The highest bit is the sign. -/
def isNegative (x : Binary64) : Bool := 0x8000000000000000 ≤ x.bits.toNat

def exponentField (x : Binary64) : Nat := x.bits.toNat / hiddenBit % 0x800

def fractionField (x : Binary64) : Nat := x.bits.toNat % hiddenBit

def isFinite (x : Binary64) : Bool := x.exponentField != 2047

def isNaN (x : Binary64) : Bool := x.exponentField == 2047 && x.fractionField != 0

def isZero (x : Binary64) : Bool := x.exponentField == 0 && x.fractionField == 0

/-- Patterns with an exponent field of zero have no hidden leading bit. -/
def significand (x : Binary64) : Nat :=
  if x.exponentField = 0 then x.fractionField else hiddenBit + x.fractionField

def scale (x : Binary64) : Int := (max x.exponentField 1 : Int) - 1075

theorem isFinite_iff (x : Binary64) : x.isFinite ↔ x.exponentField ≠ 2047 := by simp [isFinite]

theorem significand_eq_zero_iff (x : Binary64) : x.significand = 0 ↔ x.isZero := by
  unfold significand isZero
  split <;> simp_all [hiddenBit]

end Binary64
end PascalTree

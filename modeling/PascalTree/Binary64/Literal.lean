import PascalTree.Binary64.Shortest

/-! # Real literals

A literal shows the shortest decimal. It is positional, with at least one decimal place, from
`0.0001` up to sixteen places before the point; outside this range it has one digit before the
point and an exponent.
-/
namespace PascalTree
set_option autoImplicit false

namespace Decimal

def numerals (d : Decimal) : List Char := Nat.toDigits 10 d.digits

/-- The power of ten of the first digit. -/
def leadingExponent (d : Decimal) : Int := d.exponent + d.numerals.length - 1

def isPositional (d : Decimal) : Bool := -4 ≤ d.leadingExponent && d.leadingExponent < 16

def positional (d : Decimal) : List Char :=
  let whole := (d.numerals.length + d.exponent).toNat
  if 0 ≤ d.exponent then d.numerals ++ List.replicate d.exponent.toNat '0' ++ ['.', '0']
  else if whole = 0 then
    ['0', '.'] ++ List.replicate (-(d.numerals.length + d.exponent)).toNat '0' ++ d.numerals
  else d.numerals.take whole ++ ['.'] ++ d.numerals.drop whole

def scientific (d : Decimal) : List Char :=
  let mantissa := match d.numerals with
    | [] => []
    | [digit] => [digit]
    | digit :: rest => digit :: '.' :: rest
  mantissa ++ ['e'] ++ (toString d.leadingExponent).toList

def literal (d : Decimal) : List Char := if d.isPositional then d.positional else d.scientific

end Decimal

namespace Binary64

def magnitude (x : Binary64) : List Char :=
  if x.isZero then "0.0".toList else if x.isFinite then x.shortest.literal else "inf".toList

/-- A value that is not a number shows no sign. -/
def literal (x : Binary64) : String :=
  if x.isNaN then "NaN"
  else if x.isNegative then String.ofList ('-' :: x.magnitude)
  else String.ofList x.magnitude

end Binary64
end PascalTree

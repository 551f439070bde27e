import PascalTree.Binary64.Literal

/-! # Faults

The requests that no operation can serve, with the text in which each is reported.
-/
namespace PascalTree
set_option autoImplicit false

inductive Fault
  /-- A real literal is built from a value that is not finite. -/
  | notFinite (value : Binary64)
  /-- A count or a nesting depth leaves its range. -/
  | overflow
  /-- A printed line would be indented by too many columns. -/
  | padding
  /-- An item is inserted behind the end of a list. -/
  | insertionIndex
  /-- An item is removed that is not in the list. -/
  | removalIndex
  deriving DecidableEq

def Fault.message : Fault → String
  | notFinite value => "real literal " ++ value.literal ++ " is not finite"
  | overflow => "attempt to add with overflow"
  | padding => "Formatting argument out of range"
  | insertionIndex => "assertion failed: index <= len"
  | removalIndex => "assertion failed: index < len"

end PascalTree

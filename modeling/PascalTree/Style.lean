/-! # Styles

A style is the width of the page, the indentation of one level and the line ending. Widths are
16 bits wide.
-/
namespace PascalTree
set_option autoImplicit false

inductive Indentation
  | spaces (count : UInt16)
  | tab
  deriving DecidableEq

namespace Indentation

/-- A number of spaces, where none stands for a tab. -/
def ofCount (count : UInt16) : Indentation := if count = 0 then tab else spaces count

/-- The columns of one level. A tab is measured as two. -/
def width : Indentation → Nat
  | spaces count => count.toNat
  | tab => 2

def text (indentation : Indentation) (depth : Nat) : String :=
  match indentation with
  | spaces count => String.ofList (List.replicate (count.toNat * depth) ' ')
  | tab => String.ofList (List.replicate depth '\t')

/-- Padding with spaces reaches at most this column. -/
def paddingLimit : Nat := 65535

/-- Tabs are written one by one, so only spaces can run out of range. -/
def isPrintable (indentation : Indentation) (depth : Nat) : Bool :=
  match indentation with
  | spaces count => count.toNat * depth ≤ paddingLimit
  | tab => true

end Indentation

inductive LineEnding
  | lineFeed
  | carriageReturnLineFeed
  /-- The ending that the platform uses, a line feed. -/
  | native
  deriving DecidableEq

def LineEnding.text : LineEnding → String
  | lineFeed => "\n"
  | carriageReturnLineFeed => "\r\n"
  | native => "\n"

structure Style where
  width : UInt16 := 80
  indentation : Indentation := .spaces 2
  lineEnding : LineEnding := .native
  deriving DecidableEq

end PascalTree

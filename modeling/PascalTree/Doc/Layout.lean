import PascalTree.Doc.Basic
import PascalTree.Style

/-! # Layouts

Laying a document out decides every break. Columns count bytes and stop at `Column.limit`. A group
is flat when its first line still fits on the page, in which case its soft lines vanish; otherwise
they all break, while groups inside it are decided anew.
-/
namespace PascalTree
set_option autoImplicit false

/-- What stands on the page: a text, or a break followed by the indentation of the next line. -/
inductive Piece
  | text (content : String)
  | newline (depth : Nat)
  deriving DecidableEq

namespace Column

/-- The last column that is told apart. -/
def limit : Nat := 65535

def saturate (column : Nat) : Nat := min column limit

theorem saturate_le (column : Nat) : saturate column ≤ limit := Nat.min_le_right _ _

@[simp] theorem saturate_add_saturate_left (a b : Nat) :
    saturate (saturate a + b) = saturate (a + b) := by
  unfold saturate limit
  omega

@[simp] theorem saturate_add_saturate_right (a b : Nat) :
    saturate (a + saturate b) = saturate (a + b) := by
  unfold saturate limit
  omega

end Column

namespace Piece

def isNewline : Piece → Bool
  | text _ => false
  | newline _ => true

/-- The column behind the piece when it starts in the given one. -/
def advance (style : Style) (column : Nat) : Piece → Nat
  | text content => Column.saturate (column + content.utf8ByteSize)
  | newline depth => Column.saturate (style.indentation.width * depth)

def print (style : Style) : Piece → String
  | text content => content
  | newline depth => style.lineEnding.text ++ style.indentation.text depth

/-- Only the indentation of a line can be out of range. -/
def isPrintable (style : Style) : Piece → Bool
  | text _ => true
  | newline depth => style.indentation.isPrintable depth

end Piece

abbrev Layout := List Piece

namespace Layout

def breaks (layout : Layout) : Bool := layout.any Piece.isNewline

def firstLineWidth : Layout → Nat
  | [] => 0
  | .text content :: rest => Column.saturate (content.utf8ByteSize + firstLineWidth rest)
  | .newline _ :: _ => 0

def endColumn (style : Style) (column : Nat) (layout : Layout) : Nat :=
  layout.foldl (Piece.advance style) column

def lastLineWidth (style : Style) (layout : Layout) : Nat := layout.endColumn style 0

/-- The first line stays on the page when it starts in the given column. -/
def fits (style : Style) (column : Nat) (layout : Layout) : Bool :=
  column + layout.firstLineWidth ≤ style.width.toNat

def print (style : Style) (layout : Layout) : String :=
  String.join (layout.map (Piece.print style))

theorem endColumn_append (style : Style) (column : Nat) (first second : Layout) :
    endColumn style column (first ++ second) =
      endColumn style (endColumn style column first) second :=
  List.foldl_append

theorem breaks_append (first second : Layout) :
    breaks (first ++ second) = (first.breaks || second.breaks) :=
  List.any_append

theorem print_append (style : Style) (first second : Layout) :
    print style (first ++ second) = first.print style ++ second.print style := by
  simp [print, String.join_append]

end Layout

namespace Doc

mutual
/-- Lays the document out from the given column, with breaks at the given depth. `flat` tells
whether the enclosing group is flat. -/
def layout (style : Style) (column depth : Nat) (flat : Bool) : Doc → Layout
  | empty => []
  | text content => [.text content]
  | softLine => if flat then [] else [.newline depth]
  | spaceLine => if flat then [.text " "] else [.newline depth]
  | hardLine => [.newline depth]
  | concat parts => layoutAll style column depth flat parts
  | indent body => layout style column (depth + 1) flat body
  | group body =>
    if forcesBreak body then layout style column depth false body
    else
      let attempt := layout style column depth true body
      if Layout.fits style column attempt then attempt else layout style column depth false body

/-- Every part starts in the column where the one before it ends. -/
def layoutAll (style : Style) (column depth : Nat) (flat : Bool) : List Doc → Layout
  | [] => []
  | part :: rest =>
    let first := layout style column depth flat part
    first ++ layoutAll style (Layout.endColumn style column first) depth flat rest
end

end Doc
end PascalTree

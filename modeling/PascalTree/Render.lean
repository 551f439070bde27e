import PascalTree.Doc.Layout
import PascalTree.Source
import PascalTree.Fault

/-! # Rendering

Prints a tree as source text: its document is laid out on an empty page and the layout is written
down. A break that would indent by too many spaces is a fault, as is nesting beyond `depthLimit`.
-/
namespace PascalTree
set_option autoImplicit false

/-- The deepest level of indentation. -/
def depthLimit : Nat := 65535

namespace Layout

/-- The text of a layout, unless one of its lines is indented too far. -/
def write (style : Style) (layout : Layout) : Except Fault String :=
  if layout.all (Piece.isPrintable style) then .ok (layout.print style) else .error .padding

theorem write_append_ok_iff (style : Style) (first second : Layout) (output : String) :
    write style (first ++ second) = .ok output ↔
      ∃ left right, write style first = .ok left ∧ write style second = .ok right ∧
        output = left ++ right := by
  unfold write
  by_cases hFirst : first.all (Piece.isPrintable style) <;>
    by_cases hSecond : second.all (Piece.isPrintable style) <;>
      simp [hFirst, hSecond, print_append, eq_comm]

end Layout

/-- The source text of a tree. Without a tree there is nothing to print. -/
def render (style : Style) (tree : Option Node) : Except Fault String :=
  let doc := Node.slotDoc tree
  if doc.nesting ≤ depthLimit then (doc.layout style 0 0 true).write style else .error .overflow

end PascalTree

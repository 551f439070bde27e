import PascalTree.Node.Build
import PascalTree.Proofs.Source.Composed

/-! # Saturating columns are as good as unbounded ones

Columns stop at `Column.limit`. The engine below counts them without a limit and asks a given
criterion whether a flat attempt is kept. Printed trees come out the same from both engines: a
column at the limit is off every page, because no call is empty. Only a page as wide as the limit
itself is an exception, on which a call in the first column is flat however wide it is.
-/
namespace PascalTree
set_option autoImplicit false

namespace Unbounded

def advance (style : Style) (column : Nat) : Piece → Nat
  | .text content => column + content.utf8ByteSize
  | .newline depth => style.indentation.width * depth

def endColumn (style : Style) (column : Nat) (layout : Layout) : Nat :=
  layout.foldl (advance style) column

def firstLineWidth : Layout → Nat
  | [] => 0
  | .text content :: rest => content.utf8ByteSize + firstLineWidth rest
  | .newline _ :: _ => 0

section
variable (style : Style) (accepts : Nat → Nat → Bool)

mutual
/-- Lays the document out like `Doc.layout`. A flat attempt is kept when the criterion accepts the
column of the group and the width of the first line. -/
def layout (column depth : Nat) (flat : Bool) : Doc → Layout
  | .empty => []
  | .text content => [.text content]
  | .softLine => if flat then [] else [.newline depth]
  | .spaceLine => if flat then [.text " "] else [.newline depth]
  | .hardLine => [.newline depth]
  | .concat parts => layoutAll column depth flat parts
  | .indent body => layout column (depth + 1) flat body
  | .group body =>
    if body.forcesBreak then layout column depth false body
    else
      let attempt := layout column depth true body
      if accepts column (firstLineWidth attempt) then attempt
      else layout column depth false body

def layoutAll (column depth : Nat) (flat : Bool) : List Doc → Layout
  | [] => []
  | part :: rest =>
    let first := layout column depth flat part
    first ++ layoutAll (endColumn style column first) depth flat rest
end

def render (tree : Option Node) : Except Fault String :=
  (layout style accepts 0 0 true (Node.slotDoc tree)).write style

end

def fits (style : Style) (column width : Nat) : Bool := column + width ≤ style.width.toNat

/-- The line ends on the page, or the page is as wide as columns are told apart and the line starts
in its first column. -/
def fitsSaturated (style : Style) (column width : Nat) : Bool :=
  fits style column width || (style.width.toNat == Column.limit && column == 0)

theorem fitsSaturated_eq_fits {style : Style} (h : style.width.toNat < Column.limit) :
    fitsSaturated style = fits style := by
  funext column width
  simp [fitsSaturated, Nat.ne_of_lt h]

/-- The two criteria are at odds only over a line wider than the widest page. -/
theorem fitsSaturated_ne_fits_iff (style : Style) (column width : Nat) :
    fitsSaturated style column width ≠ fits style column width ↔
      style.width.toNat = Column.limit ∧ column = 0 ∧ Column.limit < width := by
  simp only [fitsSaturated, fits, ne_eq, Bool.or_eq_left_iff_imp, Bool.and_eq_true, beq_iff_eq,
    decide_eq_true_eq]
  omega

end Unbounded

theorem Layout.endColumn_saturate (style : Style) (column : Nat) (layout : Layout) :
    layout.endColumn style (Column.saturate column) =
      Column.saturate (Unbounded.endColumn style column layout) := by
  induction layout generalizing column with
  | nil => rfl
  | cons piece rest ih =>
    have hPiece : piece.advance style (Column.saturate column) =
        Column.saturate (Unbounded.advance style column piece) := by
      cases piece with
      | text content => exact Column.saturate_add_saturate_left column content.utf8ByteSize
      | newline depth => rfl
    rw [Layout.endColumn, List.foldl_cons, hPiece]
    exact ih (Unbounded.advance style column piece)

theorem Layout.firstLineWidth_eq_saturate (layout : Layout) :
    layout.firstLineWidth = Column.saturate (Unbounded.firstLineWidth layout) := by
  induction layout with
  | nil => rfl
  | cons piece rest ih =>
    cases piece with
    | text content =>
      rw [Layout.firstLineWidth, ih, Column.saturate_add_saturate_right, Unbounded.firstLineWidth]
    | newline depth => rfl

/-- A line that is not empty fits in a saturated column when it fits, by the lenient criterion, in
the column itself. -/
theorem Layout.fits_saturate (style : Style) (column : Nat) {layout : Layout}
    (hWidth : 0 < layout.firstLineWidth) :
    layout.fits style (Column.saturate column) =
      Unbounded.fitsSaturated style column (Unbounded.firstLineWidth layout) := by
  have hPage : style.width.toNat ≤ 65535 := Nat.le_of_lt_succ style.width.toNat_lt
  rw [Layout.firstLineWidth_eq_saturate] at hWidth
  rw [Layout.fits, Layout.firstLineWidth_eq_saturate, Bool.eq_iff_iff, decide_eq_true_iff]
  simp only [Unbounded.fitsSaturated, Unbounded.fits, Bool.or_eq_true, Bool.and_eq_true,
    decide_eq_true_eq, beq_iff_eq, Column.saturate, Column.limit] at hWidth ⊢
  omega

namespace Doc

theorem layout_saturate {fine : String → Prop} {doc : Doc} (h : doc.Composed fine) (style : Style)
    (column depth : Nat) (flat : Bool) :
    doc.layout style (Column.saturate column) depth flat =
      Unbounded.layout style (Unbounded.fitsSaturated style) column depth flat doc := by
  induction h generalizing column depth flat with
  | empty | text | softLine | spaceLine | hardLine => simp only [layout, Unbounded.layout]
  | @concat parts hParts ih =>
    clear hParts
    rw [Unbounded.layout]
    induction parts generalizing column with
    | nil => simp [Unbounded.layoutAll]
    | cons part rest ihRest =>
      have hPart := ih part List.mem_cons_self
      have hRest := ihRest fun other hOther => ih other (List.mem_cons_of_mem part hOther)
      rw [layout_concat_cons, Unbounded.layoutAll, hPart, Layout.endColumn_saturate, hRest]
  | indent _ ih =>
    rw [layout_indent, Unbounded.layout]
    exact ih column (depth + 1) flat
  | @group word rest hWord _ ih =>
    -- both engines make the same attempt, so they only have to judge it alike
    have hPositive := firstLineWidth_layout_pos style (Column.saturate column) depth true hWord rest
    rw [layout_group, Unbounded.layout, Layout.fits_saturate style column hPositive, ih, ih]
    split <;> simp_all

end Doc

/-- Printing with saturating columns is printing with unbounded ones, where the page as wide as the
limit is judged leniently. On a narrower page there is nothing to be lenient about, and on that one
only a call in the first column that is wider than the page. -/
theorem render_eq_unbounded (style : Style) (tree : Option Node)
    (hNesting : (Node.slotDoc tree).nesting ≤ depthLimit) :
    render style tree = Unbounded.render style (Unbounded.fitsSaturated style) tree ∧
      (style.width.toNat < Column.limit →
        render style tree = Unbounded.render style (Unbounded.fits style) tree) ∧
      ∀ column width : Nat,
        Unbounded.fitsSaturated style column width ≠ Unbounded.fits style column width ↔
          style.width.toNat = Column.limit ∧ column = 0 ∧ Column.limit < width := by
  have hComposed : (Node.slotDoc tree).Composed fun _ => True :=
    Node.composed_slotDoc (fun _ _ => trivial) tree fun _ _ _ _ _ _ => trivial
  have hSaturated :
      render style tree = Unbounded.render style (Unbounded.fitsSaturated style) tree := by
    rw [render, if_pos hNesting, Unbounded.render, ← Doc.layout_saturate hComposed]
    rfl
  refine ⟨hSaturated, fun hWidth => ?_, Unbounded.fitsSaturated_ne_fits_iff style⟩
  rw [hSaturated, Unbounded.fitsSaturated_eq_fits hWidth]

theorem unbounded_render_broken_call :
    (Node.slotDoc (some (Build.compound [Build.write (Build.identifier "total")]))).nesting ≤
        depthLimit ∧
      Unbounded.render { width := 13 } (Unbounded.fits { width := 13 })
          (some (Build.compound [Build.write (Build.identifier "total")])) =
        .ok "begin\n  write(\n    total\n  )\nend" := by
  have hNesting : (Node.slotDoc (some (Build.compound
      [Build.write (Build.identifier "total")]))).nesting ≤ depthLimit := by decide
  have hUnbounded := (render_eq_unbounded { width := 13 } _ hNesting).2.1 (by decide)
  exact ⟨hNesting, hUnbounded.symm.trans rfl⟩

end PascalTree

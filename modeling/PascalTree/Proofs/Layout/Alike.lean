import Mathlib.Data.List.Forall2
import PascalTree.Proofs.Layout.Basic

/-! # Documents that no page tells apart

Two layouts are alike when they are written alike and every measure the engine takes of them agrees,
so that nothing around them can depend on which of the two is there. Documents are alike when their
layouts are, wherever they start. Alike parts may replace each other inside any document, and it
does not matter how the pieces of a document are grouped or where its texts are cut.
-/
namespace PascalTree
set_option autoImplicit false

namespace Layout

theorem firstLineWidth_append (first second : Layout) :
    firstLineWidth (first ++ second) =
      if first.breaks then first.firstLineWidth
      else Column.saturate (first.firstLineWidth + second.firstLineWidth) := by
  induction first with
  | nil =>
    have hWidth : second.firstLineWidth ≤ Column.limit := by
      cases second with
      | nil => exact Nat.zero_le _
      | cons piece rest =>
        cases piece with
        | text content => exact Column.saturate_le _
        | newline depth => exact Nat.zero_le _
    simp [breaks, firstLineWidth, Column.saturate, hWidth]
  | cons piece rest ih =>
    cases piece with
    | newline depth => simp [breaks, Piece.isNewline, firstLineWidth]
    | text content =>
      rw [List.cons_append, firstLineWidth, ih, firstLineWidth]
      have hBreaks : breaks (.text content :: rest) = breaks rest := rfl
      rw [hBreaks]
      split
      · rfl
      · rw [Column.saturate_add_saturate_right, Column.saturate_add_saturate_left, Nat.add_assoc]

theorem write_append (style : Style) (first second : Layout) :
    write style (first ++ second) =
      (write style first).bind fun left => (write style second).map (left ++ ·) := by
  unfold write
  cases hFirst : first.all (Piece.isPrintable style) <;>
    cases hSecond : second.all (Piece.isPrintable style) <;>
      simp [hFirst, hSecond, print_append, Except.bind, Except.map]

structure Alike (first second : Layout) : Prop where
  breaks : first.breaks = second.breaks
  firstLineWidth : first.firstLineWidth = second.firstLineWidth
  endColumn : ∀ style column, first.endColumn style column = second.endColumn style column
  write : ∀ style, first.write style = second.write style

namespace Alike

theorem refl (layout : Layout) : Alike layout layout :=
  ⟨rfl, rfl, fun _ _ => rfl, fun _ => rfl⟩

theorem symm {first second : Layout} (h : Alike first second) : Alike second first where
  breaks := h.breaks.symm
  firstLineWidth := h.firstLineWidth.symm
  endColumn style column := (h.endColumn style column).symm
  write style := (h.write style).symm

theorem trans {first second third : Layout} (h : Alike first second) (h' : Alike second third) :
    Alike first third where
  breaks := h.breaks.trans h'.breaks
  firstLineWidth := h.firstLineWidth.trans h'.firstLineWidth
  endColumn style column := (h.endColumn style column).trans (h'.endColumn style column)
  write style := (h.write style).trans (h'.write style)

theorem append {first second other rest : Layout} (h : Alike first other) (h' : Alike second rest) :
    Alike (first ++ second) (other ++ rest) where
  breaks := by rw [breaks_append, breaks_append, h.breaks, h'.breaks]
  firstLineWidth := by
    rw [firstLineWidth_append, firstLineWidth_append, h.breaks, h.firstLineWidth,
      h'.firstLineWidth]
  endColumn style column := by
    rw [endColumn_append, endColumn_append, h.endColumn, h'.endColumn]
  write style := by rw [write_append, write_append, h.write, h'.write]

theorem fits {first second : Layout} (h : Alike first second) (style : Style) (column : Nat) :
    first.fits style column = second.fits style column := by
  rw [Layout.fits, Layout.fits, h.firstLineWidth]

end Alike

theorem alike_text_append (first second : String) :
    Alike [.text first, .text second] [.text (first ++ second)] where
  breaks := rfl
  firstLineWidth := by simp [firstLineWidth]
  endColumn style column := by
    simp [endColumn, Piece.advance, Nat.add_assoc]
  write style := by simp [write, Piece.isPrintable, print, Piece.print]

end Layout

namespace Doc

structure Alike (first second : Doc) : Prop where
  nesting : first.nesting = second.nesting
  forcesBreak : first.forcesBreak = second.forcesBreak
  layout : ∀ style column depth flat,
    Layout.Alike (first.layout style column depth flat) (second.layout style column depth flat)

namespace Alike

theorem refl (doc : Doc) : Alike doc doc := ⟨rfl, rfl, fun _ _ _ _ => .refl _⟩

theorem symm {first second : Doc} (h : Alike first second) : Alike second first where
  nesting := h.nesting.symm
  forcesBreak := h.forcesBreak.symm
  layout style column depth flat := (h.layout style column depth flat).symm

theorem trans {first second third : Doc} (h : Alike first second) (h' : Alike second third) :
    Alike first third where
  nesting := h.nesting.trans h'.nesting
  forcesBreak := h.forcesBreak.trans h'.forcesBreak
  layout style column depth flat :=
    (h.layout style column depth flat).trans (h'.layout style column depth flat)

theorem concat {parts others : List Doc} (h : List.Forall₂ Alike parts others) :
    Alike (.concat parts) (.concat others) := by
  induction h with
  | nil => exact .refl _
  | @cons part other parts others hPart _ ih =>
    have hNesting := ih.nesting
    have hForces := ih.forcesBreak
    simp only [Doc.nesting, Doc.forcesBreak] at hNesting hForces
    refine ⟨?_, ?_, fun style column depth flat => ?_⟩
    · rw [Doc.nesting, Doc.nesting, maxNesting, maxNesting, hPart.nesting, hNesting]
    · rw [Doc.forcesBreak, Doc.forcesBreak, anyForcesBreak, anyForcesBreak, hPart.forcesBreak,
        hForces]
    · have hLayout := hPart.layout style column depth flat
      rw [layout_concat_cons, layout_concat_cons, hLayout.endColumn]
      exact hLayout.append (ih.layout style _ depth flat)

theorem indent {body other : Doc} (h : Alike body other) :
    Alike (.indent body) (.indent other) where
  nesting := by rw [Doc.nesting, Doc.nesting, h.nesting]
  forcesBreak := by rw [Doc.forcesBreak, Doc.forcesBreak, h.forcesBreak]
  layout style column depth flat := by
    rw [layout_indent, layout_indent]
    exact h.layout style column (depth + 1) flat

theorem group {body other : Doc} (h : Alike body other) : Alike (.group body) (.group other) where
  nesting := by rw [Doc.nesting, Doc.nesting, h.nesting]
  forcesBreak := by rw [Doc.forcesBreak, Doc.forcesBreak, h.forcesBreak]
  layout style column depth flat := by
    have hFlat := h.layout style column depth true
    rw [layout_group, layout_group, h.forcesBreak, hFlat.fits]
    split
    · exact hFlat
    · exact h.layout style column depth false

theorem join {separator : Doc} {parts others : List Doc} (h : List.Forall₂ Alike parts others) :
    Alike (Doc.join separator parts) (Doc.join separator others) := by
  cases h with
  | nil => exact .refl _
  | cons hPart hRest =>
    refine .concat (.cons hPart ?_)
    rw [List.forall₂_map_left_iff, List.forall₂_map_right_iff]
    exact hRest.imp fun _ _ hPair => .concat (.cons (.refl _) (.cons hPair .nil))

end Alike

theorem maxNesting_append (first second : List Doc) :
    maxNesting (first ++ second) = max (maxNesting first) (maxNesting second) := by
  induction first with
  | nil => simp [maxNesting]
  | cons part rest ih => rw [List.cons_append, maxNesting, ih, maxNesting, Nat.max_assoc]

theorem alike_splice (before inner rest : List Doc) :
    Alike (.concat (before ++ .concat inner :: rest)) (.concat (before ++ (inner ++ rest))) where
  nesting := by simp only [nesting, maxNesting_append, maxNesting]
  forcesBreak := by simp [forcesBreak, anyForcesBreak_eq]
  layout style column depth flat := by
    rw [layout_concat_append, layout_concat_splice, ← layout_concat_append]
    exact .refl _

theorem alike_singleton (doc : Doc) : Alike (.concat [doc]) doc where
  nesting := by simp [nesting, maxNesting]
  forcesBreak := by simp [forcesBreak, anyForcesBreak]
  layout style column depth flat := by
    rw [layout_concat_cons, layout_concat_nil, List.append_nil]
    exact .refl _

theorem alike_text_cut (first second : String) (rest : List Doc) :
    Alike (.concat (.text first :: .text second :: rest))
      (.concat (.text (first ++ second) :: rest)) where
  nesting := by simp [nesting, maxNesting]
  forcesBreak := by simp [forcesBreak, anyForcesBreak]
  layout style column depth flat := by
    have hTexts := Layout.alike_text_append first second
    have hSplit : layout style column depth flat (.concat (.text first :: .text second :: rest)) =
        [.text first, .text second] ++ layout style
          (Layout.endColumn style column [.text first, .text second]) depth flat
          (.concat rest) := by
      rw [layout_concat_cons, layout_concat_cons]
      rfl
    rw [hSplit, layout_concat_cons, hTexts.endColumn]
    exact hTexts.append (.refl _)

end Doc

/-- Trees with alike documents are rendered alike, and one fails as the other does. -/
theorem render_congr {first second : Option Node}
    (h : (Node.slotDoc first).Alike (Node.slotDoc second)) (style : Style) :
    render style first = render style second := by
  unfold render
  dsimp only
  rw [h.nesting, (h.layout style 0 0 true).write]

end PascalTree

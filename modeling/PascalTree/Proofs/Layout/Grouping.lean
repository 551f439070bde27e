import PascalTree.Proofs.Layout.Arrangement

/-! # How pieces are grouped does not matter

A document can be taken apart into the pieces that stand one after another in it, without the
sequences that hold them together and without the empty ones. Two documents with the same pieces are
alike, so wherever they are arranged, what is printed and what is measured is the same.
-/
namespace PascalTree
set_option autoImplicit false

namespace Doc

mutual
/-- The pieces of the document. The levels and groups among them hold pieces, too. -/
def flatten : Doc → List Doc
  | empty => []
  | text content => [text content]
  | softLine => [softLine]
  | spaceLine => [spaceLine]
  | hardLine => [hardLine]
  | concat parts => flattenAll parts
  | indent body => [indent (concat (flatten body))]
  | group body => [group (concat (flatten body))]

def flattenAll : List Doc → List Doc
  | [] => []
  | part :: rest => flatten part ++ flattenAll rest
end

theorem flattenAll_eq (parts : List Doc) : flattenAll parts = (parts.map flatten).flatten := by
  induction parts with
  | nil => rfl
  | cons part rest ih => rw [flattenAll, ih, List.map_cons, List.flatten_cons]

/-- Sequences among the parts can be replaced by what they hold, one after another. -/
theorem alike_concat_flatten (before : List Doc) (lists : List (List Doc)) :
    Alike (.concat (before ++ lists.map .concat)) (.concat (before ++ lists.flatten)) := by
  induction lists generalizing before with
  | nil => exact .refl _
  | cons list rest ih =>
    have hRest := ih (before ++ list)
    rw [List.append_assoc, List.append_assoc] at hRest
    rw [List.map_cons, List.flatten_cons]
    exact (alike_splice before list _).trans hRest

theorem alike_concat_nil : Alike (.concat []) .empty where
  nesting := rfl
  forcesBreak := rfl
  layout style column depth flat := by
    rw [layout_concat_nil, layout]
    exact .refl _

theorem alike_flatten (doc : Doc) : Alike (.concat doc.flatten) doc := by
  induction doc using inductionOn with
  | empty => exact alike_concat_nil
  | text | softLine | spaceLine | hardLine => exact alike_singleton _
  | concat parts ih =>
    have hParts : List.Forall₂ Alike ((parts.map flatten).map .concat) parts := by
      rw [List.map_map, List.forall₂_map_left_iff, List.forall₂_same]
      exact ih
    rw [flatten, flattenAll_eq]
    exact (alike_concat_flatten [] _).symm.trans (.concat hParts)
  | indent body ih => exact (alike_singleton _).trans ih.indent
  | group body ih => exact (alike_singleton _).trans ih.group

theorem alike_of_flatten_eq {first second : Doc} (h : first.flatten = second.flatten) :
    Alike first second := by
  have hSecond := alike_flatten second
  rw [← h] at hSecond
  exact (alike_flatten first).symm.trans hSecond

end Doc

namespace Arrangement

/-- All that can be learned of an arrangement: what is printed, and what the engine measures. -/
structure Measures where
  output : Except Fault String
  breaks : Bool
  firstLineWidth : Nat
  lastLineWidth : Nat

def measures (style : Style) (arrangement : Arrangement) : Measures where
  output := arrangement.write style
  breaks := arrangement.breaks
  firstLineWidth := arrangement.firstLineWidth
  lastLineWidth := arrangement.lastLineWidth style

theorem measures_eq_of_alike {style : Style} {first second : Arrangement}
    (h : Layout.Alike first.pieces second.pieces) : first.measures style = second.measures style := by
  have hOutput := h.write style
  have hBreaks := h.breaks
  have hFirst := h.firstLineWidth
  have hLast := h.endColumn style 0
  rw [write_pieces, write_pieces] at hOutput
  rw [breaks_pieces, breaks_pieces] at hBreaks
  rw [firstLineWidth_pieces, firstLineWidth_pieces] at hFirst
  rw [← Layout.lastLineWidth, ← Layout.lastLineWidth, lastLineWidth_pieces,
    lastLineWidth_pieces] at hLast
  rw [measures, measures, hOutput, hBreaks, hFirst, hLast]

end Arrangement

namespace Doc

/-- Documents with the same pieces are arranged alike: both fail, or both print the same and measure
the same. The layouts of the two are alike as well. -/
theorem measures_arrange_of_flatten_eq {first second : Doc} (h : first.flatten = second.flatten)
    (style : Style) (column depth : UInt16) (flat : Bool) :
    (first.arrange style column.toNat depth.toNat flat).map (Arrangement.measures style) =
        (second.arrange style column.toNat depth.toNat flat).map (Arrangement.measures style) ∧
      Layout.Alike (first.layout style column.toNat depth.toNat flat)
        (second.layout style column.toNat depth.toNat flat) := by
  have hAlike := alike_of_flatten_eq h
  have hLayout := hAlike.layout style column.toNat depth.toNat flat
  refine ⟨?_, hLayout⟩
  have hColumn := Column.toNat_le_limit column
  by_cases hDepth : depth.toNat + second.nesting ≤ depthLimit
  · have hFirstDepth : depth.toNat + first.nesting ≤ depthLimit := hAlike.nesting ▸ hDepth
    obtain ⟨one, hOne, hOnePieces⟩ := exists_arrange style hColumn hFirstDepth flat
    obtain ⟨two, hTwo, hTwoPieces⟩ := exists_arrange style hColumn hDepth flat
    rw [← hOnePieces, ← hTwoPieces] at hLayout
    rw [hOne, hTwo, Except.map, Except.map, Arrangement.measures_eq_of_alike hLayout]
  · have hDeep := Nat.lt_of_not_le hDepth
    have hFirstDeep : depthLimit < depth.toNat + first.nesting := hAlike.nesting ▸ hDeep
    have hStart := toNat_le_depthLimit depth
    rw [arrange_eq_overflow style hColumn hStart hFirstDeep,
      arrange_eq_overflow style hColumn hStart hDeep]

/-- A broken call that is put together in two ways. -/
theorem measures_arrange_of_flatten_eq_call :
    let first := Doc.group (.concat [.text "write(",
      .indent (.concat [.softLine, .concat [.text "total", .empty]]), .softLine, .text ")"])
    let second := Doc.concat [.empty, .group (.concat [.concat [.text "write(",
      .indent (.concat [.concat [.softLine], .text "total"])], .concat [.softLine, .text ")"]])]
    first.flatten = second.flatten ∧
      (first.arrange { width := 8 } 3 1 true).map (Arrangement.measures { width := 8 }) =
        .ok ⟨.ok "write(\n    total\n  )", true, 6, 3⟩ ∧
      (second.arrange { width := 8 } 3 1 true).map (Arrangement.measures { width := 8 }) =
        .ok ⟨.ok "write(\n    total\n  )", true, 6, 3⟩ := by
  intro first second
  have hFlatten : first.flatten = second.flatten := rfl
  have hFirst : (first.arrange { width := 8 } 3 1 true).map
      (Arrangement.measures { width := 8 }) =
        .ok ⟨.ok "write(\n    total\n  )", true, 6, 3⟩ := rfl
  have hSame := (measures_arrange_of_flatten_eq hFlatten { width := 8 } 3 1 true).1
  exact ⟨hFlatten, hFirst, hSame.symm.trans hFirst⟩

end Doc
end PascalTree

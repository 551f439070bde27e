import PascalTree.Proofs.Layout.Basic

/-! # Layouts with holes

Some texts of a layout may be left open but for their size. All layouts that fill the same holes
are measured alike, so nothing about the page depends on what is filled in, and each is printed as
its own texts woven between the same gaps.
-/
namespace PascalTree
set_option autoImplicit false

/-- A piece of a layout, or a hole for a text of the given size with other texts before and after
it on the same piece. -/
inductive Cut
  | fixed (piece : Piece)
  | hole (before after : String) (size : Nat)

/-- The texts between the gaps, of which the first comes before all texts. -/
def weave (first : String) (texts gaps : List String) : String :=
  first ++ String.join (List.zipWith (· ++ ·) texts gaps)

theorem append_weave (before first : String) (texts gaps : List String) :
    before ++ weave first texts gaps = weave (before ++ first) texts gaps :=
  String.append_assoc.symm

/-- The text is put together from such parts. -/
def IsMadeOf (part : String → Prop) (text : String) : Prop :=
  ∃ parts : List String, (∀ other ∈ parts, part other) ∧ text = String.join parts

section
variable {part : String → Prop} {first second : String}

theorem isMadeOf_empty : IsMadeOf part "" := ⟨[], by simp, rfl⟩

theorem isMadeOf_part (h : part first) : IsMadeOf part first :=
  ⟨[first], by simpa using h, by simp⟩

theorem IsMadeOf.append (h : IsMadeOf part first) (hSecond : IsMadeOf part second) :
    IsMadeOf part (first ++ second) := by
  obtain ⟨parts, hParts, rfl⟩ := h
  obtain ⟨others, hOthers, rfl⟩ := hSecond
  exact ⟨parts ++ others, List.forall_mem_append.mpr ⟨hParts, hOthers⟩, String.join_append.symm⟩

end

namespace Cut

/-- What is printed of the cut, whatever is filled in, is made of such parts. -/
def Keeps (style : Style) (part : String → Prop) : Cut → Prop
  | fixed piece => IsMadeOf part (piece.print style)
  | hole before after _ => IsMadeOf part before ∧ IsMadeOf part after

/-- What is printed before the first hole, and what is printed behind each hole. -/
def gaps (style : Style) : List Cut → String × List String
  | [] => ("", [])
  | fixed piece :: rest =>
    (piece.print style ++ (gaps style rest).1, (gaps style rest).2)
  | hole before after _ :: rest =>
    (before, (after ++ (gaps style rest).1) :: (gaps style rest).2)

theorem isMadeOf_gaps {style : Style} {part : String → Prop} {cuts : List Cut}
    (h : ∀ cut ∈ cuts, cut.Keeps style part) :
    IsMadeOf part (gaps style cuts).1 ∧ ∀ gap ∈ (gaps style cuts).2, IsMadeOf part gap := by
  induction cuts with
  | nil => exact ⟨isMadeOf_empty, by simp [gaps]⟩
  | cons cut rest ih =>
    rw [List.forall_mem_cons] at h
    obtain ⟨hFirst, hOthers⟩ := ih h.2
    cases cut with
    | fixed piece => exact ⟨h.1.append hFirst, hOthers⟩
    | hole before after size =>
      exact ⟨h.1.1, List.forall_mem_cons.mpr ⟨h.1.2.append hFirst, hOthers⟩⟩

end Cut

namespace Layout

/-- The layout has the texts in its holes and is cut as given. -/
inductive Fills : List Cut → List String → Layout → Prop
  | nil : Fills [] [] []
  | fixed (piece : Piece) {cuts : List Cut} {texts : List String} {layout : Layout}
    (h : Fills cuts texts layout) : Fills (.fixed piece :: cuts) texts (piece :: layout)
  | hole (before after : String) {text : String} {size : Nat} {cuts : List Cut}
    {texts : List String} {layout : Layout} (hSize : text.utf8ByteSize = size)
    (h : Fills cuts texts layout) :
    Fills (.hole before after size :: cuts) (text :: texts)
      (.text (before ++ text ++ after) :: layout)

namespace Fills

theorem append {cuts more : List Cut} {texts others : List String} {layout rest : Layout}
    (h : Fills cuts texts layout) (hRest : Fills more others rest) :
    Fills (cuts ++ more) (texts ++ others) (layout ++ rest) := by
  induction h with
  | nil => exact hRest
  | fixed piece _ ih => exact .fixed piece ih
  | hole before after hSize _ ih => exact .hole before after hSize ih

theorem pieces (layout : Layout) : Fills (layout.map .fixed) [] layout := by
  induction layout with
  | nil => exact .nil
  | cons piece rest ih => exact .fixed piece ih

section
variable {cuts : List Cut} {texts others : List String} {layout other : Layout}

theorem print_eq (h : Fills cuts texts layout) (style : Style) :
    layout.print style = weave (Cut.gaps style cuts).1 texts (Cut.gaps style cuts).2 := by
  induction h with
  | nil => rfl
  | fixed piece _ ih => rw [print_cons, ih, append_weave, Cut.gaps]
  | hole before after _ _ ih =>
    rw [print_cons, ih, Piece.print, Cut.gaps, weave, weave, List.zipWith_cons_cons,
      String.join_cons]
    simp only [String.append_assoc]

theorem length_gaps (h : Fills cuts texts layout) (style : Style) :
    (Cut.gaps style cuts).2.length = texts.length := by
  induction h with
  | nil => rfl
  | fixed _ _ ih => exact ih
  | hole _ _ _ _ ih => exact congrArg (· + 1) ih

variable (h : Fills cuts texts layout) (hOther : Fills cuts others other)
include h hOther

theorem endColumn_eq (style : Style) (column : Nat) :
    layout.endColumn style column = other.endColumn style column := by
  induction h generalizing column others other with
  | nil =>
    cases hOther
    rfl
  | fixed piece _ ih =>
    cases hOther with
    | fixed _ hRest => exact ih hRest (piece.advance style column)
  | hole before after hSize _ ih =>
    cases hOther with
    | hole _ _ hOtherSize hRest =>
      have hAdvance := ih hRest
      simp only [endColumn, List.foldl_cons, Piece.advance, String.utf8ByteSize_append, hSize,
        hOtherSize] at hAdvance ⊢
      exact hAdvance _

theorem firstLineWidth_eq : layout.firstLineWidth = other.firstLineWidth := by
  induction h generalizing others other with
  | nil =>
    cases hOther
    rfl
  | fixed piece _ ih =>
    cases hOther with
    | fixed _ hRest =>
      cases piece with
      | text content => rw [firstLineWidth, firstLineWidth, ih hRest]
      | newline depth => rfl
  | hole before after hSize _ ih =>
    cases hOther with
    | hole _ _ hOtherSize hRest =>
      simp only [firstLineWidth, String.utf8ByteSize_append, hSize, hOtherSize, ih hRest]

theorem all_isPrintable_eq (style : Style) :
    layout.all (Piece.isPrintable style) = other.all (Piece.isPrintable style) := by
  induction h generalizing others other with
  | nil =>
    cases hOther
    rfl
  | fixed piece _ ih =>
    cases hOther with
    | fixed _ hRest => rw [List.all_cons, List.all_cons, ih hRest]
  | hole before after _ _ ih =>
    cases hOther with
    | hole _ _ _ hRest =>
      rw [List.all_cons, List.all_cons, ih hRest]
      rfl

theorem fits_eq (style : Style) (column : Nat) :
    layout.fits style column = other.fits style column := by
  rw [fits, fits, h.firstLineWidth_eq hOther]

end

end Fills
end Layout
end PascalTree

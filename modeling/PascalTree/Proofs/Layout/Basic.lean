import PascalTree.Render

/-! # Laws of layouts

Induction over documents, their texts, and how layouts of sequences and groups decompose. The column
a layout ends in is all that a later piece sees of an earlier one, so sequences can be regrouped
freely. A group is always laid out as its body, either flat or broken.
-/
namespace PascalTree
set_option autoImplicit false

namespace Doc

/-- What holds of a document whenever it holds of its parts holds of every document. -/
@[elab_as_elim]
theorem inductionOn {motive : Doc → Prop} (doc : Doc) (empty : motive .empty)
    (text : ∀ content, motive (.text content)) (softLine : motive .softLine)
    (spaceLine : motive .spaceLine) (hardLine : motive .hardLine)
    (concat : ∀ parts, (∀ part ∈ parts, motive part) → motive (.concat parts))
    (indent : ∀ body, motive body → motive (.indent body))
    (group : ∀ body, motive body → motive (.group body)) : motive doc := by
  match doc with
  | .empty => exact empty
  | .text content => exact text content
  | .softLine => exact softLine
  | .spaceLine => exact spaceLine
  | .hardLine => exact hardLine
  | .concat parts =>
    refine concat parts fun part hPart => ?_
    have hSize := List.sizeOf_lt_of_mem hPart
    exact inductionOn part empty text softLine spaceLine hardLine concat indent group
  | .indent body =>
    exact indent body (inductionOn body empty text softLine spaceLine hardLine concat indent group)
  | .group body =>
    exact group body (inductionOn body empty text softLine spaceLine hardLine concat indent group)
termination_by sizeOf doc

mutual
def texts : Doc → List String
  | empty | softLine | spaceLine | hardLine => []
  | text content => [content]
  | concat parts => allTexts parts
  | indent body => texts body
  | group body => texts body

def allTexts : List Doc → List String
  | [] => []
  | part :: rest => texts part ++ allTexts rest
end

theorem mem_allTexts_iff {parts : List Doc} {content : String} :
    content ∈ allTexts parts ↔ ∃ part ∈ parts, content ∈ part.texts := by
  induction parts with
  | nil => simp [allTexts]
  | cons part rest ih => simp [allTexts, ih]

section
variable (style : Style) (column depth : Nat) (flat : Bool)

@[simp] theorem layout_concat_nil : layout style column depth flat (.concat []) = [] := by
  rw [layout, layoutAll]

theorem layout_concat_cons (part : Doc) (rest : List Doc) :
    layout style column depth flat (.concat (part :: rest)) =
      layout style column depth flat part ++
        layout style (Layout.endColumn style column (layout style column depth flat part)) depth
          flat (.concat rest) := by
  rw [layout, layoutAll, layout]

@[simp] theorem layout_indent (body : Doc) :
    layout style column depth flat (.indent body) = layout style column (depth + 1) flat body := by
  rw [layout]

theorem layout_group (body : Doc) :
    layout style column depth flat (.group body) =
      if ¬ body.forcesBreak ∧ Layout.fits style column (layout style column depth true body) then
        layout style column depth true body
      else layout style column depth false body := by
  rw [layout]
  by_cases hForced : body.forcesBreak
  · simp [hForced]
  · simp [hForced]

theorem layout_group_eq_or (body : Doc) :
    layout style column depth flat (.group body) = layout style column depth true body ∨
      layout style column depth flat (.group body) = layout style column depth false body := by
  rw [layout_group]
  split
  · exact .inl rfl
  · exact .inr rfl

theorem layout_concat_append (first second : List Doc) :
    layout style column depth flat (.concat (first ++ second)) =
      layout style column depth flat (.concat first) ++
        layout style
          (Layout.endColumn style column (layout style column depth flat (.concat first))) depth
          flat (.concat second) := by
  induction first generalizing column with
  | nil => simp [Layout.endColumn]
  | cons part rest ih =>
    rw [List.cons_append, layout_concat_cons, ih, layout_concat_cons, Layout.endColumn_append,
      List.append_assoc]

theorem layout_concat_splice (inner rest : List Doc) :
    layout style column depth flat (.concat (.concat inner :: rest)) =
      layout style column depth flat (.concat (inner ++ rest)) := by
  rw [layout_concat_cons, layout_concat_append]

theorem firstLineWidth_layout_pos {word : String} (hWord : 0 < word.utf8ByteSize)
    (rest : List Doc) :
    0 < (layout style column depth flat (.concat (.text word :: rest))).firstLineWidth := by
  rw [layout_concat_cons, layout, List.singleton_append, Layout.firstLineWidth]
  simp only [Column.saturate, Column.limit]
  omega

end

/-- Every printed text is one of the document or the space of a flat line. -/
theorem mem_texts_of_mem_layout {doc : Doc} {style : Style} {column depth : Nat} {flat : Bool}
    {content : String} (h : Piece.text content ∈ doc.layout style column depth flat) :
    content = " " ∨ content ∈ doc.texts := by
  induction doc using inductionOn generalizing column depth flat with
  | empty => simp [layout] at h
  | text other =>
    simp only [layout, List.mem_singleton, Piece.text.injEq] at h
    exact .inr (List.mem_singleton.mpr h)
  | softLine => cases flat <;> simp [layout] at h
  | spaceLine =>
    cases flat with
    | false => simp [layout] at h
    | true =>
      simp only [layout, if_true, List.mem_singleton, Piece.text.injEq] at h
      exact .inl h
  | hardLine => simp [layout] at h
  | concat parts ih =>
    rw [texts]
    induction parts generalizing column with
    | nil => simp at h
    | cons part rest ihRest =>
      rw [List.forall_mem_cons] at ih
      rw [layout_concat_cons, List.mem_append] at h
      rw [allTexts, List.mem_append]
      rcases h with hPart | hRest
      · exact (ih.1 hPart).imp_right .inl
      · exact (ihRest ih.2 hRest).imp_right .inr
  | indent body ih =>
    rw [layout_indent] at h
    exact ih h
  | group body ih =>
    rcases layout_group_eq_or style column depth flat body with hFlat | hBroken
    · exact ih (hFlat ▸ h)
    · exact ih (hBroken ▸ h)

end Doc

namespace Layout

@[simp] theorem print_nil (style : Style) : print style [] = "" := rfl

theorem print_cons (style : Style) (piece : Piece) (rest : Layout) :
    print style (piece :: rest) = piece.print style ++ print style rest := by
  rw [print, List.map_cons, String.join_cons, print]

theorem write_eq_ok_iff (style : Style) (layout : Layout) (output : String) :
    layout.write style = .ok output ↔
      layout.all (Piece.isPrintable style) ∧ layout.print style = output := by
  unfold write
  cases layout.all (Piece.isPrintable style) with
  | false => simp
  | true => simp

end Layout

/-- A tree has a source text when its document is not nested too deep and no line of its layout is
indented too far. -/
theorem render_eq_ok_iff (style : Style) (tree : Option Node) (source : String) :
    render style tree = .ok source ↔
      (Node.slotDoc tree).nesting ≤ depthLimit ∧
        ((Node.slotDoc tree).layout style 0 0 true).all (Piece.isPrintable style) ∧
          ((Node.slotDoc tree).layout style 0 0 true).print style = source := by
  unfold render
  by_cases hNesting : (Node.slotDoc tree).nesting ≤ depthLimit
  · simp [hNesting, Layout.write_eq_ok_iff]
  · simp [hNesting]

end PascalTree

import PascalTree.Node.Build
import PascalTree.Proofs.Source.Composed
import PascalTree.Proofs.Source.Spelling

/-! # A block is printed like its statements on a narrower page

One level of indentation moves every column of a layout by the same amount. A page that is wider by
that amount hides the difference: all groups are decided as before, and the printed lines only gain
the indentation at their start.
-/
namespace PascalTree
set_option autoImplicit false

namespace Style

/-- The page without the columns of one level of indentation. -/
def narrowed (style : Style) : Style :=
  { style with width := style.width - UInt16.ofNat style.indentation.width }

theorem toNat_width_narrowed {style : Style} (h : style.indentation.width ≤ style.width.toNat) :
    style.narrowed.width.toNat + style.indentation.width = style.width.toNat := by
  have hWidth := style.width.toNat_lt
  have hLevel : (UInt16.ofNat style.indentation.width).toNat = style.indentation.width := by
    rw [UInt16.toNat_ofNat']
    exact Nat.mod_eq_of_lt (by omega)
  have hFits : UInt16.ofNat style.indentation.width ≤ style.width := by
    rw [UInt16.le_iff_toNat_le, hLevel]
    exact h
  rw [narrowed, UInt16.toNat_sub_of_le _ _ hFits, hLevel]
  omega

end Style

namespace Piece

def deepen : Piece → Piece
  | text content => text content
  | newline depth => newline (depth + 1)

end Piece

namespace Layout

def deepen (layout : Layout) : Layout := layout.map Piece.deepen

@[simp] theorem deepen_append (first second : Layout) :
    deepen (first ++ second) = first.deepen ++ second.deepen :=
  List.map_append

@[simp] theorem firstLineWidth_deepen (layout : Layout) :
    layout.deepen.firstLineWidth = layout.firstLineWidth := by
  induction layout with
  | nil => rfl
  | cons piece rest ih =>
    cases piece with
    | text content =>
      rw [deepen, List.map_cons, Piece.deepen, firstLineWidth, firstLineWidth, ← ih, deepen]
    | newline depth => rfl

theorem endColumn_deepen (style : Style) (column : Nat) (layout : Layout) :
    layout.deepen.endColumn style (Column.saturate (column + style.indentation.width)) =
      Column.saturate (layout.endColumn style.narrowed column + style.indentation.width) := by
  induction layout generalizing column with
  | nil => rfl
  | cons piece rest ih =>
    have hPiece : piece.deepen.advance style (Column.saturate (column + style.indentation.width)) =
        Column.saturate (piece.advance style.narrowed column + style.indentation.width) := by
      cases piece with
      | text content =>
        simp only [Piece.deepen, Piece.advance, Column.saturate_add_saturate_left]
        congr 1
        omega
      | newline depth =>
        simp only [Piece.deepen, Piece.advance, Column.saturate_add_saturate_left, Style.narrowed]
        rfl
    rw [deepen, List.map_cons, endColumn, List.foldl_cons, hPiece]
    exact ih (piece.advance style.narrowed column)

/-- A line that is not empty fits one level further right when it fits on the narrowed page. -/
theorem fits_deepen {style : Style} (hPage : style.indentation.width ≤ style.width.toNat)
    (column : Nat) {layout : Layout} (hWidth : 0 < layout.firstLineWidth) :
    layout.deepen.fits style (Column.saturate (column + style.indentation.width)) =
      layout.fits style.narrowed column := by
  have hNarrowed := Style.toNat_width_narrowed hPage
  have hLimit := style.width.toNat_lt
  rw [fits, fits, firstLineWidth_deepen, decide_eq_decide]
  simp only [Column.saturate, Column.limit]
  omega

end Layout

namespace Doc

theorem layout_deepen {fine : String → Prop} {doc : Doc} (h : doc.Composed fine) {style : Style}
    (hPage : style.indentation.width ≤ style.width.toNat) (column depth : Nat) (flat : Bool) :
    doc.layout style (Column.saturate (column + style.indentation.width)) (depth + 1) flat =
      (doc.layout style.narrowed column depth flat).deepen := by
  induction h generalizing column depth flat with
  | empty | text | hardLine => rfl
  | softLine | spaceLine => cases flat <;> rfl
  | @concat parts hParts ih =>
    clear hParts
    induction parts generalizing column with
    | nil => simp [Layout.deepen]
    | cons part rest ihRest =>
      have hPart := ih part List.mem_cons_self
      have hRest := ihRest fun other hOther => ih other (List.mem_cons_of_mem part hOther)
      rw [layout_concat_cons, hPart, Layout.endColumn_deepen, hRest, layout_concat_cons,
        Layout.deepen_append]
  | indent _ ih =>
    rw [layout_indent, layout_indent]
    exact ih column (depth + 1) flat
  | @group word rest hWord _ ih =>
    have hPositive := firstLineWidth_layout_pos style.narrowed column depth true hWord rest
    rw [layout_group, layout_group, ih, ih, Layout.fits_deepen hPage column hPositive]
    split <;> rfl

/-- Every printed text is fine if all texts of the document and the space of a flat line are. -/
theorem fine_of_mem_layout {fine : String → Prop} (hSpace : fine " ") {doc : Doc}
    (h : doc.Composed fine) (style : Style) (column depth : Nat) (flat : Bool) {content : String}
    (hMem : Piece.text content ∈ doc.layout style column depth flat) : fine content := by
  rcases mem_texts_of_mem_layout hMem with rfl | hText
  · exact hSpace
  · exact h.fine_of_mem_texts hText

end Doc

/-- The text with one more level of indentation on every line but the first. -/
def indentLines (level text : String) : String :=
  String.ofList (text.toList.flatMap fun char =>
    if char = '\n' then char :: level.toList else [char])

theorem indentLines_append (level first second : String) :
    indentLines level (first ++ second) = indentLines level first ++ indentLines level second := by
  simp [indentLines, String.toList_append, List.flatMap_append, String.ofList_append]

theorem indentLines_eq_self (level : String) {text : String} (h : '\n' ∉ text.toList) :
    indentLines level text = text := by
  have hChars : ∀ chars : List Char, '\n' ∉ chars → chars.flatMap (fun char =>
      if char = '\n' then char :: level.toList else [char]) = chars := by
    intro chars hChars
    induction chars with
    | nil => rfl
    | cons char rest ih =>
      rw [List.mem_cons, not_or] at hChars
      rw [List.flatMap_cons, if_neg (Ne.symm hChars.1), ih hChars.2]
      rfl
  rw [indentLines, hChars text.toList h, String.ofList_toList]

theorem Indentation.text_succ (indentation : Indentation) (depth : Nat) :
    indentation.text (depth + 1) = indentation.text 1 ++ indentation.text depth := by
  cases indentation with
  | spaces count =>
    rw [text, text, text, ← String.ofList_append, List.replicate_append_replicate, ← Nat.mul_add,
      Nat.add_comm]
  | tab =>
    rw [text, text, text, ← String.ofList_append, List.replicate_append_replicate, Nat.add_comm]

theorem Indentation.text_zero (indentation : Indentation) : indentation.text 0 = "" := by
  cases indentation <;> rfl

theorem Indentation.not_mem_text (indentation : Indentation) (depth : Nat) :
    '\n' ∉ (indentation.text depth).toList := by
  cases indentation <;> simp [Indentation.text]

theorem indentLines_lineEnding (level : String) (ending : LineEnding) :
    indentLines level ending.text = ending.text ++ level := by
  cases ending <;> simp [indentLines, LineEnding.text, ← String.toList_inj]

theorem Layout.print_deepen (style : Style) {layout : Layout}
    (h : ∀ content, Piece.text content ∈ layout → '\n' ∉ content.toList) :
    layout.deepen.print style =
      indentLines (style.indentation.text 1) (layout.print style.narrowed) := by
  induction layout with
  | nil => rfl
  | cons piece rest ih =>
    have hRest := ih fun content hContent => h content (List.mem_cons_of_mem piece hContent)
    have hPiece : piece.deepen.print style =
        indentLines (style.indentation.text 1) (piece.print style.narrowed) := by
      cases piece with
      | text content => exact (indentLines_eq_self _ (h content List.mem_cons_self)).symm
      | newline depth =>
        calc
          (Piece.newline (depth + 1)).print style =
              style.lineEnding.text ++
                (style.indentation.text 1 ++ style.indentation.text depth) := by
            rw [Piece.print, Indentation.text_succ]
          _ = indentLines (style.indentation.text 1)
              (style.lineEnding.text ++ style.indentation.text depth) := by
            rw [indentLines_append, indentLines_lineEnding,
              indentLines_eq_self _ (Indentation.not_mem_text _ depth), String.append_assoc]
    rw [Layout.deepen, List.map_cons, Layout.print_cons, hPiece, ← Layout.deepen, hRest,
      ← indentLines_append, ← Layout.print_cons]

theorem Layout.all_isPrintable_of_deepen {style : Style} {layout : Layout}
    (h : layout.deepen.all (Piece.isPrintable style)) :
    layout.all (Piece.isPrintable style.narrowed) := by
  rw [Layout.deepen, List.all_map, List.all_eq_true] at h
  rw [List.all_eq_true]
  intro piece hPiece
  have hDeep := h piece hPiece
  cases piece with
  | text content => rfl
  | newline depth =>
    revert hDeep
    simp only [Function.comp_apply, Piece.deepen, Piece.isPrintable, Style.narrowed,
      Indentation.isPrintable]
    cases style.indentation with
    | spaces count =>
      simp only [decide_eq_true_eq]
      exact Nat.le_trans (Nat.mul_le_mul_left _ (Nat.le_succ depth))
    | tab => exact id

namespace Node

theorem doc_compound {statements : Node} (hFilled : statements ≠ .list .statementList []) :
    (compound (some statements)).doc = .concat [.text "begin",
      .indent (.concat [.hardLine, statements.doc]), .hardLine, .text "end"] := by
  rw [doc, Source.block, Source.statements.eq_def]
  split
  · simp_all
  · simp_all
  · rfl

theorem layout_compound (style : Style) {statements : Node}
    (hFilled : statements ≠ .list .statementList []) :
    (compound (some statements)).doc.layout style 0 0 true =
      [.text "begin", .newline 1] ++
        (statements.doc.layout style (Column.saturate (0 + style.indentation.width)) 1 true ++
          [.newline 0, .text "end"]) := by
  rw [doc_compound hFilled]
  simp [Doc.layout, Doc.layoutAll, Layout.endColumn, Piece.advance]

theorem nesting_le_compound {statements : Node}
    (hFilled : statements ≠ .list .statementList []) :
    statements.doc.nesting ≤ (compound (some statements)).doc.nesting := by
  rw [doc_compound hFilled]
  simp only [Doc.nesting, Doc.maxNesting]
  omega

end Node

/-- A printed leaf holds a blank other than the space only if the text that it owns does. -/
theorem Source.not_mem_leaf_of_isBlank {payload : Payload} {blank : Char} (hBlank : isBlank blank)
    (hSpace : blank ≠ ' ') (h : ∀ text ∈ payload.text, blank ∉ text.toList) :
    ∀ text ∈ (leaf payload).texts, blank ∉ text.toList := by
  have hSpelling := Payload.not_mem_spelling hBlank h
  have hLiterals : ∀ text ∈ [" ", " to ", " downto "], blank ∉ text.toList := by
    rcases isBlank_iff.mp hBlank with rfl | rfl | rfl | rfl
    · contradiction
    all_goals decide
  intro text hMem
  cases payload with
  | direction way =>
    simp only [leaf, Doc.texts, List.mem_singleton] at hMem
    rw [hMem]
    cases way with
    | up => exact hLiterals " to " (by decide)
    | down => exact hLiterals " downto " (by decide)
  | operator sign =>
    simp only [leaf, Doc.texts, Doc.allTexts, List.cons_append, List.nil_append, List.mem_cons,
      List.not_mem_nil, or_false] at hMem
    rcases hMem with rfl | rfl | rfl
    · exact hLiterals " " (by decide)
    · exact hSpelling
    · exact hLiterals " " (by decide)
  | _ =>
    simp only [leaf, Doc.texts, List.mem_singleton] at hMem
    rw [hMem]
    exact hSpelling

theorem Source.not_mem_leaf {payload : Payload} (h : ∀ text ∈ payload.text, '\n' ∉ text.toList) :
    ∀ text ∈ (leaf payload).texts, '\n' ∉ text.toList :=
  not_mem_leaf_of_isBlank (by decide) (by decide) h

/-- A block is its keywords around its statements, which are printed on a page narrower by one level
and then moved in by that level. -/
theorem render_compound {style : Style} {statements : Node} {source : String}
    (hFilled : statements ≠ .list .statementList [])
    (hTexts : ∀ payload ∈ statements.payloads, ∀ text ∈ payload.text, '\n' ∉ text.toList)
    (hPage : style.indentation.width ≤ style.width.toNat)
    (hSource : render style (some (.compound (some statements))) = .ok source) :
    ∃ inner, render style.narrowed (some statements) = .ok inner ∧
      source = "begin" ++ style.lineEnding.text ++ style.indentation.text 1 ++
        indentLines (style.indentation.text 1) inner ++ style.lineEnding.text ++ "end" := by
  have hComposed : statements.doc.Composed fun text => '\n' ∉ text.toList :=
    Node.composed_doc (by decide) statements fun payload hPayload =>
      Source.not_mem_leaf (hTexts payload hPayload)
  obtain ⟨hNesting, hPrintable, rfl⟩ := (render_eq_ok_iff _ _ _).mp hSource
  simp only [Node.slotDoc] at hNesting hPrintable ⊢
  rw [Node.layout_compound style hFilled, Doc.layout_deepen hComposed hPage 0 0 true]
    at hPrintable ⊢
  rw [List.all_append, List.all_append, Bool.and_eq_true, Bool.and_eq_true] at hPrintable
  refine ⟨(statements.doc.layout style.narrowed 0 0 true).print style.narrowed, ?_, ?_⟩
  · exact (render_eq_ok_iff _ _ _).mpr
      ⟨Nat.le_trans (Node.nesting_le_compound hFilled) hNesting,
        Layout.all_isPrintable_of_deepen hPrintable.2.1, rfl⟩
  · rw [Layout.print_append, Layout.print_append, Layout.print_deepen style fun content hContent =>
      Doc.fine_of_mem_layout (by decide) hComposed style.narrowed 0 0 true hContent]
    simp [Layout.print_cons, Piece.print, Indentation.text_zero, String.append_assoc]

/-- A call that fits on the page of the block exactly, and one that does not. -/
theorem render_compound_calls :
    render { width := 11 } (some (.compound (some (Build.statementList
        [Build.write (Build.identifier "ab"), Build.write (Build.identifier "abc")])))) =
      .ok "begin\n  write(ab);\n  write(\n    abc\n  )\nend" ∧
    ∃ inner, render (Style.narrowed { width := 11 }) (some (Build.statementList
        [Build.write (Build.identifier "ab"), Build.write (Build.identifier "abc")])) = .ok inner ∧
      "begin\n  write(ab);\n  write(\n    abc\n  )\nend" =
        "begin" ++ "\n" ++ "  " ++ indentLines "  " inner ++ "\n" ++ "end" :=
  ⟨rfl, @render_compound { width := 11 } _ _ (by simp [Build.statementList]) (by decide)
    (by decide) rfl⟩

end PascalTree

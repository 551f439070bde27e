import PascalTree.Proofs.Layout.Lines
import PascalTree.Proofs.Source.Statement

/-! # A wider page has no more lines

Two pages of different widths are printed side by side. A call in the same column of both is never
broken on the wider one alone, and where it is broken on the narrower one alone it has more lines
there. Behind a call the columns may differ, but nothing depends on them before the line ends, so
every statement starts in the same column of both pages.
-/
namespace PascalTree
set_option autoImplicit false

namespace Layout

def breakCount (layout : Layout) : Nat := layout.countP Piece.isNewline

theorem breakCount_append (first second : Layout) :
    breakCount (first ++ second) = first.breakCount + second.breakCount :=
  List.countP_append

theorem breakCount_eq_zero_iff (layout : Layout) :
    layout.breakCount = 0 ↔ layout.breaks = false := by
  rw [breakCount, List.countP_eq_zero, breaks, List.any_eq_false]

/-- The first layout has fewer breaks than the second, or there is no difference at all. -/
def Eases (wide narrow : Layout) : Prop := wide.breakCount < narrow.breakCount ∨ wide = narrow

namespace Eases

variable {wide narrow : Layout}

theorem breakCount_le (h : Eases wide narrow) : wide.breakCount ≤ narrow.breakCount := by
  rcases h with hFewer | rfl
  · exact Nat.le_of_lt hFewer
  · exact Nat.le_refl _

theorem append {wideRest narrowRest : Layout} (h : Eases wide narrow)
    (hRest : Eases wideRest narrowRest) : Eases (wide ++ wideRest) (narrow ++ narrowRest) := by
  have hCount := h.breakCount_le
  have hRestCount := hRest.breakCount_le
  rw [Eases, breakCount_append, breakCount_append]
  rcases h with hFewer | rfl
  · left
    omega
  · rcases hRest with hFewer | rfl
    · left
      omega
    · exact .inr rfl

end Eases

/-- Every break ends a line, and a text without line breaks ends none. -/
theorem count_print (style : Style) {layout : Layout}
    (h : ∀ content, Piece.text content ∈ layout → Line.IsWhole content) :
    (layout.print style).toList.count '\n' = layout.breakCount := by
  induction layout with
  | nil => rfl
  | cons piece rest ih =>
    have hRest := ih fun content hContent => h content (List.mem_cons_of_mem piece hContent)
    rw [print_cons, String.toList_append, List.count_append, hRest, breakCount, breakCount,
      List.countP_cons]
    cases piece with
    | text content =>
      have hText := (h content List.mem_cons_self).2
      simp [Piece.print, Piece.isNewline, List.count_eq_zero.mpr hText]
    | newline depth =>
      have hLevel := List.count_eq_zero.mpr (style.indentation.not_mem_text depth)
      have hEnding : style.lineEnding.text.toList.count '\n' = 1 := by
        cases style.lineEnding <;> decide
      simp only [Piece.print, String.toList_append, List.count_append, hLevel, hEnding,
        Piece.isNewline, if_true]
      omega

end Layout

namespace Doc

/-- The document has fewer breaks on a wider page, or the same. Unless `apart` is set, it has to
start in the same column of both pages. -/
def Relaxes (apart : Bool) (doc : Doc) : Prop :=
  ∀ (style : Style) (width : UInt16) (column column' depth : Nat), style.width ≤ width →
    (apart = false → column = column') →
    Layout.Eases (doc.layout { style with width := width } column depth true)
      (doc.layout style column' depth true)

section
variable {apart : Bool} {part : Doc} {rest : List Doc}

theorem relaxes_of_isPlain {doc : Doc} (h : doc.isPlain true) : doc.Relaxes apart := by
  intro style width column column' depth _ _
  exact .inr (layout_of_isPlain h _ _ column column' depth true)

theorem relaxes_empty : Relaxes apart .empty := relaxes_of_isPlain isPlain_empty

theorem relaxes_nil : Relaxes apart (.concat []) := relaxes_of_isPlain isPlain_concat_nil

/-- Behind a part that may end in different columns nothing may depend on the column. -/
theorem Relaxes.cons (hPart : part.Relaxes apart) (hRest : Relaxes true (.concat rest)) :
    Relaxes apart (.concat (part :: rest)) := by
  intro style width column column' depth hWidth hColumn
  rw [layout_concat_cons, layout_concat_cons]
  exact (hPart style width column column' depth hWidth hColumn).append
    (hRest style width _ _ depth hWidth nofun)

/-- A plain part leaves both pages in the same column. -/
theorem Relaxes.cons_plain (hPart : part.isPlain true)
    (hRest : Relaxes apart (.concat rest)) : Relaxes apart (.concat (part :: rest)) := by
  intro style width column column' depth hWidth hColumn
  have hSame :=
    layout_of_isPlain hPart { style with width := width } style column column' depth true
  rw [layout_concat_cons, layout_concat_cons, hSame]
  refine Layout.Eases.append (.inr rfl) (hRest style width _ _ depth hWidth ?_)
  intro hTogether
  rw [hColumn hTogether]
  rfl

theorem Relaxes.cons_text (content : String) (hRest : Relaxes apart (.concat rest)) :
    Relaxes apart (.concat (.text content :: rest)) :=
  .cons_plain (isPlain_text content) hRest

/-- A new line starts in the same column of both pages. -/
theorem Relaxes.line (hRest : Relaxes false (.concat rest)) :
    Relaxes apart (.concat (.hardLine :: rest)) := by
  intro style width column column' depth hWidth _
  rw [layout_concat_cons, layout_concat_cons]
  exact Layout.Eases.append (.inr rfl) (hRest style width _ _ depth hWidth fun _ => rfl)

theorem Relaxes.indent {body : Doc} (h : body.Relaxes apart) : Relaxes apart (.indent body) := by
  intro style width column column' depth hWidth hColumn
  exact h style width column column' (depth + 1) hWidth hColumn

theorem Relaxes.single (h : part.Relaxes apart) : Relaxes apart (.concat [part]) :=
  h.cons relaxes_nil

theorem Relaxes.splice {inner : List Doc} (h : Relaxes apart (.concat (inner ++ rest))) :
    Relaxes apart (.concat (.concat inner :: rest)) := by
  intro style width column column' depth hWidth hColumn
  rw [layout_concat_splice, layout_concat_splice]
  exact h style width column column' depth hWidth hColumn

theorem relaxes_all (h : ∀ part ∈ rest, part.Relaxes true) : Relaxes true (.concat rest) := by
  induction rest with
  | nil => exact relaxes_nil
  | cons part rest ih =>
    rw [List.forall_mem_cons] at h
    exact h.1.cons (ih h.2)

/-- A group is flat on the wider page if it is on the narrower one, and it has no breaks when it is
flat. -/
theorem relaxes_group {body : Doc} (hPlain : body.isPlain false)
    (hBreaks : ∀ style column depth, (body.layout style column depth false).breaks) :
    Relaxes false (.group body) := by
  intro style width column column' depth hWidth hColumn
  obtain rfl := hColumn rfl
  have hSame := layout_of_isPlain hPlain { style with width := width } style column column depth
  have hFlat := (Layout.breakCount_eq_zero_iff _).mpr (breaks_layout_flat hPlain style column depth)
  have hBroken : 0 < (body.layout style column depth false).breakCount := by
    rw [Nat.pos_iff_ne_zero, ne_eq, Layout.breakCount_eq_zero_iff, hBreaks]
    exact Bool.noConfusion
  rw [layout_group, layout_group, hSame, hSame, forcesBreak_of_isPlain hPlain]
  generalize body.layout style column depth true = attempt at hFlat ⊢
  have hWider : attempt.fits style column → attempt.fits { style with width := width } column := by
    rw [UInt16.le_iff_toNat_le] at hWidth
    simp only [Layout.fits, decide_eq_true_eq]
    omega
  by_cases hNarrow : attempt.fits style column
  · rw [if_pos ⟨Bool.false_ne_true, hWider hNarrow⟩, if_pos ⟨Bool.false_ne_true, hNarrow⟩]
    exact .inr rfl
  · rw [if_neg (fun hFits : _ ∧ attempt.fits style column => hNarrow hFits.2)]
    split
    · left
      rwa [hFlat]
    · exact .inr rfl

theorem relaxes_end (word : String) : Relaxes true (.concat [.hardLine, .text word]) :=
  .line (.cons_text word relaxes_nil)

end

end Doc

namespace Source

open Doc

theorem relaxes_call (routine : Routine) {argument : Doc} (h : argument.isPlain false) :
    (call routine argument).Relaxes false := by
  apply relaxes_group
  · simp [h]
  · intro style column depth
    rw [layout_concat_cons, layout_concat_cons, layout_concat_cons, layout_indent,
      layout_concat_cons]
    simp [layout, Layout.breaks, Piece.isNewline]

theorem relaxes_body {slot : Option Node} {printed : Doc} (h : printed.Relaxes false) :
    (body slot printed).Relaxes false := by
  rw [body.eq_def]
  split
  · exact relaxes_empty
  · exact .cons_text " " h.single
  · exact .indent (.line h.single)

theorem relaxes_block {slot : Option Node} {printed : Doc} (h : printed.Relaxes false) :
    (block (statements slot printed)).Relaxes false := by
  refine .cons_text "begin" (.cons ?_ (relaxes_end "end"))
  rw [statements.eq_def]
  split
  · exact relaxes_empty
  · exact relaxes_empty
  · exact .indent (.line h.single)

theorem relaxes_statementList {items : List Doc} (h : ∀ item ∈ items, item.Relaxes false) :
    (list .statementList items).Relaxes false := by
  cases items with
  | nil => exact relaxes_nil
  | cons first rest =>
    rw [List.forall_mem_cons] at h
    refine .cons h.1 (relaxes_all ?_)
    intro part hPart
    obtain ⟨item, hItem, rfl⟩ := List.mem_map.mp hPart
    exact .splice (.cons_text ";" (.line (h.2 item hItem).single))

theorem relaxes_consequent {slot other : Option Node} {printed : Doc} (h : printed.Relaxes false) :
    (consequent slot other printed).Relaxes false := by
  rw [consequent]
  split
  · exact .cons_text " begin" (.cons (.indent (.line h.single)) (relaxes_end "end"))
  · exact relaxes_body h

theorem relaxes_otherwise {slot : Option Node} {printed : Doc} (h : printed.Relaxes false) :
    (otherwise slot printed).Relaxes true := by
  rw [otherwise.eq_def]
  split
  · exact relaxes_empty
  · exact .line (.cons_text "else" (.single (.cons_text " " h.single)))
  · exact .line (.cons_text "else" (relaxes_body h).single)

end Source

namespace Node

open Doc

theorem IsExpression.isPlain_doc {node : Node} (h : node.IsExpression) (hard : Bool) :
    node.doc.isPlain hard := by
  apply Node.isPlain_doc node
  intro label hLabel
  have hKind := h label hLabel
  revert hKind
  cases label.kind <;> simp [Kind.isExpression, Kind.isPlain]

theorem isPlain_operand {hard : Bool} {slot : Option Node}
    (h : ∀ node ∈ slot, node.IsExpression) : (slotDoc slot).isPlain hard :=
  isPlain_slotDoc fun node hNode => (h node hNode).isPlain_doc hard

theorem relaxes_slotDoc {slot : Option Node} (h : ∀ node ∈ slot, node.doc.Relaxes false) :
    (slotDoc slot).Relaxes false := by
  cases slot with
  | none => exact relaxes_empty
  | some node => exact h node rfl

theorem IsStatement.relaxes {node : Node} (h : node.IsStatement IsExpression) :
    node.doc.Relaxes false := by
  induction h with
  | emptyBlock => exact Source.relaxes_block relaxes_empty
  | block _ ih =>
    apply Source.relaxes_block
    exact Source.relaxes_statementList (forall_mem_itemDocs ih)
  | call routine hArgument => exact Source.relaxes_call routine (isPlain_operand hArgument)
  | @assign target position value hTarget hPosition hValue =>
    exact .cons_plain (isPlain_operand hTarget) (.cons_plain
      (Source.isPlain_position position (isPlain_operand hPosition))
      (.cons_text " := " (.cons_plain (isPlain_operand hValue) relaxes_nil)))
  | @conditional condition consequent otherwise hCondition _ _ ihConsequent ihOtherwise =>
    have hPlain : isPlain true (concat [.text "if ", slotDoc condition, .text " then"]) := by
      simp [isPlain_operand hCondition]
    exact .cons_plain hPlain (.cons (Source.relaxes_consequent (relaxes_slotDoc ihConsequent))
      (Source.relaxes_otherwise (relaxes_slotDoc ihOtherwise)).single)
  | whileLoop hCondition _ ihBody =>
    exact .cons_text "while " (.cons_plain (isPlain_operand hCondition)
      (.cons_text " do" (Source.relaxes_body (relaxes_slotDoc ihBody)).single))
  | @forLoop counter start direction stop body hCounter hStart hDirection hStop hBody ihBody =>
    have hWay : isPlain true (slotDoc direction) := by
      apply isPlain_slotDoc
      intro node hNode
      obtain ⟨way, rfl⟩ := hDirection node hNode
      exact Source.isPlain_leaf true (.direction way)
    exact .cons_text "for " (.cons_plain (isPlain_operand hCounter)
      (.cons_text " := " (.cons_plain (isPlain_operand hStart)
        (.cons_plain hWay (.cons_plain (isPlain_operand hStop)
          (.cons_text " do" (Source.relaxes_body (relaxes_slotDoc ihBody)).single))))))

theorem IsDeclaration.isPlain_doc {node : Node} (h : node.IsDeclaration IsExpression) :
    node.doc.isPlain true := by
  obtain @⟨names, lower, upper, element, hNames, hLower, hUpper, hElement⟩ := h
  have hList : (list .identifierList names).doc.isPlain true := by
    rw [doc]
    apply Source.isPlain_list rfl
    apply forall_mem_itemDocs
    intro name hName
    exact (hNames name hName).isPlain_doc true
  have hType : (type lower upper element).doc.isPlain true := by
    apply Source.isPlain_type lower (isPlain_operand hLower) (isPlain_operand hUpper)
    apply isPlain_slotDoc
    intro node hNode
    obtain ⟨name, rfl⟩ := hElement node hNode
    exact Source.isPlain_leaf true (.simpleType name)
  rw [doc, isPlain_concat_cons, isPlain_concat_cons, isPlain_concat_cons]
  exact ⟨hList, isPlain_text _, hType, isPlain_concat_nil⟩

theorem IsDeclarations.isPlain_doc {node : Node} (h : node.IsDeclarations IsExpression) :
    node.doc.isPlain true := by
  cases h with
  | lone h => exact h.isPlain_doc
  | several h =>
    rw [doc]
    apply Source.isPlain_list rfl
    apply forall_mem_itemDocs
    intro node hNode
    exact (h node hNode).isPlain_doc

theorem IsProgram.relaxes {node : Node} (h : node.IsProgram IsExpression) :
    node.doc.Relaxes false := by
  obtain @⟨declarations, statements, hDeclarations, hBody⟩ := h
  have hSection : (Source.declarations declarations (slotDoc declarations)).isPlain true := by
    apply Source.isPlain_declarations
    apply isPlain_slotDoc
    intro node hNode
    exact (hDeclarations node hNode).isPlain_doc
  have hEnd : Relaxes true (.concat [.text ".", .hardLine]) := relaxes_of_isPlain (by simp)
  exact .cons_text "program " (.cons_text programName (.cons_text ";" (.line
    (.cons_plain hSection (.cons hBody.relaxes hEnd)))))

end Node

def lineBreaks (source : String) : Nat := source.toList.count '\n'

/-- A statement or a program does not get more lines on a wider page, and if it keeps its number of
lines it keeps all of its text. -/
theorem lineBreaks_render_widened {style : Style} {width : UInt16} {tree : Node}
    {narrow wide : String}
    (hTree : tree.IsStatement Node.IsExpression ∨ tree.IsProgram Node.IsExpression)
    (hTexts : ∀ payload ∈ tree.payloads, ∀ text ∈ payload.text, Layout.Line.IsWhole text)
    (hWidth : style.width ≤ width) (hNarrow : render style (some tree) = .ok narrow)
    (hWide : render { style with width := width } (some tree) = .ok wide) :
    lineBreaks wide ≤ lineBreaks narrow ∧
      (lineBreaks wide = lineBreaks narrow → wide = narrow) := by
  have hRelaxes : tree.doc.Relaxes false := by
    rcases hTree with hStatement | hProgram
    · exact hStatement.relaxes
    · exact hProgram.relaxes
  have hEases := hRelaxes style width 0 0 0 hWidth fun _ => rfl
  obtain ⟨-, -, rfl⟩ := (render_eq_ok_iff _ _ _).mp hNarrow
  obtain ⟨-, -, rfl⟩ := (render_eq_ok_iff _ _ _).mp hWide
  have hCount : ∀ page : Style, lineBreaks ((tree.doc.layout page 0 0 true).print page) =
      (tree.doc.layout page 0 0 true).breakCount := by
    intro page
    exact Layout.count_print page fun _ => Node.isWhole_layout hTexts page
  rw [Node.slotDoc, hCount, hCount]
  refine ⟨hEases.breakCount_le, fun hEqual => ?_⟩
  rcases hEases with hFewer | hSame
  · omega
  · rw [hSame]
    rfl

theorem lineBreaks_render_widened_call :
    render { width := 13 } (some (Build.compound [Build.write (Build.identifier "total")])) =
      .ok "begin\n  write(\n    total\n  )\nend" ∧
    render { width := 14 } (some (Build.compound [Build.write (Build.identifier "total")])) =
      .ok "begin\n  write(total)\nend" ∧
    lineBreaks "begin\n  write(total)\nend" ≤
      lineBreaks "begin\n  write(\n    total\n  )\nend" := by
  have hTree : (Build.compound [Build.write (Build.identifier "total")]).IsStatement
      Node.IsExpression := by
    apply Node.IsStatement.block
    intro item hItem
    obtain rfl := List.mem_singleton.mp hItem
    apply Node.IsStatement.call
    rintro node ⟨⟩
    decide
  exact ⟨rfl, rfl, (@lineBreaks_render_widened { width := 13 } 14 _ _ _ (.inl hTree) (by decide)
    (by decide) rfl rfl).1⟩

end PascalTree

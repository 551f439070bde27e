import PascalTree.Proofs.Layout.Runs
import PascalTree.Proofs.Source.Complete

/-! # Clean lines

A line is clean when something can be seen on it and it does not end in a space or a tab. While a
complete tree is printed, the current line is clean behind every operand, and only clean lines are
ended. Behind a break or a piece that ends in a space, something visible follows before the next
break, whichever way the calls are broken.
-/
namespace PascalTree
set_option autoImplicit false

namespace Layout.Line

def Whole (line : Line) : Prop := IsWhole line.text

/-- The line may be ended here. -/
def Clean (line : Line) : Prop := IsProper line.text

theorem Clean.whole {line : Line} (h : line.Clean) : line.Whole := h.1

theorem Fresh.whole {line : Line} (h : line.Fresh) : line.Whole := by
  rw [Whole, show line.text = "" from h]
  decide

end Layout.Line

namespace Doc

open Layout Line

/-- Every line that the document ends is clean. -/
abbrev Cleanly (style : Style) (flat : Bool) (before after : Line → Prop) (doc : Doc) : Prop :=
  doc.Leads style Clean flat before after

section
variable {style : Style} {flat : Bool} {content : String} {after : Line → Prop} {doc : Doc}

theorem Leads.behind (h : Cleanly style flat Whole after doc) :
    Cleanly style flat Clean after doc :=
  h.strengthen fun _ => Clean.whole

theorem cleanly_text (h : IsProper content) : Cleanly style flat Whole Clean (.text content) :=
  leads_text fun _ hLine => .append hLine h

theorem cleanly_opening (h : IsWhole content) : Cleanly style flat Whole Whole (.text content) :=
  leads_text fun _ hLine => isWhole_append.mpr ⟨hLine, h⟩

theorem cleanly_empty : Cleanly style flat Clean Clean .empty := leads_empty fun _ hLine => hLine

theorem cleanly_hardLine : Cleanly style flat Clean Whole .hardLine :=
  (leads_hardLine fun _ hLine => hLine).weaken fun _ => Fresh.whole

/-- A soft line that is flat leaves the line as it is. -/
theorem cleanly_softLine : Cleanly style flat Clean Whole .softLine := by
  cases flat with
  | true => exact fun line depth hLine => ⟨nofun, hLine.whole⟩
  | false => exact (leads_softLine fun _ hLine => hLine).weaken fun _ => Fresh.whole

theorem cleanly_spaceLine : Cleanly style flat Clean Whole .spaceLine :=
  leads_spaceLine (fun _ hLine => hLine) (fun _ => Fresh.whole) (cleanly_opening (by decide)).behind

end

end Doc

namespace Source

open Doc Layout Line

section
variable {style : Style} {flat : Bool} {slot : Option Node} {printed : Doc}

theorem cleanly_leaf {payload : Payload} (hKind : payload.kind.isExpression)
    (hOperand : payload.kind ≠ .operator) (hText : ∀ text ∈ payload.text, IsProper text) :
    Cleanly style flat Whole Clean (leaf payload) := by
  have hSpelling : Cleanly style flat Whole Clean (text payload.spelling) :=
    cleanly_text (Payload.isProper_spelling hText)
  cases payload with
  | simpleType | direction => cases hKind
  | operator => exact absurd rfl hOperand
  | _ => exact hSpelling

theorem cleanly_operator (sign : Operator) :
    Cleanly style flat Clean Whole (leaf (.operator sign)) := by
  have hSign : IsWhole sign.symbol := by cases sign <;> decide
  exact .cons (cleanly_opening (by decide)).behind (.cons (cleanly_opening hSign)
    (cleanly_opening (by decide)).single)

theorem cleanly_direction (way : Direction) :
    Cleanly style flat Clean Whole (leaf (.direction way)) :=
  (cleanly_opening (by cases way <;> decide)).behind

theorem cleanly_brackets (h : Cleanly style flat Whole Clean printed) :
    Cleanly style flat Clean Clean (concat [text "[", printed, text "]"]) :=
  .cons (cleanly_opening (by decide)).behind (.cons h (cleanly_text (by decide)).behind.single)

theorem cleanly_unary (form : UnaryForm) (h : Cleanly style flat Whole Clean printed) :
    Cleanly style flat Whole Clean (unary form printed) := by
  cases form with
  | not | negate => exact .cons (cleanly_opening (by decide)) h.single
  | group =>
    exact .cons (cleanly_opening (by decide)) (.cons h (cleanly_text (by decide)).behind.single)

theorem cleanly_expressionList {first : Doc} {others : List Doc}
    (h : ∀ item ∈ first :: others, Cleanly style flat Whole Clean item) :
    Cleanly style flat Whole Clean (list .expressionList (first :: others)) :=
  .join_cons (.cons (cleanly_text (by decide)).behind cleanly_spaceLine.single) h

theorem cleanly_identifierList {first : Doc} {others : List Doc}
    (h : ∀ item ∈ first :: others, Cleanly style flat Whole Clean item) :
    Cleanly style flat Whole Clean (list .identifierList (first :: others)) :=
  .join_cons (cleanly_opening (by decide)).behind h

theorem cleanly_nextLine (h : Cleanly style flat Whole Clean printed) :
    Cleanly style flat Clean Clean (indent (concat [hardLine, printed])) :=
  .indent (.cons cleanly_hardLine h.single)

theorem cleanly_end : Cleanly style flat Clean Clean (concat [hardLine, text "end"]) :=
  .cons cleanly_hardLine (cleanly_text (by decide)).single

theorem cleanly_spaced (h : Cleanly style flat Whole Clean printed) :
    Cleanly style flat Clean Clean (concat [text " ", printed]) :=
  .cons (cleanly_opening (by decide)).behind h.single

/-- Nothing is printed between the words of an empty block, so there is no empty line. -/
theorem cleanly_block
    (h : ∀ node ∈ slot, node ≠ .list .statementList [] → Cleanly style flat Whole Clean node.doc) :
    Cleanly style flat Whole Clean (block (statements slot (Node.slotDoc slot))) := by
  refine .cons (cleanly_text (by decide)) (.cons ?_ cleanly_end)
  rw [statements.eq_def]
  split
  · exact cleanly_empty
  · exact cleanly_empty
  · rename_i node hFilled
    exact cleanly_nextLine (h node rfl hFilled)

theorem cleanly_body {node : Node} (h : Cleanly style flat Whole Clean printed) :
    Cleanly style flat Clean Clean (body (some node) printed) := by
  rw [body.eq_def]
  split
  · exact cleanly_empty
  · exact cleanly_spaced h
  · exact cleanly_nextLine h

theorem cleanly_consequent {node : Node} (other : Option Node)
    (h : Cleanly style flat Whole Clean printed) :
    Cleanly style flat Clean Clean (consequent (some node) other printed) := by
  rw [consequent]
  split
  · exact .cons (cleanly_text (by decide)).behind (.cons (cleanly_nextLine h) cleanly_end)
  · exact cleanly_body h

theorem cleanly_otherwise (h : ∀ node ∈ slot, Cleanly style flat Whole Clean node.doc) :
    Cleanly style flat Clean Clean (otherwise slot (Node.slotDoc slot)) := by
  have hElse : Cleanly style flat Whole Clean (text "else") := cleanly_text (by decide)
  rw [otherwise.eq_def]
  split
  · exact cleanly_empty
  · exact .cons cleanly_hardLine (.cons hElse (cleanly_spaced (h _ rfl)).single)
  · exact .cons cleanly_hardLine (.cons hElse (cleanly_body (h _ rfl)).single)

theorem cleanly_position (h : ∀ node ∈ slot, Cleanly style flat Whole Clean node.doc) :
    Cleanly style flat Clean Clean (position slot (Node.slotDoc slot)) := by
  rw [position.eq_def]
  split
  · exact cleanly_empty
  · exact cleanly_brackets (h _ rfl)

theorem cleanly_statementList {first : Doc} {others : List Doc}
    (h : ∀ item ∈ first :: others, Cleanly style flat Whole Clean item) :
    Cleanly style flat Whole Clean (list .statementList (first :: others)) :=
  .join_cons (.cons (cleanly_text (by decide)).behind cleanly_hardLine.single) h

/-- Before a break in a call stands its parenthesis or what is clean in its argument. -/
theorem cleanly_call (routine : Routine) (h : ∀ flat, Cleanly style flat Whole Clean printed) :
    Cleanly style flat Whole Clean (call routine printed) := by
  apply Leads.group
  intro inner
  have hName : IsWhole routine.keyword := by cases routine <;> decide
  exact .cons (cleanly_opening hName) (.cons (cleanly_text (by decide))
    (.cons (.indent (.cons cleanly_softLine (h inner).single))
      (.cons cleanly_softLine (cleanly_text (by decide)).single)))

theorem cleanly_array (lower : Node) {lowerBound upperBound element : Doc}
    (hLower : Cleanly style flat Whole Clean lowerBound)
    (hUpper : Cleanly style flat Whole Clean upperBound)
    (hElement : Cleanly style flat Whole Clean element) :
    Cleanly style flat Whole Clean (type (some lower) lowerBound upperBound element) :=
  .cons (cleanly_opening (by decide)) (.cons hLower (.cons (cleanly_opening (by decide)).behind
    (.cons hUpper (.cons (cleanly_opening (by decide)).behind hElement.single))))

theorem cleanly_ended (h : Cleanly style flat Whole Clean printed) :
    Cleanly style flat Whole Clean (concat [printed, text ";"]) :=
  .cons h (cleanly_text (by decide)).behind.single

theorem cleanly_varSection {first : Doc} {others : List Doc}
    (h : ∀ item ∈ first :: others, Cleanly style flat Whole Clean item) :
    Cleanly style flat Whole Clean (list .varSection (first :: others)) := by
  have hEnded : ∀ part ∈ (first :: others).map fun item => concat [item, text ";"],
      Cleanly style flat Whole Clean part :=
    List.forall_mem_map.mpr fun item hItem => cleanly_ended (h item hItem)
  exact .join_cons cleanly_hardLine hEnded

theorem cleanly_underVar (h : Cleanly style flat Whole Clean printed) :
    Cleanly style flat Whole Whole (declarations.underVar printed) :=
  .cons (cleanly_text (by decide)) (.cons (cleanly_nextLine h) cleanly_hardLine.single)

end

end Source

namespace Node

open Doc Layout Line

section
variable {style : Style} {flat : Bool}

theorem IsCompleteExpression.cleanly {node : Node} (h : node.IsCompleteExpression) :
    Cleanly style flat Whole Clean node.doc := by
  induction h with
  | leaf hKind hOperand hText => exact Source.cleanly_leaf hKind hOperand hText
  | list _ ih => exact Source.cleanly_expressionList (forall_mem_itemDocs ih)
  | @operand left right _ _ ihLeft ihRight =>
    refine .cons ihLeft (.cons cleanly_empty (Leads.single ?_))
    cases right with
    | none => exact cleanly_empty
    | some node => exact (ihRight node rfl).behind
  | binary sign _ _ ihLeft ihRight =>
    exact .cons ihLeft (.cons (Source.cleanly_operator sign) ihRight.single)
  | subscript _ _ ihIdentifier ihIndex =>
    exact .cons ihIdentifier (.cons (cleanly_opening (by decide)).behind
      (.cons ihIndex (cleanly_text (by decide)).behind.single))
  | unary form _ ih => exact Source.cleanly_unary form ih

theorem IsCompleteStatement.cleanly {node : Node} (h : node.IsCompleteStatement) :
    Cleanly style flat Whole Clean node.doc := by
  induction h with
  | emptyBlock => exact Source.cleanly_block fun node hNode => absurd hNode (Option.not_mem_none _)
  | @block items _ ih =>
    apply Source.cleanly_block
    rintro node ⟨⟩ hFilled
    cases items with
    | nil => exact absurd rfl hFilled
    | cons => exact Source.cleanly_statementList (forall_mem_itemDocs ih)
  | loneBlock _ ih =>
    apply Source.cleanly_block
    rintro node ⟨⟩ -
    exact ih
  | call routine hArgument => exact Source.cleanly_call routine fun _ => hArgument.cleanly
  | assign hTarget hPosition hValue =>
    refine .cons hTarget.cleanly (.cons (Source.cleanly_position ?_)
      (.cons (cleanly_opening (by decide)).behind hValue.cleanly.single))
    exact fun node hNode => (hPosition node hNode).cleanly
  | @conditional condition _ otherwise hCondition _ _ ihConsequent ihOtherwise =>
    have hHead : Cleanly style flat Whole Clean
        (concat [.text "if ", condition.doc, .text " then"]) :=
      .cons (cleanly_opening (by decide)) (.cons hCondition.cleanly
        (cleanly_text (by decide)).behind.single)
    exact .cons hHead (.cons (Source.cleanly_consequent otherwise ihConsequent)
      (Source.cleanly_otherwise ihOtherwise).single)
  | whileLoop hCondition _ ihBody =>
    exact .cons (cleanly_opening (by decide)) (.cons hCondition.cleanly
      (.cons (cleanly_text (by decide)).behind (Source.cleanly_body ihBody).single))
  | forLoop way hCounter hStart hStop _ ihBody =>
    exact .cons (cleanly_opening (by decide)) (.cons hCounter.cleanly
      (.cons (cleanly_opening (by decide)).behind (.cons hStart.cleanly
        (.cons (Source.cleanly_direction way) (.cons hStop.cleanly
          (.cons (cleanly_text (by decide)).behind (Source.cleanly_body ihBody).single))))))

theorem IsCompleteType.cleanly {node : Node} (h : node.IsCompleteType) :
    Cleanly style flat Whole Clean node.doc := by
  induction h with
  | name name => exact cleanly_text (by cases name <;> decide)
  | simple _ ih => exact ih
  | @array lower _ _ hLower hUpper _ ih =>
    exact Source.cleanly_array lower hLower.cleanly hUpper.cleanly ih

theorem IsCompleteNames.cleanly {node : Node} (h : node.IsCompleteNames) :
    Cleanly style flat Whole Clean node.doc := by
  cases h with
  | lone hName => exact hName.cleanly
  | several hNames =>
    exact Source.cleanly_identifierList
      (forall_mem_itemDocs fun name hName => (hNames name hName).cleanly)

theorem IsCompleteDeclaration.cleanly {node : Node} (h : node.IsCompleteDeclaration) :
    Cleanly style flat Whole Clean node.doc := by
  obtain ⟨hNames, hTyping⟩ := h
  exact .cons hNames.cleanly (.cons (cleanly_opening (by decide)).behind hTyping.cleanly.single)

theorem cleanly_declarations {slot : Option Node}
    (h : ∀ node ∈ slot, node.IsCompleteDeclarations) :
    Cleanly style flat Whole Whole (Source.declarations slot (slotDoc slot)) := by
  cases slot with
  | none => exact leads_empty fun _ hLine => hLine
  | some node =>
    cases h node rfl with
    | lone hLone =>
      -- a declaration is no section, so the semicolon is added
      have hPrinted : Cleanly style flat Whole Clean node.doc := hLone.cleanly
      cases hLone
      exact Source.cleanly_underVar (Source.cleanly_ended hPrinted)
    | @several items hItems =>
      cases items with
      | nil => exact leads_empty fun _ hLine => hLine
      | cons =>
        exact Source.cleanly_underVar (Source.cleanly_varSection
          (forall_mem_itemDocs fun item hItem => (hItems item hItem).cleanly))

/-- All of a program but the end of its last line. -/
def programPage (declarations body : Option Node) : Doc :=
  .concat [.text "program ", .text programName, .text ";", .hardLine,
    Source.declarations declarations (slotDoc declarations), slotDoc body, .text "."]

theorem cleanly_programPage {declarations : Option Node} {body : Node}
    (hDeclarations : ∀ node ∈ declarations, node.IsCompleteDeclarations)
    (hBody : body.IsCompleteStatement) :
    Cleanly style flat Whole Clean (programPage declarations (some body)) :=
  .cons (cleanly_opening (by decide)) (.cons (cleanly_text (by decide))
    (.cons (cleanly_text (by decide)).behind (.cons cleanly_hardLine
      (.cons (cleanly_declarations hDeclarations) (.cons hBody.cleanly
        (cleanly_text (by decide)).behind.single)))))

end

theorem print_layout_program (style : Style) (declarations body : Option Node) :
    ((program declarations body).doc.layout style 0 0 true).print style =
      ((programPage declarations body).layout style 0 0 true).print style ++
        style.lineEnding.text := by
  have hParts : (program declarations body).doc =
      .concat ([.text "program ", .text programName, .text ";", .hardLine,
        Source.declarations declarations (slotDoc declarations), slotDoc body, .text "."] ++
          [.hardLine]) := rfl
  rw [hParts, layout_concat_append, Layout.print_append]
  simp [programPage, layout, layoutAll, Layout.print_cons, Piece.print, Indentation.text_zero]

end Node

/-- Something can be seen on the line, and it does not end in a space or a tab. -/
structure IsCleanLine (line : String) : Prop where
  visible : ∃ char ∈ line.toList, ¬ isWhitespace char
  ending : ∀ char ∈ line.toList.getLast?, char ≠ ' ' ∧ char ≠ '\t'

theorem isCleanLine_of_endsVisibly {line : String} (h : endsVisibly line.toList) :
    IsCleanLine line := by
  obtain ⟨last, hLast, hVisible⟩ := endsVisibly_iff.mp h
  constructor
  · exact ⟨last, List.mem_of_getLast? hLast, hVisible⟩
  · intro char hChar
    obtain rfl := Option.mem_unique hLast hChar
    constructor
    · rintro rfl
      exact hVisible (by decide)
    · rintro rfl
      exact hVisible (by decide)

theorem Layout.Line.Clean.isCleanLine_print {line : Layout.Line} (h : line.Clean) (style : Style) :
    IsCleanLine (line.print style) := by
  apply isCleanLine_of_endsVisibly
  rw [print, String.toList_append]
  exact endsVisibly_append _ h.2

/-- A document that keeps lines clean makes a page of clean lines. -/
theorem isCleanLine_of_mem_page {style : Style} {doc : Doc}
    (h : doc.Cleanly style true Layout.Line.Whole Layout.Line.Clean) :
    ∀ line ∈ sourceLines ((doc.layout style 0 0 true).print style), IsCleanLine line := by
  have hClean := (h ⟨0, ""⟩ 0 (Layout.Line.Fresh.whole rfl)).lines fun _ hLine => hLine
  rw [← Layout.joinLines_lines, sourceLines_joinLines]
  · intro line hLine
    obtain ⟨other, hOther, rfl⟩ := List.mem_map.mp hLine
    exact (hClean other hOther).isCleanLine_print style
  · simp [Layout.lines, Layout.linesFrom]
  · exact fun line hLine => (hClean line hLine).whole

/-- The lines of a complete tree are clean. A program has its last line ended, and nothing follows
then. -/
theorem isCleanLine_render {style : Style} {tree : Node} {source : String}
    (hSource : render style (some tree) = .ok source) :
    (tree.IsCompleteStatement → ∀ line ∈ sourceLines source, IsCleanLine line) ∧
    (tree.IsCompleteProgram → ∃ page, source = page ++ style.lineEnding.text ∧
      ∀ line ∈ sourceLines page, IsCleanLine line) := by
  obtain ⟨-, -, rfl⟩ := (render_eq_ok_iff _ _ _).mp hSource
  constructor
  · intro hStatement
    exact isCleanLine_of_mem_page hStatement.cleanly
  · rintro ⟨hDeclarations, hBody⟩
    exact ⟨_, Node.print_layout_program style _ _,
      isCleanLine_of_mem_page (Node.cleanly_programPage hDeclarations hBody)⟩

/-- A narrow page, on which the call is broken. -/
theorem isCleanLine_render_narrow :
    render { width := 9 } (some (Build.compound [Build.write (Build.identifier "a")])) =
      .ok "begin\n  write(\n    a\n  )\nend" ∧
    render { width := 9 } (some (Build.program
        (some (Build.declaration (Build.identifierList ["a"]) (Build.simpleType .real)))
        (Build.compound [Build.write (Build.identifier "a")]))) =
      .ok "program parsed_prog;\nvar\n  a : real;\nbegin\n  write(\n    a\n  )\nend.\n" ∧
    (∀ line ∈ sourceLines "begin\n  write(\n    a\n  )\nend", IsCleanLine line) ∧
    ∃ page, "program parsed_prog;\nvar\n  a : real;\nbegin\n  write(\n    a\n  )\nend.\n" =
      page ++ "\n" ∧ ∀ line ∈ sourceLines page, IsCleanLine line := by
  have hName : (Build.identifier "a").IsCompleteExpression :=
    .leaf rfl (by decide) (by rintro text ⟨⟩; decide)
  have hBlock : (Build.compound [Build.write (Build.identifier "a")]).IsCompleteStatement :=
    .block (List.forall_mem_singleton.mpr (.call .write hName))
  have hDeclaration : (Build.declaration (Build.identifierList ["a"])
      (Build.simpleType .real)).IsCompleteDeclaration :=
    .intro (.several (List.forall_mem_singleton.mpr hName)) (.simple (.name .real))
  have hProgram := Node.isCompleteProgram_lone hDeclaration hBlock
  exact ⟨rfl, rfl, (@isCleanLine_render { width := 9 } _ _ rfl).1 hBlock,
    (@isCleanLine_render { width := 9 } _ _ rfl).2 hProgram⟩

end PascalTree

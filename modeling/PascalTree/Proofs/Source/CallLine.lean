import PascalTree.Proofs.Source.LineState

/-! # Calls stay on the page

A call that is kept on one line ends on the page, since it starts its line and what it measures
there is all that stands before its end. What follows on the line is not asked for; only a semicolon
can follow, and it may stand outside the page.
-/
namespace PascalTree
set_option autoImplicit false

open Token (isWordChar)

namespace Source

open Doc Layout Line

/-- A call without its group. -/
def callBody (routine : Routine) (argument : Doc) : Doc :=
  concat [text routine.keyword, text "(", indent (concat [softLine, argument]), softLine, text ")"]

section
variable {style : Style} {routine : Routine} {argument : Doc}

theorem isPlain_callBody (h : argument.isPlain false) :
    (callBody routine argument).isPlain false := by
  simp [callBody, h]

theorem exists_print_callBody_flat (style : Style) (routine : Routine) (argument : Doc)
    (column depth : Nat) :
    ∃ next, ((callBody routine argument).layout style column depth true).print style =
      routine.keyword ++ "(" ++ (argument.layout style next (depth + 1) true).print style ++
        ")" := by
  simp only [callBody, layout, layoutAll, if_true, List.nil_append, List.append_nil,
    List.singleton_append, Layout.print_cons, Layout.print_append, Layout.print_nil, Piece.print,
    String.append_empty, String.append_assoc]
  exact ⟨_, rfl⟩

theorem print_callBody_flat (h : argument.isPlain false) (column depth : Nat) :
    ((callBody routine argument).layout style column depth true).print style =
      routine.keyword ++ "(" ++ (argument.layout style 0 (depth + 1) true).print style ++ ")" := by
  obtain ⟨next, hPrint⟩ := exists_print_callBody_flat style routine argument column depth
  rw [hPrint, layout_of_isPlain h style style next 0]

theorem isTidy_print_flat (hPlain : argument.isPlain false)
    (hLeads : Keeps style true Open Harmless argument) (depth : Nat) :
    IsTidy ((argument.layout style 0 depth true).print style).toList := by
  have hStart : Column.saturate (Line.reach style ⟨0, ""⟩) = 0 := rfl
  have hRuns := hLeads ⟨0, ""⟩ depth (Fresh.isOpen rfl)
  rw [hStart, runs_iff_of_not_breaks style (breaks_layout_flat hPlain style 0 depth)] at hRuns
  simpa [Line.put] using hRuns.1

/-- On a page that is not as wide as columns are told apart, what fits ends on the page. -/
theorem add_firstLineWidth_le {column : Nat} {layout : Layout} (hWidth : style.width ≤ 65534)
    (hFits : layout.fits style (Column.saturate column)) :
    column + Unbounded.firstLineWidth layout ≤ style.width.toNat := by
  rw [UInt16.le_iff_toNat_le] at hWidth
  change style.width.toNat ≤ 65534 at hWidth
  simp only [Layout.fits, firstLineWidth_eq_saturate, Column.saturate, Column.limit,
    decide_eq_true_eq] at hFits
  omega

/-- A call that is kept on one line ends on the page. -/
theorem runs_callBody_flat (hWidth : style.width ≤ 65534) (hPlain : argument.isPlain false)
    (hLeads : Keeps style true Open Harmless argument) {line : Line} (hLine : line.Fresh)
    (depth : Nat)
    (hFits : Layout.fits style (Column.saturate (line.reach style))
      ((callBody routine argument).layout style (Column.saturate (line.reach style)) depth true)) :
    Runs (Endable style) line
      ((callBody routine argument).layout style (Column.saturate (line.reach style)) depth true)
      (Complete style) := by
  have hBreaks := breaks_layout_flat (@isPlain_callBody routine _ hPlain) style
    (Column.saturate (line.reach style)) depth
  -- nothing is broken, so what was measured is all that stands on the line
  rw [runs_iff_of_not_breaks style hBreaks]
  apply complete_of_reach_le
  · have hName : IsTidy (routine.keyword ++ "(").toList := by cases routine <;> decide
    rw [Line.put, show line.text = "" from hLine, print_callBody_flat hPlain, String.empty_append,
      String.toList_append, String.toList_append]
    exact (hName.append (isTidy_print_flat hPlain hLeads _)).append (by decide)
  · rw [reach_put_text, utf8ByteSize_print style hBreaks]
    exact add_firstLineWidth_le hWidth hFits

/-- A call that is broken has its name, its argument and its end on lines of their own. -/
theorem leads_callBody_broken (hLeads : Keeps style false Open Harmless argument) :
    Keeps style false Fresh (Complete style) (callBody routine argument) := by
  have hName : Keeps style false Fresh (fun line => line.text = routine.keyword)
      (text routine.keyword) := by
    apply leads_text
    intro line hLine
    simp [Line.put, show line.text = "" from hLine]
  have hOpening : Keeps style false (fun line => line.text = routine.keyword)
      (fun line => line.text = routine.keyword ++ "(") (text "(") := by
    apply leads_text
    intro line hLine
    rw [Line.put, hLine]
  have hEndable : ∀ line : Line, line.text = routine.keyword ++ "(" → line.Endable style := by
    intro line hLine
    have hClosed : IsTidy (routine.keyword ++ "(").toList ∧
        ¬ IsCallLine (routine.keyword ++ "(") := by
      cases routine <;> decide
    rw [← hLine] at hClosed
    exact ⟨hClosed.1, fun hCall => absurd hCall hClosed.2⟩
  have hArgument := hLeads.strengthen fun _ => Fresh.isOpen
  have hClosing : Keeps style false Fresh (Complete style) (text ")") :=
    ((leads_opening (by decide)).strengthen fun _ => Fresh.isOpen).weaken
      fun _ hLine => hLine.harmless.complete
  exact .cons hName (.cons hOpening (.cons (.indent (.cons (leads_softLine hEndable)
    hArgument.single)) (.cons (leads_softLine fun _ => Harmless.endable) hClosing.single)))

theorem leads_call (hWidth : style.width ≤ 65534) (hPlain : argument.isPlain false)
    (hLeads : ∀ flat, Keeps style flat Open Harmless argument) :
    Keeps style true Fresh (Complete style) (call routine argument) := by
  intro line depth hLine
  have hGroup : call routine argument = group (callBody routine argument) := rfl
  rw [hGroup, layout_group]
  split
  · rename_i hFits
    exact runs_callBody_flat hWidth hPlain (hLeads true) hLine depth hFits.2
  · exact leads_callBody_broken (hLeads false) line depth hLine

end

end Source

/-- Where the statement may start. Only a call needs a line of its own. -/
def Node.Starts : Node → Layout.Line → Prop
  | .call .. => Layout.Line.Fresh
  | _ => Layout.Line.Open

theorem Node.starts_of_fresh {node : Node} {line : Layout.Line} (h : line.Fresh) :
    node.Starts line := by
  cases node with
  | call => exact h
  | _ => exact h.isOpen

namespace Source

open Doc Layout Line

section
variable {style : Style} {slot : Option Node} {printed : Doc}

theorem leads_nextLine (h : Keeps style true Fresh (Complete style) printed) :
    Keeps style true Harmless (Complete style) (indent (concat [hardLine, printed])) :=
  .indent (.cons (leads_hardLine fun _ => Harmless.endable) h.single)

theorem leads_end : Keeps style true (Complete style) Harmless (concat [hardLine, text "end"]) :=
  .cons (leads_hardLine fun _ hLine => hLine.1)
    ((leads_word (by decide)).strengthen fun _ => Fresh.isOpen).single

theorem leads_block (h : Keeps style true Fresh (Complete style) printed) :
    Keeps style true Open Harmless (block (statements slot printed)) := by
  refine .cons (leads_word (by decide)) (.cons ?_ leads_end)
  rw [statements.eq_def]
  split
  · exact leads_empty fun _ => Harmless.complete
  · exact leads_empty fun _ => Harmless.complete
  · exact leads_nextLine h

theorem leads_body (h : ∀ node ∈ slot, Keeps style true node.Starts (Complete style) node.doc) :
    Keeps style true Harmless (Complete style) (body slot (Node.slotDoc slot)) := by
  rw [body.eq_def]
  split
  · exact leads_empty fun _ => Harmless.complete
  · exact .cons (leads_mark (by decide)) (h _ rfl).single
  · exact leads_nextLine ((h _ rfl).strengthen fun _ => Node.starts_of_fresh)

theorem leads_consequent (other : Option Node)
    (h : ∀ node ∈ slot, Keeps style true node.Starts (Complete style) node.doc) :
    Keeps style true Harmless (Complete style) (consequent slot other (Node.slotDoc slot)) := by
  rw [consequent]
  split
  · rename_i hAstray
    cases slot with
    | none => simp at hAstray
    | some node =>
      have hPrinted := (h node rfl).strengthen fun _ => Node.starts_of_fresh
      exact .cons (leads_next (by decide)) (.cons (leads_nextLine hPrinted)
        (leads_end.weaken fun _ => Harmless.complete))
  · exact leads_body h

theorem leads_otherwise
    (h : ∀ node ∈ slot, Keeps style true node.Starts (Complete style) node.doc) :
    Keeps style true (Complete style) (Complete style) (otherwise slot (Node.slotDoc slot)) := by
  have hElse : Keeps style true Fresh Harmless (text "else") :=
    (leads_word (by decide)).strengthen fun _ => Fresh.isOpen
  have hLine : Keeps style true (Complete style) Fresh hardLine :=
    leads_hardLine fun _ hLine => hLine.1
  rw [otherwise.eq_def]
  split
  · exact leads_empty fun _ hLine => hLine
  · exact .cons hLine (.cons hElse
      (.single (.cons (leads_mark (by decide)) (h _ rfl).single)))
  · exact .cons hLine (.cons hElse (leads_body h).single)

theorem leads_statementList {items : List Doc}
    (h : ∀ item ∈ items, Keeps style true Fresh (Complete style) item) :
    Keeps style true Fresh (Complete style) (list .statementList items) := by
  have hSeparator : Keeps style true (Complete style) Fresh (concat [text ";", hardLine]) :=
    .cons (leads_text fun _ hLine => hLine.2) (leads_hardLine fun _ hLine => hLine).single
  exact .join hSeparator h fun _ hLine => hLine.isOpen.harmless.complete

theorem leads_position (h : Keeps style true Open Harmless printed) :
    Keeps style true Harmless Harmless (position slot printed) := by
  rw [position.eq_def]
  split
  · exact leads_empty fun _ hLine => hLine
  · exact .cons (leads_mark (by decide)) (.cons h
      (.cons (leads_mark (by decide)) (leads_nil fun _ => Open.harmless)))

end

end Source

namespace Node

open Doc Layout Line

theorem leads_operand {style : Style} {flat : Bool} {slot : Option Node}
    (h : ∀ node ∈ slot, node.IsTerm) : Keeps style flat Open Harmless (slotDoc slot) :=
  leads_slotDoc fun node hNode => (h node hNode).leads style flat

/-- Once the first word has ended, operands may touch. -/
theorem leads_behind {style : Style} {slot : Option Node} (h : ∀ node ∈ slot, node.IsTerm) :
    Keeps style true Settled Settled (slotDoc slot) := by
  have hPlain := isPlain_slotDoc fun node hNode => (h node hNode).isPlain_doc
  intro line depth hLine
  rw [layout_of_isPlain hPlain style style _ 0]
  rw [runs_iff_of_not_breaks style (breaks_layout_flat hPlain style 0 depth), Settled, put,
    String.toList_append]
  exact hLine.append (Source.isTidy_print_flat hPlain (leads_operand h) depth)

theorem leads_slotDoc_none {style : Style} :
    Keeps style true Fresh (Complete style) (slotDoc none) :=
  leads_empty fun _ hLine => hLine.isOpen.harmless.complete

theorem leads_statements {style : Style} {items : List Node}
    (h : ∀ item ∈ items, Keeps style true item.Starts (Complete style) item.doc) :
    Keeps style true Fresh (Complete style) (slotDoc (some (.list .statementList items))) := by
  apply Source.leads_statementList
  apply forall_mem_itemDocs
  intro node hNode
  exact (h node hNode).strengthen fun _ => starts_of_fresh

/-- Every statement leaves a line that may be ended, with or without a semicolon. -/
theorem IsStatement.leads {style : Style} (hWidth : style.width ≤ 65534) {node : Node}
    (h : node.IsStatement IsTerm) : Keeps style true node.Starts (Complete style) node.doc := by
  induction h with
  | emptyBlock =>
    exact (Source.leads_block leads_slotDoc_none).weaken fun _ => Harmless.complete
  | block _ ih =>
    exact (Source.leads_block (leads_statements ih)).weaken fun _ => Harmless.complete
  | call routine hArgument =>
    exact Source.leads_call hWidth
      (isPlain_slotDoc fun node hNode => (hArgument node hNode).isPlain_doc)
      fun _ => leads_operand hArgument
  | @assign target position value hTarget hPosition hValue =>
    refine .cons (leads_operand hTarget) (.cons (Source.leads_position (leads_operand hPosition))
      (.cons (leads_mark (by decide)) ?_))
    exact ((leads_operand hValue).weaken fun _ => Harmless.complete).single
  | @conditional condition consequent otherwise hCondition _ _ ihConsequent ihOtherwise =>
    have hHead : Keeps style true Open Harmless
        (concat [.text "if ", slotDoc condition, .text " then"]) :=
      .cons (leads_opening (by decide)) (.cons (leads_operand hCondition)
        (leads_next (by decide)).single)
    exact .cons hHead (.cons (Source.leads_consequent otherwise ihConsequent)
      (Source.leads_otherwise ihOtherwise).single)
  | whileLoop hCondition _ ihBody =>
    exact .cons (leads_opening (by decide)) (.cons (leads_operand hCondition)
      (.cons (leads_next (by decide)) (Source.leads_body ihBody).single))
  | @forLoop counter start direction stop body hCounter hStart hDirection hStop hBody ihBody =>
    -- without a direction the bounds touch, but by then the line has its first word
    have hWay : Keeps style true Settled Settled (slotDoc direction) := by
      cases direction with
      | none => exact leads_empty fun _ hLine => hLine
      | some node =>
        obtain ⟨way, rfl⟩ := hDirection node rfl
        exact leads_tidy (by cases way <;> decide)
    have hBody := (Source.leads_body ihBody).strengthen fun _ => Settled.harmless
    exact .cons (leads_settling (by decide)) (.cons (leads_behind hCounter)
      (.cons (leads_tidy (by decide)) (.cons (leads_behind hStart) (.cons hWay
        (.cons (leads_behind hStop) (.cons (leads_tidy (by decide)) hBody.single))))))

theorem IsDeclaration.leads {node : Node} (h : node.IsDeclaration IsTerm) (style : Style) :
    Keeps style true Open Harmless node.doc := by
  obtain @⟨names, lower, upper, element, hNames, hLower, hUpper, hElement⟩ := h
  have hList : Keeps style true Open Harmless (list .identifierList names).doc := by
    refine .join (leads_mark (by decide)) (forall_mem_itemDocs ?_) fun _ => Open.harmless
    intro name hName
    exact (hNames name hName).leads style true
  have hElement : Keeps style true Open Harmless (slotDoc element) := by
    apply leads_slotDoc
    intro node hNode
    obtain ⟨name, rfl⟩ := hElement node hNode
    exact leads_word (Payload.isHarmless_spelling rfl)
  have hType : Keeps style true Open Harmless (type lower upper element).doc := by
    rw [doc, Source.type.eq_def]
    split
    · exact hElement
    · exact .cons (leads_opening (by decide)) (.cons (leads_operand hLower)
        (.cons (leads_mark (by decide)) (.cons (leads_operand hUpper)
          (.cons (leads_mark (by decide)) hElement.single))))
  exact .cons hList (.cons (leads_mark (by decide)) hType.single)

end Node

namespace Source

open Doc Layout Line

theorem leads_ended {style : Style} {printed : Doc} (h : Keeps style true Open Harmless printed) :
    Keeps style true Fresh Harmless (concat [printed, text ";"]) :=
  .cons (h.strengthen fun _ => Fresh.isOpen)
    (.cons (leads_mark (by decide)) (leads_nil fun _ => Open.harmless))

theorem leads_varSection {style : Style} {items : List Doc}
    (h : ∀ item ∈ items, Keeps style true Open Harmless item) :
    Keeps style true Fresh Harmless (list .varSection items) := by
  refine .join (leads_hardLine fun _ => Harmless.endable) ?_ fun _ hLine => hLine.isOpen.harmless
  intro part hPart
  obtain ⟨item, hItem, rfl⟩ := List.mem_map.mp hPart
  exact leads_ended (h item hItem)

theorem leads_underVar {style : Style} {printed : Doc}
    (h : Keeps style true Fresh Harmless printed) :
    Keeps style true Fresh Fresh (declarations.underVar printed) := by
  have hVar : Keeps style true Fresh Harmless (text "var") :=
    (leads_word (by decide)).strengthen fun _ => Fresh.isOpen
  exact .cons hVar (.cons (.indent (.cons (leads_hardLine fun _ => Harmless.endable) h.single))
    (leads_hardLine fun _ => Harmless.endable).single)

end Source

namespace Node

open Doc Layout Line

theorem leads_declarations {style : Style} {slot : Option Node}
    (h : ∀ node ∈ slot, node.IsDeclarations IsTerm) :
    Keeps style true Fresh Fresh (Source.declarations slot (slotDoc slot)) := by
  cases slot with
  | none => exact leads_empty fun _ hLine => hLine
  | some node =>
    cases h node rfl with
    | lone hLone =>
      -- a declaration is no section, so the semicolon is added
      have hPrinted := hLone.leads style
      cases hLone
      exact Source.leads_underVar (Source.leads_ended hPrinted)
    | @several items hItems =>
      have hPrinted : Keeps style true Fresh Harmless
          (slotDoc (some (.list .varSection items))) := by
        apply Source.leads_varSection
        apply forall_mem_itemDocs
        intro node hNode
        exact (hItems node hNode).leads style
      cases items with
      | nil => exact leads_empty fun _ hLine => hLine
      | cons first rest => exact Source.leads_underVar hPrinted

theorem IsProgram.leads {style : Style} (hWidth : style.width ≤ 65534) {node : Node}
    (h : node.IsProgram IsTerm) : Keeps style true Fresh (Complete style) node.doc := by
  obtain @⟨declarations, statements, hDeclarations, hBody⟩ := h
  have hBlock : Keeps style true Open Harmless (compound statements).doc := by
    cases hBody with
    | emptyBlock => exact Source.leads_block leads_slotDoc_none
    | block hItems =>
      apply Source.leads_block
      exact leads_statements fun item hItem => (hItems item hItem).leads hWidth
  have hHead : Keeps style true Fresh Open (.text "program ") :=
    (leads_opening (by decide)).strengthen fun _ => Fresh.isOpen
  have hLast : Keeps style true Open (Complete style) .hardLine :=
    (leads_hardLine fun _ hLine => hLine.harmless.endable).weaken
      fun _ hLine => hLine.isOpen.harmless.complete
  exact .cons hHead (.cons (leads_word (by decide)) (.cons (leads_mark (by decide))
    (.cons (leads_hardLine fun _ hLine => hLine.harmless.endable)
      (.cons (leads_declarations hDeclarations)
        (.cons (hBlock.strengthen fun _ => Fresh.isOpen)
          (.cons (leads_mark (by decide)) hLast.single))))))

end Node

namespace Layout.Line

section
variable {style : Style} {line : Line}

theorem isWhole_of_isTidy (h : IsTidy line.text.toList) : IsWhole line.text := by
  constructor
  · intro hMem
    exact absurd (h _ hMem rfl) (by decide)
  · intro hMem
    exact absurd (h _ hMem rfl) (by decide)

theorem columns_print (h : IsTidy line.text.toList) :
    columns (line.print style) = line.reach style := by
  have hTabs : line.text.toList.count '\t' = 0 := by
    rw [List.count_eq_zero]
    intro hMem
    exact absurd (h _ hMem rfl) (by decide)
  rw [print, columns_append, Indentation.columns_text, columns, hTabs, Nat.add_zero, reach]

theorem isCallLine_print : IsCallLine (line.print style) ↔ IsCallLine line.text := by
  have hIndentation : ∀ char ∈ (style.indentation.text line.depth).toList,
      ¬ isWordChar char ∧ char ≠ ')' := by
    cases style.indentation with
    | spaces | tab =>
      intro char hChar
      rw [Indentation.text, String.toList_ofList, List.mem_replicate] at hChar
      rw [hChar.2]
      decide
  rw [IsCallLine, IsCallLine, print, String.toList_append,
    firstWord_append_of_wordless fun char hChar => (hIndentation char hChar).1, List.mem_append]
  have hNone : ')' ∉ (style.indentation.text line.depth).toList :=
    fun hMem => (hIndentation _ hMem).2 rfl
  simp [hNone]

/-- A line that may be ended is on the page when it is printed. -/
theorem Endable.columns_le (h : line.Endable style) (hCall : IsCallLine (line.print style)) :
    columns (line.print style) ≤ style.width.toNat ∨
      ∃ call, line.print style = call ++ ";" ∧ columns call ≤ style.width.toNat := by
  rcases h.reach (isCallLine_print.mp hCall) with hReach | ⟨call, hText, hReach⟩
  · left
    rwa [columns_print h.tidy]
  · right
    have hTidy := h.tidy
    rw [hText, String.toList_append] at hTidy
    refine ⟨print style ⟨line.depth, call⟩, ?_, ?_⟩
    · rw [print, print, hText, String.append_assoc]
    · rwa [columns_print]
      exact fun char hChar => hTidy char (List.mem_append_left _ hChar)

end

end Layout.Line

theorem Node.isStatement_writeName {name : String} (h : Source.isName name) :
    (Build.write (Build.expressionList [Build.identifier name])).IsStatement Node.IsTerm := by
  apply Node.IsStatement.call
  rintro node ⟨⟩
  apply Node.IsTerm.list
  intro item hItem
  obtain rfl := List.mem_singleton.mp hItem
  exact .name h

theorem Node.isStatement_writeTwice {name : String} (h : Source.isName name) :
    (Build.compound [Build.write (Build.expressionList [Build.identifier name]),
      Build.write (Build.expressionList [Build.identifier name])]).IsStatement Node.IsTerm := by
  apply Node.IsStatement.block
  simp [Node.isStatement_writeName h]

/-- A call that is kept on one line ends on the page. Behind it there may be a semicolon, and this
is not taken into account. -/
theorem columns_call_le {style : Style} {tree : Node} {source : String}
    (hTree : tree.IsStatement Node.IsTerm ∨ tree.IsProgram Node.IsTerm)
    (hWidth : style.width ≤ 65534) (hSource : render style (some tree) = .ok source) :
    ∀ line ∈ sourceLines source, IsCallLine line →
      columns line ≤ style.width.toNat ∨
        ∃ call, line = call ++ ";" ∧ columns call ≤ style.width.toNat := by
  have hLeads : tree.doc.Keeps style true Layout.Line.Fresh (Layout.Line.Complete style) := by
    rcases hTree with hStatement | hProgram
    · exact (hStatement.leads hWidth).strengthen fun _ => Node.starts_of_fresh
    · exact hProgram.leads hWidth
  have hEndable := (hLeads ⟨0, ""⟩ 0 rfl).lines fun _ hLine => hLine.1
  obtain ⟨-, -, rfl⟩ := (render_eq_ok_iff _ _ _).mp hSource
  rw [Node.slotDoc, ← Layout.joinLines_lines, sourceLines_joinLines]
  · intro line hLine
    obtain ⟨other, hOther, rfl⟩ := List.mem_map.mp hLine
    exact (hEndable other hOther).columns_le
  · simp [Layout.lines, Layout.linesFrom]
  · exact fun line hLine => Layout.Line.isWhole_of_isTidy (hEndable line hLine).tidy

theorem columns_call_le_write :
    render { width := 10 } (some (Build.compound
        [Build.write (Build.expressionList [Build.identifier "a"]),
          Build.write (Build.expressionList [Build.identifier "a"])])) =
      .ok "begin\n  write(a);\n  write(a)\nend" ∧
    ∀ line ∈ sourceLines "begin\n  write(a);\n  write(a)\nend", IsCallLine line →
      columns line ≤ 10 ∨ ∃ call, line = call ++ ";" ∧ columns call ≤ 10 :=
  ⟨rfl, @columns_call_le { width := 10 } _ _ (.inl (@Node.isStatement_writeTwice "a" rfl))
    (by decide) rfl⟩

/-- Names without an operator between them, in front of a group. They are printed as one word. -/
def Build.fusedCall : Node :=
  compound [write (.expression (some (.expression (some (identifier "re")) none
    (some (identifier "ad")))) none (some (group (identifier "abcdefgh"))))]

theorem Build.isStatement_fusedCall : fusedCall.IsStatement Node.IsExpression := by
  apply Node.IsStatement.block
  intro item hItem
  obtain rfl := List.mem_singleton.mp hItem
  apply Node.IsStatement.call
  rintro node ⟨⟩
  decide

/-- The semicolon behind a call may stand outside the page. So may a line that looks like a call but
is made of words that are printed without a space between them. -/
theorem not_columns_call_le :
    (¬ ∀ (style : Style) (tree : Node) (source : String),
      (tree.IsStatement Node.IsTerm ∨ tree.IsProgram Node.IsTerm) → style.width ≤ 65534 →
        render style (some tree) = .ok source →
          ∀ line ∈ sourceLines source, IsCallLine line → columns line ≤ style.width.toNat) ∧
    ¬ ∀ (style : Style) (tree : Node) (source : String),
      (tree.IsStatement Node.IsExpression ∨ tree.IsProgram Node.IsExpression) →
        (∀ payload ∈ tree.payloads, ∀ text ∈ payload.text, Source.isName text) →
          style.width ≤ 65534 → render style (some tree) = .ok source →
            ∀ line ∈ sourceLines source, IsCallLine line →
              columns line ≤ style.width.toNat ∨
                ∃ call, line = call ++ ";" ∧ columns call ≤ style.width.toNat := by
  constructor
  · intro hAll
    have hColumns := hAll { width := 10 } _ "begin\n  write(a);\n  write(a)\nend"
      (.inl (@Node.isStatement_writeTwice "a" rfl)) (by decide) rfl "  write(a);" (by decide)
      (by decide)
    revert hColumns
    decide
  · intro hAll
    have hColumns := hAll { width := 12 } Build.fusedCall
      "begin\n  write(\n    read(abcdefgh)\n  )\nend" (.inl Build.isStatement_fusedCall)
      (by decide) (by decide) rfl "    read(abcdefgh)" (by decide) (by decide)
    rcases hColumns with hColumns | ⟨call, hCall, -⟩
    · revert hColumns
      decide
    · have hLast := congrArg (fun line => line.toList.getLast?) hCall
      simp at hLast

end PascalTree

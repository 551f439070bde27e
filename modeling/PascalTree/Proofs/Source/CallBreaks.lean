import PascalTree.Proofs.Source.CallLine
import PascalTree.Proofs.Source.Inline

/-! # How a call is broken

A call is laid out from any column and at any depth, flat if the line has room for all of it and
with a line for each argument otherwise. This is exact when the arguments stay on one line. An
argument that holds a call of its own may be broken while the call around it is kept flat, since
only the first line of a flat attempt is measured.
-/
namespace PascalTree
set_option autoImplicit false

namespace Source

open Doc

/-- A call on one line. -/
def callLine (routine : Routine) (arguments : List String) : String :=
  routine.keyword ++ "(" ++ ", ".intercalate arguments ++ ")"

/-- A call with a line for each argument, one level deeper than its first and its last line. -/
def callLines (style : Style) (depth : Nat) (routine : Routine) (arguments : List String) :
    String :=
  routine.keyword ++ "(" ++ style.lineBreak (depth + 1) ++
    ("," ++ style.lineBreak (depth + 1)).intercalate arguments ++ style.lineBreak depth ++ ")"

theorem isWhole_callLine (routine : Routine) {arguments : List String}
    (h : ∀ text ∈ arguments, Layout.Line.IsWhole text) :
    Layout.Line.IsWhole (callLine routine arguments) := by
  have hName : Layout.Line.IsWhole (routine.keyword ++ "(") := by cases routine <;> decide
  have hArguments := @Layout.Line.isWhole_intercalate ", " arguments (by decide) h
  exact Layout.Line.isWhole_append.mpr
    ⟨Layout.Line.isWhole_append.mpr ⟨hName, hArguments⟩, by decide⟩

/-- A broken call has breaks behind its opening parenthesis and before its closing one, whatever
stands between them. -/
theorem print_callBody_broken (style : Style) (routine : Routine) (argument : Doc)
    (column depth : Nat) :
    ((callBody routine argument).layout style column depth false).print style =
      routine.keyword ++ "(" ++ style.lineBreak (depth + 1) ++
        (argument.layout style (Column.saturate (style.indentation.width * (depth + 1)))
          (depth + 1) false).print style ++ style.lineBreak depth ++ ")" := by
  simp only [callBody, layout, layoutAll, Bool.false_eq_true, if_false, List.append_nil,
    List.cons_append, Layout.print_cons, Layout.print_append, Layout.print_nil, Piece.print,
    Layout.endColumn, List.foldl_cons, List.foldl_nil, Piece.advance, Style.lineBreak,
    String.append_empty, String.empty_append, String.append_assoc]

/-- Without hard lines in the argument, only the first line of the flat attempt decides. -/
theorem layout_call (style : Style) (routine : Routine) {argument : Doc}
    (h : argument.forcesBreak = false) (column depth : Nat) (flat : Bool) :
    (call routine argument).layout style column depth flat =
      if ((callBody routine argument).layout style column depth true).fits style column then
        (callBody routine argument).layout style column depth true
      else (callBody routine argument).layout style column depth false := by
  have hForces : (callBody routine argument).forcesBreak = false := by
    simp [callBody, forcesBreak, anyForcesBreak, h]
  have hGroup : call routine argument = group (callBody routine argument) := rfl
  rw [hGroup, layout_group, hForces]
  simp

end Source

/-- A call with arguments that stay on one line is laid out, wherever it starts, on one line if that
ends on the page and with a line for each argument otherwise. -/
theorem write_layout_call {style : Style} {routine : Routine} {argument : Node}
    {column depth : Nat} {flat : Bool} {output : String} (hWidth : style.width ≤ 65534)
    (hItems : ∀ item ∈ argument.arguments, item.IsInline)
    (hOutput : ((Node.call routine (some argument)).doc.layout style column depth flat).write
      style = .ok output) :
    ∃ texts : List String,
      List.Forall₂ (fun item text => ∀ page, render page (some item) = .ok text)
        argument.arguments texts ∧
      Layout.Line.IsWhole (Source.callLine routine texts) ∧
      output =
        if column + (Source.callLine routine texts).utf8ByteSize ≤ style.width.toNat then
          Source.callLine routine texts
        else Source.callLines style depth routine texts := by
  refine ⟨argument.arguments.map Node.inline, ?_, ?_, ?_⟩
  · rw [List.forall₂_map_right_iff, List.forall₂_same]
    exact fun item hItem page => (hItems item hItem).render_eq page
  · apply Source.isWhole_callLine
    rw [List.forall_mem_map]
    exact fun item hItem => (hItems item hItem).isWhole_inline
  have hArgument := Node.isPlain_argument hItems
  have hLine : ((Source.callBody routine argument.doc).layout style column depth true).print style =
      Source.callLine routine (argument.arguments.map Node.inline) := by
    rw [Source.print_callBody_flat hArgument, Node.print_argument hItems]
    rfl
  have hFits := Layout.fits_iff_of_not_breaks hWidth
    (Doc.breaks_layout_flat (@Source.isPlain_callBody routine _ hArgument) style column depth)
    column
  rw [hLine] at hFits
  obtain ⟨-, rfl⟩ := (Layout.write_eq_ok_iff _ _ _).mp hOutput
  rw [Node.doc, Node.slotDoc, Source.layout_call _ _ (Doc.forcesBreak_of_isPlain hArgument)]
  by_cases hRoom : column + (Source.callLine routine
      (argument.arguments.map Node.inline)).utf8ByteSize ≤ style.width.toNat
  · rw [if_pos hRoom, if_pos (hFits.mpr hRoom), hLine]
  · rw [if_neg hRoom, if_neg (mt hFits.mp hRoom), Source.print_callBody_broken,
      Node.print_argument hItems]
    rfl

/-- Two arguments on a page with no room for them. -/
theorem write_layout_call_narrow :
    (∀ item ∈ (Build.expressionList [Build.identifier "total", Build.integer 7]).arguments,
      item.IsInline) ∧
    ∃ texts : List String,
      List.Forall₂ (fun item text => ∀ page, render page (some item) = .ok text)
        [Build.identifier "total", Build.integer 7] texts ∧
      Layout.Line.IsWhole (Source.callLine .write texts) ∧
      "write(\n    total,\n    7\n  )" =
        if 2 + (Source.callLine .write texts).utf8ByteSize ≤ 16 then
          Source.callLine .write texts
        else Source.callLines { width := 16 } 1 .write texts :=
  ⟨by decide, @write_layout_call { width := 16 } .write
    (Build.expressionList [Build.identifier "total", Build.integer 7]) 2 1 false _ (by decide)
    (by decide) rfl⟩

namespace Layout

/-- The text does not start with the end of a line. -/
def StartsInLine (text : String) : Prop := ∀ char ∈ text.toList.head?, char ≠ '\r' ∧ char ≠ '\n'

theorem startsInLine_of_isWhole {text : String} (h : Line.IsWhole text) : StartsInLine text := by
  intro char hChar
  have hMem := List.mem_of_mem_head? hChar
  exact ⟨fun hEq => h.1 (hEq ▸ hMem), fun hEq => h.2 (hEq ▸ hMem)⟩

theorem StartsInLine.append {first second : String} (h : StartsInLine first)
    (hSecond : StartsInLine second) : StartsInLine (first ++ second) := by
  intro char hChar
  rw [String.toList_append, List.head?_append] at hChar
  cases hFirst : first.toList.head? with
  | none =>
    rw [hFirst, Option.none_or] at hChar
    exact hSecond char hChar
  | some head =>
    rw [hFirst, Option.some_or] at hChar
    exact h char (hFirst ▸ hChar)

theorem not_startsInLine_lineEnding (ending : LineEnding) (rest : String) :
    ¬ StartsInLine (ending.text ++ rest) := by
  intro h
  unfold StartsInLine at h
  rw [String.toList_append] at h
  cases ending with
  | lineFeed | native => exact (h '\n' rfl).2 rfl
  | carriageReturnLineFeed => exact (h '\r' rfl).1 rfl

end Layout

namespace Doc

open Layout in
/-- Only groups are broken in a flat document without hard lines, and they start with a word. -/
theorem startsInLine_layout_flat {doc : Doc} (h : doc.Composed Line.IsWhole)
    (hForces : doc.forcesBreak = false) (style : Style) (column depth : Nat) :
    StartsInLine ((doc.layout style column depth true).print style) := by
  have hEmpty : StartsInLine "" := startsInLine_of_isWhole (by decide)
  induction h generalizing column depth with
  | empty | softLine => exact hEmpty
  | text hContent =>
    rw [layout, print_cons, print_nil, String.append_empty]
    exact startsInLine_of_isWhole hContent
  | spaceLine =>
    have hSpace : Line.IsWhole " " := by decide
    exact startsInLine_of_isWhole hSpace
  | hardLine => cases hForces
  | @concat parts hParts ih =>
    clear hParts
    rw [forcesBreak_concat_eq_false] at hForces
    induction parts generalizing column with
    | nil => simpa using hEmpty
    | cons part rest ihRest =>
      rw [List.forall_mem_cons] at ih hForces
      rw [layout_concat_cons, print_append]
      exact (ih.1 hForces.1 column depth).append (ihRest ih.2 hForces.2 _)
  | indent _ ih => exact ih hForces column (depth + 1)
  | @group word rest hWord hBody ih =>
    obtain ⟨hWhole, -⟩ := composed_concat_cons.mp hBody
    rw [composed_text] at hWhole
    have hWordStarts : ∀ wordFlat next, StartsInLine
        (word ++ ((Doc.concat rest).layout style next depth wordFlat).print style) := by
      intro wordFlat next char hChar
      refine startsInLine_of_isWhole hWhole char ?_
      have hSome : word.toList ≠ [] := by
        intro hNil
        rw [String.toList_eq_nil_iff] at hNil
        rw [hNil] at hWord
        cases hWord
      rwa [String.toList_append, List.head?_append_of_ne_nil _ hSome] at hChar
    rcases layout_group_eq_or style column depth true (.concat (.text word :: rest)) with hEq | hEq
    all_goals
      rw [hEq, layout_concat_cons, print_append, layout, print_cons, print_nil,
        String.append_empty]
      exact hWordStarts _ _

end Doc

namespace Source

open Doc

/-- The call has no line break, or it has one behind its opening parenthesis and one before its
closing one. -/
def BreaksAllOrNothing (style : Style) (routine : Routine) (source : String) : Prop :=
  Layout.Line.IsWhole source ∨
    ∃ inner, source = routine.keyword ++ "(" ++ style.lineEnding.text ++ inner ++
      style.lineEnding.text ++ ")"

/-- The first line of the call fits when it is kept flat, but it is not the only line, since a call
inside is broken. -/
def breaksInside (style : Style) (routine : Routine) (argument : Doc) : Bool :=
  let attempt := (callBody routine argument).layout style 0 0 true
  attempt.fits style 0 && attempt.breaks

theorem breaksAllOrNothing_broken (style : Style) (routine : Routine) (argument : Doc)
    (column : Nat) :
    BreaksAllOrNothing style routine
      (((callBody routine argument).layout style column 0 false).print style) := by
  rw [print_callBody_broken]
  right
  simp only [Style.lineBreak, Indentation.text_zero, String.append_empty, String.append_assoc]
  generalize Layout.print style _ = printed
  refine ⟨style.indentation.text (0 + 1) ++ printed, ?_⟩
  simp only [String.append_assoc]

section
variable {style : Style} {routine : Routine} {argument : Doc}

theorem breaksAllOrNothing_flat_iff (hArgument : argument.Composed Layout.Line.IsWhole)
    (hForces : argument.forcesBreak = false) (column depth : Nat) :
    BreaksAllOrNothing style routine
        (((callBody routine argument).layout style column depth true).print style) ↔
      ((callBody routine argument).layout style column depth true).breaks = false := by
  have hCall : (callBody routine argument).Composed Layout.Line.IsWhole := by
    have hName : Layout.Line.IsWhole routine.keyword := by cases routine <;> decide
    have hOpen : Layout.Line.IsWhole "(" := by decide
    have hClose : Layout.Line.IsWhole ")" := by decide
    simp [callBody, hName, hOpen, hClose, hArgument, Composed.softLine]
  have hTexts : ∀ content,
      Piece.text content ∈ (callBody routine argument).layout style column depth true →
        Layout.Line.IsWhole content :=
    fun _ => fine_of_mem_layout (by decide) hCall style column depth true
  rw [← Layout.isWhole_print_iff hTexts]
  refine ⟨?_, .inl⟩
  rintro (hWhole | ⟨inner, hInner⟩)
  · exact hWhole
  · obtain ⟨next, hFlat⟩ := exists_print_callBody_flat style routine argument column depth
    have hStarts := (startsInLine_layout_flat hArgument hForces style next (depth + 1)).append
      (Layout.startsInLine_of_isWhole (by decide : Layout.Line.IsWhole ")"))
    simp only [hFlat, String.append_assoc, String.append_right_inj] at hInner
    rw [hInner] at hStarts
    exact absurd hStarts (Layout.not_startsInLine_lineEnding _ _)

end

theorem breaksInside_eq_false_of_isPlain (style : Style) (routine : Routine) {argument : Doc}
    (h : argument.isPlain false) : breaksInside style routine argument = false := by
  rw [breaksInside, breaks_layout_flat (isPlain_callBody h), Bool.and_false]

end Source

section
variable {style : Style} {routine : Routine} {argument : Option Node} {source : String}

/-- A call whose argument has no hard lines and no line ends in its texts breaks all or nothing
exactly if it is not kept flat for its first line while a call inside is broken. Without calls
inside it always does. -/
theorem breaksAllOrNothing_render_iff (hForces : (Node.slotDoc argument).forcesBreak = false)
    (hTexts : ∀ payload ∈ (Node.call routine argument).payloads, ∀ text ∈ payload.text,
      Layout.Line.IsWhole text)
    (hSource : render style (some (.call routine argument)) = .ok source) :
    (Source.BreaksAllOrNothing style routine source ↔
      Source.breaksInside style routine (Node.slotDoc argument) = false) ∧
    ((∀ node ∈ argument, ∀ label ∈ node.preorder, label.kind ≠ .read ∧ label.kind ≠ .write) →
      Source.BreaksAllOrNothing style routine source) := by
  obtain ⟨-, -, rfl⟩ := (render_eq_ok_iff _ _ _).mp hSource
  have hComposed : (Node.slotDoc argument).Composed Layout.Line.IsWhole := by
    cases argument with
    | none => exact .empty
    | some node =>
      apply Node.composed_isWhole
      intro payload hPayload
      have hChild : node ∈ (Node.call routine (some node)).children :=
        Node.mem_children_iff.mpr (.inl List.mem_cons_self)
      exact hTexts payload (Node.payloads_subset_of_mem_children hChild hPayload)
  have hIff : Source.BreaksAllOrNothing style routine
        (((Source.call routine (Node.slotDoc argument)).layout style 0 0 true).print style) ↔
      Source.breaksInside style routine (Node.slotDoc argument) = false := by
    rw [Source.layout_call style routine hForces, Source.breaksInside, Bool.and_eq_false_iff]
    split
    next hFits => simp [hFits, Source.breaksAllOrNothing_flat_iff hComposed hForces]
    next hFits => simp [hFits, Source.breaksAllOrNothing_broken]
  refine ⟨hIff, fun hKinds => hIff.mpr ?_⟩
  apply Source.breaksInside_eq_false_of_isPlain
  refine Doc.isPlain_of_forcesBreak (Node.isPlain_slotDoc fun node hNode => ?_) hForces
  apply node.isPlain_doc
  intro label hLabel
  exact Kind.isPlain_of_ne (hKinds node hNode label hLabel).1 (hKinds node hNode label hLabel).2

end

/-- A call inside a call, on a page with room for the outer name and both parentheses alone. -/
theorem breaksAllOrNothing_render_nested :
    render { width := 12 } (some (Build.write (Build.read (Build.identifier "r")))) =
      .ok "write(read(\n    r\n  ))" ∧
    (Source.BreaksAllOrNothing { width := 12 } .write "write(read(\n    r\n  ))" ↔
      Source.breaksInside { width := 12 } .write (Build.read (Build.identifier "r")).doc = false) ∧
    Source.breaksInside { width := 12 } .write (Build.read (Build.identifier "r")).doc = true :=
  ⟨rfl, (@breaksAllOrNothing_render_iff { width := 12 } .write
    (some (Build.read (Build.identifier "r"))) _ rfl (by decide) rfl).1, rfl⟩

/-- A call may be kept flat around a call that is broken. -/
theorem not_breaksAllOrNothing : ¬ ∀ (style : Style) (routine : Routine) (argument : Option Node)
    (source : String), (Node.slotDoc argument).forcesBreak = false →
      (∀ payload ∈ (Node.call routine argument).payloads, ∀ text ∈ payload.text,
        Layout.Line.IsWhole text) →
      render style (some (.call routine argument)) = .ok source →
      Source.BreaksAllOrNothing style routine source := by
  intro h
  have hCall := h { width := 12 } .write (some (Build.read (Build.identifier "r")))
    "write(read(\n    r\n  ))" rfl (by decide) rfl
  rcases hCall with hWhole | ⟨inner, hInner⟩
  · exact absurd hWhole (by decide)
  · have hFront := congrArg (fun text => text.toList[6]?) hInner
    simp [Routine.keyword, LineEnding.text] at hFront

end PascalTree

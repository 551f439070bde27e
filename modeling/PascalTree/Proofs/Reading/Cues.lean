import PascalTree.Proofs.Reading.Fragment
import PascalTree.Proofs.Reading.Rules

/-! # The cues of a printed source

Of the tokens that a document spells, only those are kept here that bear on where an `else` belongs.
Each rule of a source text adds its own cues to those of its parts. An operand adds none if it is
read on its own, that is, if it ends outside a quote and a boundary stands behind it.
-/
namespace PascalTree
set_option autoImplicit false

open Token

namespace Doc

/-- Read on its own, the document has no cues. -/
def HasNoCues (style : Style) (doc : Doc) : Prop :=
  ∀ (column depth : Nat) (flat : Bool), Cue.ofChars (doc.chars style column depth flat) = []

/-- Read on its own, the document has no cues and leaves no quote open. -/
structure IsMute (style : Style) (doc : Doc) : Prop where
  hasNoCues : doc.HasNoCues style
  closesQuotes (column depth : Nat) (flat : Bool) :
    ¬ Token.endsInQuote (doc.chars style column depth flat)

/-- Wherever it stands, the document is read as the cues if a boundary stands behind it. -/
def Cues (style : Style) (doc : Doc) (own : List Cue) : Prop :=
  ∀ (column depth : Nat) (flat : Bool) (rest : List Char), isBoundary rest →
    Cue.ofChars (doc.chars style column depth flat ++ rest) = own ++ Cue.ofChars rest

section
variable {style : Style} {part body : Doc} {rest : List Doc} {tokens : List Token}
  {own more : List Cue}

theorem Spells.cues (h : Spells part tokens) : Cues style part (Cue.ofTokens tokens) :=
  fun column depth flat rest hRest => Cue.ofChars_of_scans (h style column depth flat rest hRest)

theorem IsMute.cues (h : IsMute style part) : Cues style part [] := by
  intro column depth flat rest hRest
  rw [Cue.ofChars_append (h.closesQuotes column depth flat) hRest, h.hasNoCues]

theorem Spells.isMute (h : Spells part tokens) (hTokens : Cue.ofTokens tokens = []) :
    IsMute style part := by
  have hScans : ∀ column depth flat, Scans (part.chars style column depth flat) tokens [] := by
    intro column depth flat
    have hSpells := h style column depth flat [] rfl
    rwa [List.append_nil] at hSpells
  constructor
  · intro column depth flat
    rw [Cue.ofChars_of_scans (hScans column depth flat), hTokens, Cue.ofChars_nil]
    rfl
  · intro column depth flat
    rw [(hScans column depth flat).endsInQuote_eq, Token.endsInQuote]
    exact Bool.false_ne_true

theorem cues_nil : Cues style (concat []) [] := closed_nil.spells.cues

theorem cues_empty : Cues style empty [] := blank_empty.closed.spells.cues

theorem Closed.cons_cues (hPart : Closed part tokens) (hRest : Cues style (concat rest) own) :
    Cues style (concat (part :: rest)) (Cue.ofTokens tokens ++ own) := by
  intro column depth flat tail hTail
  rw [chars_concat_cons, List.append_assoc, Cue.ofChars_of_scans (hPart _ _ _ _ _),
    hRest _ _ _ tail hTail, List.append_assoc]

theorem Cues.cons (hPart : Cues style part own) (hOpens : Opens (concat rest))
    (hRest : Cues style (concat rest) more) :
    Cues style (concat (part :: rest)) (own ++ more) := by
  intro column depth flat tail hTail
  rw [chars_concat_cons, List.append_assoc, hPart _ _ _ _ (hOpens _ _ _ _ tail hTail),
    hRest _ _ _ tail hTail, List.append_assoc]

theorem Cues.single (h : Cues style part own) : Cues style (concat [part]) own := by
  have hPart := h.cons opens_nil cues_nil
  rwa [List.append_nil] at hPart

theorem Cues.indent (h : Cues style body own) : Cues style (.indent body) own := by
  intro column depth flat rest hRest
  rw [chars_indent]
  exact h _ _ _ rest hRest

theorem Cues.group (h : Cues style body own) : Cues style (.group body) own := by
  intro column depth flat rest hRest
  rw [chars]
  rcases layout_group_eq_or style column depth flat body with hFlat | hBroken
  · rw [hFlat]
    exact h column depth true rest hRest
  · rw [hBroken]
    exact h column depth false rest hRest

theorem cues_splice_iff {inner : List Doc} :
    Cues style (concat (concat inner :: rest)) own ↔ Cues style (concat (inner ++ rest)) own := by
  simp only [Cues, chars, layout_concat_splice]

end

end Doc

namespace Source

open Doc

section
variable {style : Style} {printed : Doc} {slot : Option Node} {own more : List Cue}

theorem cues_line (h : Cues style printed own) :
    Cues style (indent (concat [hardLine, printed])) own :=
  (blank_hardLine.closed.cons_cues h.single).indent

theorem cues_after_space (h : Cues style printed own) :
    Cues style (concat [text " ", printed]) own := by
  have hSpace : Closed (text " ") [] := closed_text fun _ => .of_scan 1 rfl
  exact hSpace.cons_cues h.single

theorem cues_end : Cues style (concat [hardLine, text "end"]) [.closing] :=
  blank_hardLine.closed.cons_cues spells_end.cues.single

theorem opens_body (slot : Option Node) (printed : Doc) : Opens (body slot printed) := by
  have hSpace : Stops (text " ") := stops_text fun _ => rfl
  rw [body.eq_def]
  split
  · exact blank_empty.opens
  · exact hSpace.cons.opens
  · exact stops_line.opens

theorem opens_consequent (slot other : Option Node) (printed : Doc) :
    Opens (consequent slot other printed) := by
  have hBegin : Stops (text " begin") := stops_text fun _ => rfl
  rw [consequent]
  split
  · exact hBegin.cons.opens
  · exact opens_body slot printed

theorem opens_otherwise (slot : Option Node) (printed : Doc) : Opens (otherwise slot printed) := by
  rw [otherwise.eq_def]
  split
  · exact blank_empty.opens
  · exact stops_hardLine.cons.opens
  · exact stops_hardLine.cons.opens

theorem opens_statements (slot : Option Node) (printed : Doc) :
    Opens (statements slot printed) := by
  rw [statements.eq_def]
  split
  · exact blank_empty.opens
  · exact blank_empty.opens
  · exact stops_line.opens

theorem opens_position (slot : Option Node) (printed : Doc) : Opens (position slot printed) := by
  rw [position.eq_def]
  split
  · exact blank_empty.opens
  · exact stops_leftBracket.cons.opens

theorem cues_body (h : Cues style (Node.slotDoc slot) own) :
    Cues style (body slot (Node.slotDoc slot)) own := by
  rw [body.eq_def]
  split
  · exact h
  · exact cues_after_space h
  · exact cues_line h

/-- The cues of a branch that is followed by an `else` or not. -/
theorem cues_consequent (other : Option Node) (h : Cues style (Node.slotDoc slot) own) :
    Cues style (consequent slot other (Node.slotDoc slot))
      (Cue.guarded (other.isSome && slot.any Node.endsWithOpenIf) own) := by
  rw [consequent, Cue.guarded]
  split
  · have hBegin : Spells (text " begin") [.keyword .opening] := spells_spaced "begin" rfl rfl
    exact hBegin.cues.cons stops_line.cons.opens
      ((cues_line h).cons stops_hardLine.cons.opens cues_end)
  · exact cues_body h

theorem cues_otherwise {node : Node} (h : Cues style node.doc own) :
    Cues style (otherwise (some node) node.doc) (.elseBranch :: own) := by
  have hElse : Spells (text "else") [.keyword .elseBranch] := spells_word rfl
  have hSpace : Stops (text " ") := stops_text fun _ => rfl
  have hBody : Cues style (body (some node) node.doc) own :=
    @cues_body style (some node) own (by rwa [Node.slotDoc])
  rw [otherwise.eq_def]
  split
  · contradiction
  · exact blank_hardLine.closed.cons_cues
      (hElse.cues.cons hSpace.cons.cons.opens (cues_after_space h).single)
  · exact blank_hardLine.closed.cons_cues
      (hElse.cues.cons ((opens_body _ _).cons opens_nil) hBody.single)

theorem cues_statementList {items : List Doc} {statements : List (List Cue)}
    (h : List.Forall₂ (Cues style) items statements) :
    Cues style (list .statementList items) (Cue.sequence statements) := by
  induction h with
  | nil => exact cues_nil
  | @cons first own rest others hFirst hRest ih =>
    cases hRest with
    | nil =>
      rw [Cue.sequence, List.intercalate_singleton]
      exact hFirst.single
    | cons hSecond hOthers =>
      rw [Cue.sequence, List.intercalate_cons_cons, List.append_assoc]
      exact hFirst.cons stops_semicolon.cons.cons.cons.opens
        (cues_splice_iff.mpr (closed_semicolon_line.cons_cues ih))

theorem cues_statements {items : List Node} {owns : List (List Cue)}
    (h : List.Forall₂ (Cues style) (Node.itemDocs items) owns) :
    Cues style (statements (some (.list .statementList items))
      (Node.slotDoc (some (.list .statementList items)))) (Cue.sequence owns) := by
  rw [Node.slotDoc, Node.doc]
  cases items with
  | nil =>
    cases h
    exact cues_empty
  | cons first rest => exact cues_line (cues_statementList h)

theorem cues_block (hOpens : Opens printed) (h : Cues style printed own) :
    Cues style (block printed) (.opening :: own ++ [.closing]) :=
  spells_begin.cues.cons (hOpens.cons_stops stops_hardLine.cons).opens
    (h.cons stops_hardLine.cons.opens cues_end)

theorem cues_call (routine : Routine) (h : Cues style printed own) :
    Cues style (call routine printed) own := by
  have hOpen : Stops (text "(") := stops_text fun _ => rfl
  have hArgument : Cues style (indent (concat [softLine, printed])) own :=
    (blank_softLine.closed.cons_cues h.single).indent
  have hBehind : Cues style (concat [softLine, text ")"]) [] :=
    blank_softLine.closed.cons_cues closed_rightParenthesis.spells.cues.single
  have hStop : Stops (concat [softLine, text ")"]) :=
    blank_softLine.opens.cons_stops stops_rightParenthesis.cons
  have hBody := (spells_routine routine).cues.cons hOpen.cons.opens
    (closed_leftParenthesis.cons_cues (hArgument.cons hStop.opens hBehind))
  rw [List.append_nil] at hBody
  exact hBody.group

theorem cues_position (h : Cues style (Node.slotDoc slot) own) :
    Cues style (position slot (Node.slotDoc slot)) own := by
  rw [position.eq_def]
  split
  · exact h
  · have hClose : Cues style (concat [text "]"]) [] := closed_rightBracket.spells.cues.single
    have hInner := closed_leftBracket.cons_cues (h.cons stops_rightBracket.cons.opens hClose)
    rw [List.append_nil] at hInner
    exact hInner

theorem cues_assign {target value : Doc} (hTarget : Cues style target [])
    (hPosition : Cues style (Node.slotDoc slot) []) (hValue : Cues style value []) :
    Cues style (concat [target, position slot (Node.slotDoc slot), text " := ", value]) [] :=
  hTarget.cons ((opens_position _ _).cons_stops stops_becomes.cons).opens
    ((cues_position hPosition).cons stops_becomes.cons.opens
      (closed_becomes.cons_cues hValue.single))

theorem cues_conditional {condition consequent otherwise : Doc}
    (hCondition : Cues style condition []) (hConsequent : Cues style consequent own)
    (hOpens : Opens consequent) (hOtherwise : Cues style otherwise more)
    (hOtherwiseOpens : Opens otherwise) :
    Cues style (concat [concat [text "if ", condition, text " then"], consequent, otherwise])
      (.thenBranch :: own ++ more) := by
  have hIf : Closed (text "if ") [.keyword .ifCondition] := closed_text fun _ => .of_scan 2 rfl
  have hThen : Spells (text " then") [.keyword .thenBranch] := spells_spaced "then" rfl rfl
  have hStop : Stops (text " then") := stops_text fun _ => rfl
  have hHead : Cues style (concat [text "if ", condition, text " then"]) [.thenBranch] :=
    hIf.cons_cues (hCondition.cons hStop.cons.opens hThen.cues.single)
  exact hHead.cons (hOpens.cons (hOtherwiseOpens.cons opens_nil))
    (hConsequent.cons (hOtherwiseOpens.cons opens_nil) hOtherwise.single)

theorem cues_do (h : Cues style (Node.slotDoc slot) own) :
    Cues style (concat [text " do", body slot (Node.slotDoc slot)]) own := by
  have hDo : Spells (text " do") [.keyword .doBody] := spells_spaced "do" rfl rfl
  exact hDo.cues.cons ((opens_body _ _).cons opens_nil) (cues_body h).single

theorem cues_whileLoop {condition : Doc} (hCondition : Cues style condition [])
    (h : Cues style (Node.slotDoc slot) own) :
    Cues style (concat [text "while ", condition, text " do", body slot (Node.slotDoc slot)])
      own := by
  have hWhile : Closed (text "while ") [.keyword .whileCondition] :=
    closed_text fun _ => .of_scan 2 rfl
  exact hWhile.cons_cues (hCondition.cons stops_do.cons.opens (cues_do h))

/-- A direction keeps the bounds apart. -/
theorem cues_range {start stop : Doc} (hStart : Cues style start []) (way : Direction)
    (hStop : Cues style stop []) :
    Cues style (concat [start, leaf (.direction way), stop]) [] :=
  hStart.cons (stops_direction way).cons.opens ((closed_direction way).cons_cues hStop.single)

theorem cues_forLoop {counter start direction stop : Doc} (hCounter : Cues style counter [])
    (hRange : Cues style (concat [start, direction, stop]) [])
    (h : Cues style (Node.slotDoc slot) own) :
    Cues style (concat [text "for ", counter, text " := ", start, direction, stop, text " do",
      body slot (Node.slotDoc slot)]) own := by
  have hFor : Closed (text "for ") [.keyword .forCounter] := closed_text fun _ => .of_scan 2 rfl
  have hRest := hRange.cons stops_do.cons.opens (cues_do h)
  rw [cues_splice_iff] at hRest
  exact hFor.cons_cues (hCounter.cons stops_becomes.cons.opens (closed_becomes.cons_cues hRest))

end

end Source

end PascalTree

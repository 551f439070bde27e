import PascalTree.Proofs.Layout.Runs
import PascalTree.Proofs.Source.FirstWord
import PascalTree.Proofs.Source.Statement

/-! # Lines and the calls on them

While a source text is printed, the current line is fresh, harmless, open or settled, and it may or
may not be ended. The rules say how each text takes a line from one state to the next. An operand
takes an open line to a harmless one, however it is broken, so no line of it looks like a call.
-/
namespace PascalTree
set_option autoImplicit false

open Token (isWordChar)

/-- The line starts with the name of a routine, and a parenthesis is closed on it. -/
def IsCallLine (line : String) : Prop := firstWord line.toList ∈ routineNames ∧ ')' ∈ line.toList

instance (line : String) : Decidable (IsCallLine line) := inferInstanceAs (Decidable (_ ∧ _))

namespace Layout.Line

def Harmless (line : Line) : Prop := IsHarmless line.text.toList

def Open (line : Line) : Prop := IsOpen line.text.toList

def Settled (line : Line) : Prop := IsSettled line.text.toList

/-- The line may be ended here: if there is a call on it, it does not leave the page, but for a
semicolon behind the call. -/
structure Endable (style : Style) (line : Line) : Prop where
  tidy : IsTidy line.text.toList
  reach : IsCallLine line.text → line.reach style ≤ style.width.toNat ∨
    ∃ call, line.text = call ++ ";" ∧ Line.reach style ⟨line.depth, call⟩ ≤ style.width.toNat

/-- The line may be ended here, and also behind a semicolon. -/
def Complete (style : Style) (line : Line) : Prop :=
  line.Endable style ∧ (line.put (.text ";")).Endable style

section
variable {style : Style} {line : Line}

theorem Fresh.isOpen (h : line.Fresh) : line.Open := by
  rw [Open, show line.text = "" from h]
  decide

theorem Open.harmless (h : line.Open) : line.Harmless := h.1

theorem Settled.harmless (h : line.Settled) : line.Harmless := h.1

theorem Harmless.endable (h : line.Harmless) : line.Endable style :=
  ⟨h.1, fun hCall => absurd hCall.1 h.2⟩

theorem Harmless.complete (h : line.Harmless) : line.Complete style := by
  refine ⟨h.endable, Harmless.endable ?_⟩
  rw [Harmless, put, String.toList_append]
  exact h.append (by decide) (.inr (by decide))

theorem complete_of_reach_le (hTidy : IsTidy line.text.toList)
    (hReach : line.reach style ≤ style.width.toNat) : line.Complete style := by
  refine ⟨⟨hTidy, fun _ => .inl hReach⟩, ?_, fun _ => .inr ⟨line.text, rfl, hReach⟩⟩
  rw [Line.put, String.toList_append]
  exact hTidy.append (by decide)

end

end Layout.Line

namespace Doc

open Layout Line

/-- Every line that the document ends may be ended. -/
abbrev Keeps (style : Style) (flat : Bool) (before after : Line → Prop) (doc : Doc) : Prop :=
  doc.Leads style (Endable style) flat before after

section
variable {style : Style} {good : Line → Prop} {flat : Bool} {content : String}

/-- A word may stand where no other word has begun. -/
theorem leads_word (h : IsHarmless content.toList) :
    Leads style good flat Open Harmless (.text content) := by
  apply leads_text
  intro line hLine
  rw [Harmless, put, String.toList_append]
  exact hLine.1.append h (.inl hLine.2)

theorem leads_opening (h : IsOpen content.toList) :
    Leads style good flat Open Open (.text content) := by
  apply leads_text
  intro line hLine
  rw [Open, put, String.toList_append]
  exact hLine.append h

/-- A word behind another one, with a space between. -/
theorem leads_next (h : IsHarmless content.toList ∧ startsApart content.toList) :
    Leads style good flat Harmless Harmless (.text content) := by
  apply leads_text
  intro line hLine
  rw [Harmless, put, String.toList_append]
  exact hLine.append h.1 (.inr h.2)

theorem leads_mark (h : IsOpen content.toList ∧ startsApart content.toList) :
    Leads style good flat Harmless Open (.text content) := by
  apply leads_text
  intro line hLine
  rw [Open, put, String.toList_append]
  exact hLine.append_open h.1 h.2

theorem leads_settling (h : IsSettled content.toList) :
    Leads style good flat Open Settled (.text content) := by
  apply leads_text
  intro line hLine
  rw [Settled, put, String.toList_append]
  exact hLine.append_settled h

theorem leads_tidy (h : IsTidy content.toList) :
    Leads style good flat Settled Settled (.text content) := by
  apply leads_text
  intro line hLine
  rw [Settled, put, String.toList_append]
  exact hLine.append h

end

end Doc

namespace Node

/-- An expression whose words do not run into each other: names are no reserved words, an operator
slot holds an operator, and where it is empty one of the operands is missing. There are no
strings. -/
inductive IsTerm : Node → Prop
  | name {name : String} (h : Source.isName name) : IsTerm (.leaf (.identifier name))
  | symbol {payload : Payload} (hKind : payload.kind.isExpression) (hText : payload.text = none) :
    IsTerm (.leaf payload)
  | list {items : List Node} (h : ∀ item ∈ items, IsTerm item) :
    IsTerm (.list .expressionList items)
  | operand {left right : Option Node} (hLeft : ∀ node ∈ left, IsTerm node)
    (hRight : ∀ node ∈ right, IsTerm node) (hOne : left = none ∨ right = none) :
    IsTerm (.expression left none right)
  | binary {left right : Option Node} (sign : Operator) (hLeft : ∀ node ∈ left, IsTerm node)
    (hRight : ∀ node ∈ right, IsTerm node) :
    IsTerm (.expression left (some (.leaf (.operator sign))) right)
  | subscript {identifier index : Option Node} (hIdentifier : ∀ node ∈ identifier, IsTerm node)
    (hIndex : ∀ node ∈ index, IsTerm node) : IsTerm (.subscript identifier index)
  | unary (form : UnaryForm) {operand : Option Node} (h : ∀ node ∈ operand, IsTerm node) :
    IsTerm (.unary form operand)

end Node

namespace Source

open Doc Layout Line

section
variable {style : Style} {flat : Bool}

theorem leads_operator (sign : Operator) :
    Keeps style flat Harmless Open (leaf (.operator sign)) := by
  have hSign : IsHarmless sign.symbol.toList := by cases sign <;> decide
  exact .cons (leads_mark (by decide)) (.cons (leads_word hSign)
    (leads_mark (by decide)).single)

theorem leads_leaf {payload : Payload} (hKind : payload.kind.isExpression)
    (hText : payload.text = none) : Keeps style flat Open Harmless (leaf payload) := by
  cases payload with
  | identifier | string => cases hText
  | simpleType | direction => cases hKind
  | operator sign =>
    exact ((leads_operator sign).strengthen fun _ => Open.harmless).weaken fun _ => Open.harmless
  | _ => exact leads_word (Payload.isHarmless_spelling hText)

theorem leads_expressionList {items : List Doc}
    (h : ∀ item ∈ items, Keeps style flat Open Harmless item) :
    Keeps style flat Open Harmless (list .expressionList items) := by
  refine .join (.cons (leads_mark (by decide)) (leads_spaceLine ?_ ?_ ?_).single) h ?_
  · exact fun _ hLine => hLine.harmless.endable
  · exact fun _ hLine => hLine.isOpen
  · exact leads_opening (by decide)
  · exact fun _ hLine => hLine.harmless

theorem leads_unary (form : UnaryForm) {operand : Doc}
    (h : Keeps style flat Open Harmless operand) :
    Keeps style flat Open Harmless (unary form operand) := by
  cases form with
  | not | negate => exact .cons (leads_opening (by decide)) h.single
  | group =>
    exact .cons (leads_opening (by decide)) (.cons h (.cons (leads_mark (by decide))
      (leads_nil fun _ hLine => hLine.harmless)))

end

end Source

namespace Node

open Doc Layout Line

theorem leads_slotDoc {style : Style} {flat : Bool} {slot : Option Node}
    (h : ∀ node ∈ slot, Keeps style flat Open Harmless node.doc) :
    Keeps style flat Open Harmless (slotDoc slot) := by
  cases slot with
  | none => exact leads_empty fun _ hLine => hLine.harmless
  | some node => exact h node rfl

theorem IsTerm.leads {node : Node} (h : node.IsTerm) (style : Style) (flat : Bool) :
    Keeps style flat Open Harmless node.doc := by
  induction h with
  | name hName => exact leads_word (isHarmless_name hName)
  | symbol hKind hText => exact Source.leads_leaf hKind hText
  | list _ ih => exact Source.leads_expressionList (forall_mem_itemDocs ih)
  | operand _ _ hOne ihLeft ihRight =>
    rcases hOne with rfl | rfl
    · exact .cons (leads_empty fun _ hLine => hLine) (.cons (leads_empty fun _ hLine => hLine)
        (leads_slotDoc ihRight).single)
    · exact .cons (leads_slotDoc ihLeft) (.cons (leads_empty fun _ hLine => hLine)
        (leads_empty fun _ hLine => hLine).single)
  | binary sign _ _ ihLeft ihRight =>
    exact .cons (leads_slotDoc ihLeft) (.cons (Source.leads_operator sign)
      (leads_slotDoc ihRight).single)
  | subscript _ _ ihIdentifier ihIndex =>
    exact .cons (leads_slotDoc ihIdentifier) (.cons (leads_mark (by decide))
      (.cons (leads_slotDoc ihIndex) (.cons (leads_mark (by decide))
        (leads_nil fun _ hLine => hLine.harmless))))
  | unary form _ ih => exact Source.leads_unary form (leads_slotDoc ih)

theorem IsTerm.isPlain_doc {node : Node} (h : node.IsTerm) : node.doc.isPlain false := by
  induction h with
  | name => exact isPlain_text _
  | @symbol payload => exact Source.isPlain_leaf false payload
  | list _ ih =>
    rw [doc]
    exact Source.isPlain_list rfl (forall_mem_itemDocs ih)
  | operand _ _ _ ihLeft ihRight =>
    simp [doc, slotDoc, isPlain_slotDoc ihLeft, isPlain_slotDoc ihRight]
  | binary sign _ _ ihLeft ihRight =>
    simp [doc, slotDoc, isPlain_slotDoc ihLeft, isPlain_slotDoc ihRight, Source.isPlain_leaf]
  | subscript _ _ ihIdentifier ihIndex =>
    simp [doc, isPlain_slotDoc ihIdentifier, isPlain_slotDoc ihIndex]
  | unary form _ ih => cases form <;> simp [doc, Source.unary, isPlain_slotDoc ih]

end Node

end PascalTree

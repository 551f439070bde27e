import PascalTree.Node.Fold
import PascalTree.Proofs.Layout.Basic

/-! # What the documents of trees are made of

The document of a tree holds the spellings of its leaves, a fixed set of other texts, and breaks.
Its only groups are calls, so every group starts with the name of a routine.
-/
namespace PascalTree
set_option autoImplicit false

namespace Doc

/-- All texts are fine, and every group starts with a text that is not empty. -/
inductive Composed (fine : String → Prop) : Doc → Prop
  | empty : Composed fine .empty
  | text {content : String} (h : fine content) : Composed fine (.text content)
  | softLine : Composed fine .softLine
  | spaceLine : Composed fine .spaceLine
  | hardLine : Composed fine .hardLine
  | concat {parts : List Doc} (h : ∀ part ∈ parts, Composed fine part) :
    Composed fine (.concat parts)
  | indent {body : Doc} (h : Composed fine body) : Composed fine (.indent body)
  | group {word : String} {rest : List Doc} (hWord : 0 < word.utf8ByteSize)
    (h : Composed fine (.concat (.text word :: rest))) :
    Composed fine (.group (.concat (.text word :: rest)))

section
variable {fine : String → Prop}

@[simp] theorem composed_empty : Composed fine .empty := .empty

@[simp] theorem composed_spaceLine : Composed fine .spaceLine := .spaceLine

@[simp] theorem composed_hardLine : Composed fine .hardLine := .hardLine

@[simp] theorem composed_text {content : String} : Composed fine (.text content) ↔ fine content :=
  ⟨fun | .text h => h, .text⟩

@[simp] theorem composed_indent {body : Doc} :
    Composed fine (.indent body) ↔ Composed fine body :=
  ⟨fun | .indent h => h, .indent⟩

@[simp] theorem composed_concat_nil : Composed fine (.concat []) :=
  .concat fun _ hPart => absurd hPart List.not_mem_nil

@[simp] theorem composed_concat_cons {part : Doc} {rest : List Doc} :
    Composed fine (.concat (part :: rest)) ↔
      Composed fine part ∧ Composed fine (.concat rest) := by
  constructor
  · rintro (_ | _ | _ | _ | _ | h)
    exact ⟨h part List.mem_cons_self, .concat fun other hOther =>
      h other (List.mem_cons_of_mem part hOther)⟩
  · rintro ⟨hPart, _ | _ | _ | _ | _ | hRest⟩
    refine .concat fun other hOther => ?_
    rcases List.mem_cons.mp hOther with rfl | hOther
    · exact hPart
    · exact hRest other hOther

theorem Composed.join {separator : Doc} {parts : List Doc}
    (hSeparator : Composed fine separator) (hParts : ∀ part ∈ parts, Composed fine part) :
    Composed fine (Doc.join separator parts) := by
  cases parts with
  | nil => exact composed_concat_nil
  | cons first rest =>
    rw [Doc.join, composed_concat_cons]
    refine ⟨hParts first List.mem_cons_self, .concat fun part hPart => ?_⟩
    obtain ⟨other, hOther, rfl⟩ := List.mem_map.mp hPart
    rw [composed_concat_cons, composed_concat_cons]
    exact ⟨hSeparator, hParts other (List.mem_cons_of_mem first hOther), composed_concat_nil⟩

theorem Composed.fine_of_mem_texts {doc : Doc} (h : Composed fine doc) {content : String}
    (hMem : content ∈ doc.texts) : fine content := by
  induction h with
  | empty | softLine | spaceLine | hardLine => exact absurd hMem List.not_mem_nil
  | text hFine =>
    rw [texts, List.mem_singleton] at hMem
    rwa [hMem]
  | concat _ ih =>
    rw [texts, mem_allTexts_iff] at hMem
    obtain ⟨part, hPart, hContent⟩ := hMem
    exact ih part hPart hContent
  | indent _ ih => exact ih hMem
  | group _ _ ih => exact ih hMem

end

end Doc

namespace Source

/-- The texts that do not come from leaves. -/
def fixedTexts : List String :=
  ["program ", programName, ";", "var", ".", " : ", "array [", "..", "] of ", "begin", "end",
    "read", "write", "(", ")", "[", "]", " := ", "if ", " then", " begin", "else", " ", "while ", " do",
    "for ", ", ", ",", "not ", "- "]

end Source

namespace Node

/-- What the leaves of the tree hold, in preorder. -/
def payloads (node : Node) : List Payload := node.preorder.filterMap Label.payload

theorem payloads_subset_of_mem_children {node child : Node} (h : child ∈ node.children) :
    child.payloads ⊆ node.payloads := by
  intro payload hPayload
  obtain ⟨label, hLabel, hEq⟩ := List.mem_filterMap.mp hPayload
  refine List.mem_filterMap.mpr ⟨label, ?_, hEq⟩
  rw [preorder_eq]
  exact List.mem_cons_of_mem _ (List.mem_flatMap.mpr ⟨child, h, hLabel⟩)

end Node

namespace Source

section
open Doc
variable {fine : String → Prop}

theorem composed_leaf {payload : Payload} (h : ∀ text ∈ (leaf payload).texts, fine text) :
    Composed fine (leaf payload) := by
  unfold leaf at h ⊢
  split <;> simp_all [texts, allTexts]

variable (hFixed : ∀ text ∈ fixedTexts, fine text)
include hFixed

theorem composed_call (routine : Routine) {argument : Doc} (h : Composed fine argument) :
    Composed fine (call routine argument) := by
  have hKeyword : fine routine.keyword := by
    cases routine with
    | read => exact hFixed "read" (by decide)
    | write => exact hFixed "write" (by decide)
  have hOpen := hFixed "(" (by decide)
  have hClose := hFixed ")" (by decide)
  refine .group ?_ ?_
  · cases routine <;> decide
  · simp [hKeyword, h, hOpen, hClose, Composed.softLine]

theorem composed_body (slot : Option Node) {printed : Doc} (h : Composed fine printed) :
    Composed fine (body slot printed) := by
  have hSpace := hFixed " " (by decide)
  unfold body
  split <;> simp [h, hSpace]

theorem composed_declarations (slot : Option Node) {printed : Doc} (h : Composed fine printed) :
    Composed fine (declarations slot printed) := by
  have hVar := hFixed "var" (by decide)
  have hSemicolon := hFixed ";" (by decide)
  unfold declarations
  split <;> simp [declarations.underVar, h, hVar, hSemicolon]

theorem composed_type (lower : Option Node) {lowerBound upperBound element : Doc}
    (hLower : Composed fine lowerBound) (hUpper : Composed fine upperBound)
    (hElement : Composed fine element) :
    Composed fine (type lower lowerBound upperBound element) := by
  have hArray := hFixed "array [" (by decide)
  have hDots := hFixed ".." (by decide)
  have hOf := hFixed "] of " (by decide)
  unfold type
  split <;> simp [hLower, hUpper, hElement, hArray, hDots, hOf]

theorem composed_block (slot : Option Node) {printed : Doc} (h : Composed fine printed) :
    Composed fine (block (statements slot printed)) := by
  have hBegin := hFixed "begin" (by decide)
  have hEnd := hFixed "end" (by decide)
  unfold block statements
  split <;> simp [h, hBegin, hEnd]

theorem composed_position (slot : Option Node) {printed : Doc} (h : Composed fine printed) :
    Composed fine (position slot printed) := by
  have hOpen := hFixed "[" (by decide)
  have hClose := hFixed "]" (by decide)
  unfold position
  split <;> simp [h, hOpen, hClose]

theorem composed_consequent (slot other : Option Node) {printed : Doc}
    (h : Composed fine printed) : Composed fine (consequent slot other printed) := by
  have hBegin := hFixed " begin" (by decide)
  have hEnd := hFixed "end" (by decide)
  unfold consequent
  split
  · simp [h, hBegin, hEnd]
  · exact composed_body hFixed slot h

theorem composed_otherwise (slot : Option Node) {printed : Doc} (h : Composed fine printed) :
    Composed fine (otherwise slot printed) := by
  have hElse := hFixed "else" (by decide)
  have hSpace := hFixed " " (by decide)
  unfold otherwise
  split
  · exact .empty
  · simp [h, hElse, hSpace]
  · simp [composed_body hFixed _ h, hElse]

theorem composed_list (kind : ListKind) {items : List Doc}
    (h : ∀ item ∈ items, Composed fine item) : Composed fine (list kind items) := by
  have hSemicolon := hFixed ";" (by decide)
  have hComma := hFixed "," (by decide)
  have hCommaSpace := hFixed ", " (by decide)
  cases kind with
  | varSection =>
    refine Composed.join .hardLine fun part hPart => ?_
    obtain ⟨item, hItem, rfl⟩ := List.mem_map.mp hPart
    simp [h item hItem, hSemicolon]
  | identifierList => exact Composed.join (.text hCommaSpace) h
  | statementList => exact Composed.join (by simp [hSemicolon]) h
  | expressionList => exact Composed.join (by simp [hComma]) h

theorem composed_unary (form : UnaryForm) {operand : Doc} (h : Composed fine operand) :
    Composed fine (unary form operand) := by
  have hNot := hFixed "not " (by decide)
  have hMinus := hFixed "- " (by decide)
  have hOpen := hFixed "(" (by decide)
  have hClose := hFixed ")" (by decide)
  cases form <;> simp [unary, h, hNot, hMinus, hOpen, hClose]

end

end Source

namespace Node

/-- A document is composed of fine texts when the fixed texts and those of the leaves are fine. -/
theorem composed_doc {fine : String → Prop} (hFixed : ∀ text ∈ Source.fixedTexts, fine text)
    (node : Node)
    (hLeaf : ∀ payload ∈ node.payloads, ∀ text ∈ (Source.leaf payload).texts, fine text) :
    node.doc.Composed fine := by
  induction node using inductionOn with
  | step node ih =>
    have hChild : ∀ child ∈ node.children, child.doc.Composed fine := fun child hMem =>
      ih child hMem fun payload hPayload =>
        hLeaf payload (payloads_subset_of_mem_children hMem hPayload)
    have hSlot : ∀ slot ∈ node.slots, (slotDoc slot).Composed fine := by
      rintro (_ | child) hMem
      · exact .empty
      · exact hChild child (mem_children_iff.mpr (.inl hMem))
    clear ih
    cases node with
    | leaf payload =>
      rw [doc]
      refine Source.composed_leaf (hLeaf payload ?_)
      rw [payloads, preorder_eq]
      exact List.mem_cons_self
    | list kind items =>
      rw [doc, itemDocs_eq]
      refine Source.composed_list hFixed kind fun item hItem => ?_
      obtain ⟨child, hMem, rfl⟩ := List.mem_map.mp hItem
      exact hChild child (mem_children_iff.mpr (.inr hMem))
    | program declarations body =>
      have hProgram := hFixed "program " (by decide)
      have hName := hFixed programName (by decide)
      have hSemicolon := hFixed ";" (by decide)
      have hDot := hFixed "." (by decide)
      have hDeclarations := Source.composed_declarations hFixed declarations
        (hSlot declarations (by simp [slots]))
      have hBody := hSlot body (by simp [slots])
      simp [doc, Source.program, hDeclarations, hBody, hProgram, hName, hSemicolon, hDot]
    | declaration identifiers typing =>
      have hColon := hFixed " : " (by decide)
      have hIdentifiers := hSlot identifiers (by simp [slots])
      have hTyping := hSlot typing (by simp [slots])
      simp [doc, hIdentifiers, hTyping, hColon]
    | type lower upper element =>
      rw [doc]
      exact Source.composed_type hFixed lower (hSlot lower (by simp [slots]))
        (hSlot upper (by simp [slots])) (hSlot element (by simp [slots]))
    | compound statements =>
      rw [doc]
      exact Source.composed_block hFixed statements (hSlot statements (by simp [slots]))
    | call routine argument =>
      rw [doc]
      exact Source.composed_call hFixed routine (hSlot argument (by simp [slots]))
    | assign target position value =>
      have hBecomes := hFixed " := " (by decide)
      have hTarget := hSlot target (by simp [slots])
      have hPosition := Source.composed_position hFixed position
        (hSlot position (by simp [slots]))
      have hValue := hSlot value (by simp [slots])
      simp [doc, hTarget, hPosition, hValue, hBecomes]
    | conditional condition consequent otherwise =>
      have hIf := hFixed "if " (by decide)
      have hThen := hFixed " then" (by decide)
      have hCondition := hSlot condition (by simp [slots])
      have hConsequent := Source.composed_consequent hFixed consequent otherwise
        (hSlot consequent (by simp [slots]))
      have hOtherwise := Source.composed_otherwise hFixed otherwise
        (hSlot otherwise (by simp [slots]))
      simp [doc, hCondition, hConsequent, hOtherwise, hIf, hThen]
    | whileLoop condition body =>
      have hWhile := hFixed "while " (by decide)
      have hDo := hFixed " do" (by decide)
      have hCondition := hSlot condition (by simp [slots])
      have hBody := Source.composed_body hFixed body (hSlot body (by simp [slots]))
      simp [doc, hCondition, hBody, hWhile, hDo]
    | forLoop counter start direction stop body =>
      have hFor := hFixed "for " (by decide)
      have hBecomes := hFixed " := " (by decide)
      have hDo := hFixed " do" (by decide)
      have hCounter := hSlot counter (by simp [slots])
      have hStart := hSlot start (by simp [slots])
      have hDirection := hSlot direction (by simp [slots])
      have hStop := hSlot stop (by simp [slots])
      have hBody := Source.composed_body hFixed body (hSlot body (by simp [slots]))
      simp [doc, hCounter, hStart, hDirection, hStop, hBody, hFor, hBecomes, hDo]
    | expression left operator right =>
      have hLeft := hSlot left (by simp [slots])
      have hOperator := hSlot operator (by simp [slots])
      have hRight := hSlot right (by simp [slots])
      simp [doc, hLeft, hOperator, hRight]
    | subscript identifier index =>
      have hOpen := hFixed "[" (by decide)
      have hClose := hFixed "]" (by decide)
      have hIdentifier := hSlot identifier (by simp [slots])
      have hIndex := hSlot index (by simp [slots])
      simp [doc, hIdentifier, hIndex, hOpen, hClose]
    | unary form operand =>
      rw [doc]
      exact Source.composed_unary hFixed form (hSlot operand (by simp [slots]))

theorem composed_slotDoc {fine : String → Prop} (hFixed : ∀ text ∈ Source.fixedTexts, fine text)
    (tree : Option Node)
    (hLeaf : ∀ node ∈ tree, ∀ payload ∈ node.payloads,
      ∀ text ∈ (Source.leaf payload).texts, fine text) :
    (slotDoc tree).Composed fine := by
  cases tree with
  | none => exact .empty
  | some node => exact composed_doc hFixed node (hLeaf node rfl)

end Node
end PascalTree

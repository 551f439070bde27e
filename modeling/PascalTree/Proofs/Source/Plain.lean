import PascalTree.Node.Fold
import PascalTree.Proofs.Layout.Basic

/-! # Documents that do not look at the page

Only groups ask how much room there is. A document without groups is laid out in the same way in
every style and from every column, and if it has no hard lines either, a flat layout of it stays on
one line. Which of the two a document has can be told from the kinds of the nodes it prints.
-/
namespace PascalTree
set_option autoImplicit false

namespace Doc

mutual
/-- There is no group, and a hard line only if they are allowed. -/
def isPlain (hard : Bool) : Doc → Bool
  | empty | text _ | softLine | spaceLine => true
  | hardLine => hard
  | concat parts => allPlain hard parts
  | indent body => isPlain hard body
  | group _ => false

def allPlain (hard : Bool) : List Doc → Bool
  | [] => true
  | part :: rest => isPlain hard part && allPlain hard rest
end

section
variable {hard : Bool}

@[simp] theorem isPlain_empty : isPlain hard .empty := rfl

@[simp] theorem isPlain_text (content : String) : isPlain hard (.text content) := rfl

@[simp] theorem isPlain_softLine : isPlain hard .softLine := rfl

@[simp] theorem isPlain_spaceLine : isPlain hard .spaceLine := rfl

@[simp] theorem isPlain_hardLine : isPlain hard .hardLine = hard := rfl

@[simp] theorem isPlain_indent (body : Doc) : isPlain hard (.indent body) = isPlain hard body := rfl

@[simp] theorem isPlain_concat_nil : isPlain hard (.concat []) := rfl

@[simp] theorem isPlain_concat_cons (part : Doc) (rest : List Doc) :
    isPlain hard (.concat (part :: rest)) ↔ isPlain hard part ∧ isPlain hard (.concat rest) := by
  rw [isPlain, allPlain, isPlain, Bool.and_eq_true]

theorem isPlain_concat_iff (parts : List Doc) :
    isPlain hard (.concat parts) ↔ ∀ part ∈ parts, isPlain hard part := by
  induction parts with
  | nil => simp
  | cons part rest ih => rw [isPlain_concat_cons, ih, List.forall_mem_cons]

theorem isPlain_join {separator : Doc} {parts : List Doc} (hSeparator : isPlain hard separator)
    (hParts : ∀ part ∈ parts, isPlain hard part) : isPlain hard (Doc.join separator parts) := by
  cases parts with
  | nil => exact isPlain_concat_nil
  | cons first rest =>
    rw [List.forall_mem_cons] at hParts
    rw [Doc.join, isPlain_concat_cons, isPlain_concat_iff]
    refine ⟨hParts.1, ?_⟩
    intro part hPart
    obtain ⟨other, hOther, rfl⟩ := List.mem_map.mp hPart
    simp [hSeparator, hParts.2 other hOther]

theorem layout_of_isPlain {doc : Doc} (h : doc.isPlain hard) (style other : Style)
    (column column' depth : Nat) (flat : Bool) :
    doc.layout style column depth flat = doc.layout other column' depth flat := by
  induction doc using inductionOn generalizing column column' depth with
  | empty | text | softLine | spaceLine | hardLine => rfl
  | concat parts ih =>
    rw [isPlain_concat_iff] at h
    induction parts generalizing column column' with
    | nil => simp
    | cons part rest ihRest =>
      rw [List.forall_mem_cons] at h ih
      rw [layout_concat_cons, layout_concat_cons, ih.1 h.1 column column' depth]
      rw [ihRest ih.2 h.2]
  | indent body ih => exact ih h column column' (depth + 1)
  | group body ih => cases h

theorem forcesBreak_concat_eq_false {parts : List Doc} :
    forcesBreak (.concat parts) = false ↔ ∀ part ∈ parts, part.forcesBreak = false := by
  simp [forcesBreak, anyForcesBreak_eq]

theorem forcesBreak_of_isPlain {doc : Doc} (h : doc.isPlain false) : doc.forcesBreak = false := by
  induction doc using inductionOn with
  | empty | text | softLine | spaceLine => rfl
  | hardLine => cases h
  | concat parts ih =>
    rw [isPlain_concat_iff] at h
    rw [forcesBreak, anyForcesBreak_eq, List.any_eq_false]
    intro part hPart
    simp [ih part hPart (h part hPart)]
  | indent body ih => exact ih h
  | group body ih => cases h

theorem isPlain_of_forcesBreak {doc : Doc} (h : doc.isPlain true)
    (hForces : doc.forcesBreak = false) : doc.isPlain false := by
  induction doc using inductionOn with
  | empty | text | softLine | spaceLine => rfl
  | hardLine => cases hForces
  | concat parts ih =>
    rw [forcesBreak_concat_eq_false] at hForces
    rw [isPlain_concat_iff] at h ⊢
    exact fun part hPart => ih part hPart (h part hPart) (hForces part hPart)
  | indent body ih => exact ih h hForces
  | group body ih => cases h

theorem breaks_layout_flat {doc : Doc} (h : doc.isPlain false) (style : Style)
    (column depth : Nat) : (doc.layout style column depth true).breaks = false := by
  induction doc using inductionOn generalizing column depth with
  | empty | text | softLine | spaceLine => rfl
  | hardLine => cases h
  | concat parts ih =>
    rw [isPlain_concat_iff] at h
    induction parts generalizing column with
    | nil => rfl
    | cons part rest ihRest =>
      rw [List.forall_mem_cons] at h ih
      rw [layout_concat_cons, Layout.breaks_append, ih.1 h.1, ihRest ih.2 h.2, Bool.or_self]
  | indent body ih => exact ih h column (depth + 1)
  | group body ih => cases h

end

end Doc

/-- Nodes of the kind are printed without a group, and without a hard line unless they are
allowed. -/
def Kind.isPlain (hard : Bool) : Kind → Bool
  | read | write => false
  | program | varSection | compound | statementList | conditional | whileLoop | forLoop => hard
  | _ => true

theorem Kind.isPlain_of_ne {kind : Kind} (hRead : kind ≠ .read) (hWrite : kind ≠ .write) :
    kind.isPlain true := by
  cases kind <;> simp_all [isPlain]

namespace Source

open Doc

section
variable {printed : Doc}

theorem isPlain_leaf (hard : Bool) (payload : Payload) : isPlain hard (leaf payload) := by
  cases payload <;> simp [leaf]

theorem isPlain_body (slot : Option Node) (h : isPlain true printed) :
    isPlain true (body slot printed) := by
  rw [body.eq_def]
  split <;> simp [h]

theorem isPlain_declarations (slot : Option Node) (h : isPlain true printed) :
    isPlain true (declarations slot printed) := by
  rw [declarations.eq_def]
  split <;> simp [declarations.underVar, h]

theorem isPlain_statements (slot : Option Node) (h : isPlain true printed) :
    isPlain true (statements slot printed) := by
  rw [statements.eq_def]
  split <;> simp [h]

theorem isPlain_consequent (slot other : Option Node) (h : isPlain true printed) :
    isPlain true (consequent slot other printed) := by
  rw [consequent]
  split
  · simp [h]
  · exact isPlain_body slot h

theorem isPlain_otherwise (slot : Option Node) (h : isPlain true printed) :
    isPlain true (otherwise slot printed) := by
  rw [otherwise.eq_def]
  split
  · rfl
  · simp [h]
  · simp [isPlain_body _ h]

theorem isPlain_position {hard : Bool} (slot : Option Node) (h : isPlain hard printed) :
    isPlain hard (position slot printed) := by
  rw [position.eq_def]
  split <;> simp [h]

theorem isPlain_type {hard : Bool} {lowerBound upperBound : Doc} (lower : Option Node)
    (hLower : isPlain hard lowerBound) (hUpper : isPlain hard upperBound)
    (h : isPlain hard printed) : isPlain hard (type lower lowerBound upperBound printed) := by
  rw [type.eq_def]
  split <;> simp [hLower, hUpper, h]

theorem isPlain_list {hard : Bool} {kind : ListKind} {items : List Doc}
    (hKind : kind.kind.isPlain hard) (h : ∀ item ∈ items, isPlain hard item) :
    isPlain hard (list kind items) := by
  cases kind with
  | varSection =>
    refine isPlain_join hKind fun part hPart => ?_
    obtain ⟨item, hItem, rfl⟩ := List.mem_map.mp hPart
    simp [h item hItem]
  | identifierList => exact isPlain_join (isPlain_text _) h
  | statementList =>
    have hHard : hard = true := hKind
    exact isPlain_join (by simp [hHard]) h
  | expressionList => exact isPlain_join (by simp) h

end

end Source

namespace Node

theorem forall_mem_itemDocs {property : Doc → Prop} {items : List Node}
    (h : ∀ node ∈ items, property node.doc) : ∀ item ∈ itemDocs items, property item := by
  rw [itemDocs_eq]
  exact List.forall_mem_map.mpr h

/-- The kinds in a tree decide what its document is made of. -/
theorem isPlain_doc {hard : Bool} (node : Node)
    (h : ∀ label ∈ node.preorder, label.kind.isPlain hard) : node.doc.isPlain hard := by
  induction node using inductionOn with
  | step node ih =>
    rw [preorder_eq, List.forall_mem_cons] at h
    obtain ⟨hKind, hBelow⟩ := h
    have hChild : ∀ child ∈ node.children, child.doc.isPlain hard := by
      intro child hMem
      apply ih child hMem
      intro label hLabel
      exact hBelow label (List.mem_flatMap.mpr ⟨child, hMem, hLabel⟩)
    have hSlot : ∀ slot ∈ node.slots, (slotDoc slot).isPlain hard := by
      rintro (_ | child) hMem
      · rfl
      · exact hChild child (mem_children_iff.mpr (.inl hMem))
    clear ih hBelow
    cases node with
    | leaf payload => exact Source.isPlain_leaf hard payload
    | list kind items =>
      apply Source.isPlain_list hKind
      apply forall_mem_itemDocs
      intro child hMem
      exact hChild child (mem_children_iff.mpr (.inr hMem))
    | program declarations body =>
      obtain rfl : hard = true := hKind
      have hDeclarations := Source.isPlain_declarations declarations
        (hSlot declarations (by simp [slots]))
      simp [doc, Source.program, hDeclarations, hSlot body (by simp [slots])]
    | declaration identifiers typing =>
      simp [doc, hSlot identifiers (by simp [slots]), hSlot typing (by simp [slots])]
    | type lower upper element =>
      rw [doc]
      exact Source.isPlain_type lower (hSlot lower (by simp [slots]))
        (hSlot upper (by simp [slots])) (hSlot element (by simp [slots]))
    | compound statements =>
      obtain rfl : hard = true := hKind
      have hStatements := Source.isPlain_statements statements
        (hSlot statements (by simp [slots]))
      simp [doc, Source.block, hStatements]
    | call routine argument => cases routine <;> cases hKind
    | assign target position value =>
      have hPosition := Source.isPlain_position position (hSlot position (by simp [slots]))
      simp [doc, hPosition, hSlot target (by simp [slots]), hSlot value (by simp [slots])]
    | conditional condition consequent otherwise =>
      obtain rfl : hard = true := hKind
      have hConsequent := Source.isPlain_consequent consequent otherwise
        (hSlot consequent (by simp [slots]))
      have hOtherwise := Source.isPlain_otherwise otherwise (hSlot otherwise (by simp [slots]))
      simp [doc, hConsequent, hOtherwise, hSlot condition (by simp [slots])]
    | whileLoop condition body =>
      obtain rfl : hard = true := hKind
      have hBody := Source.isPlain_body body (hSlot body (by simp [slots]))
      simp [doc, hBody, hSlot condition (by simp [slots])]
    | forLoop counter start direction stop body =>
      obtain rfl : hard = true := hKind
      have hBody := Source.isPlain_body body (hSlot body (by simp [slots]))
      simp [doc, hBody, hSlot counter (by simp [slots]), hSlot start (by simp [slots]),
        hSlot direction (by simp [slots]), hSlot stop (by simp [slots])]
    | expression left operator right =>
      simp [doc, hSlot left (by simp [slots]), hSlot operator (by simp [slots]),
        hSlot right (by simp [slots])]
    | subscript identifier index =>
      simp [doc, hSlot identifier (by simp [slots]), hSlot index (by simp [slots])]
    | unary form operand =>
      have hOperand := hSlot operand (by simp [slots])
      cases form <;> simp [doc, Source.unary, hOperand]

theorem isPlain_slotDoc {hard : Bool} {slot : Option Node}
    (h : ∀ node ∈ slot, node.doc.isPlain hard) : (slotDoc slot).isPlain hard := by
  cases slot with
  | none => rfl
  | some node => exact h node rfl

end Node
end PascalTree

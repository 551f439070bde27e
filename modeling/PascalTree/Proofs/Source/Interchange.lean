import PascalTree.Proofs.Layout.Alike
import PascalTree.Proofs.Node.Rewrite

/-! # Nodes that stand for each other

A rule looks at what stands in a slot in four ways: at its kind, at whether it has items, at whether
it would take an `else`, and at its document. Nodes that agree in these stand for each other
wherever they occur, and so a rewriting whose step keeps to them keeps the document of every tree.
-/
namespace PascalTree
set_option autoImplicit false

namespace Node

structure Interchangeable (first second : Node) : Prop where
  kind : first.kind = second.kind
  isEmpty : first.items.isEmpty = second.items.isEmpty
  endsWithOpenIf : first.endsWithOpenIf = second.endsWithOpenIf
  doc : Doc.Alike first.doc second.doc

namespace Interchangeable

theorem refl (node : Node) : Interchangeable node node := ⟨rfl, rfl, rfl, .refl _⟩

theorem trans {first second third : Node} (h : Interchangeable first second)
    (h' : Interchangeable second third) : Interchangeable first third where
  kind := h.kind.trans h'.kind
  isEmpty := h.isEmpty.trans h'.isEmpty
  endsWithOpenIf := h.endsWithOpenIf.trans h'.endsWithOpenIf
  doc := h.doc.trans h'.doc

end Interchangeable

theorem alike_slotDoc {slot other : Option Node} (h : Option.Rel Interchangeable slot other) :
    Doc.Alike (slotDoc slot) (slotDoc other) := by
  cases h with
  | none => exact .refl _
  | some hNode => exact hNode.doc

end Node

namespace Source
open Node (Interchangeable slotDoc alike_slotDoc)

theorem body_some (node : Node) (printed : Doc) :
    body (some node) printed =
      if node.kind = .compound then .concat [.text " ", printed]
      else .indent (.concat [.hardLine, printed]) := by
  cases node with
  | leaf payload => cases payload <;> rfl
  | list kind items => cases kind <;> rfl
  | call routine argument => cases routine <;> rfl
  | unary form operand => cases form <;> rfl
  | _ => rfl

theorem otherwise_some (node : Node) (printed : Doc) :
    otherwise (some node) printed =
      if node.kind = .conditional then
        .concat [.hardLine, .text "else", .concat [.text " ", printed]]
      else .concat [.hardLine, .text "else", body (some node) printed] := by
  cases node with
  | leaf payload => cases payload <;> rfl
  | list kind items => cases kind <;> rfl
  | call routine argument => cases routine <;> rfl
  | unary form operand => cases form <;> rfl
  | _ => rfl

theorem statements_some (node : Node) (printed : Doc) :
    statements (some node) printed =
      if node.kind = .statementList ∧ node.items.isEmpty then .empty
      else .indent (.concat [.hardLine, printed]) := by
  cases node with
  | leaf payload => cases payload <;> rfl
  | list kind items => cases kind <;> cases items <;> rfl
  | call routine argument => cases routine <;> rfl
  | unary form operand => cases form <;> rfl
  | _ => rfl

theorem declarations_some (node : Node) (printed : Doc) :
    declarations (some node) printed =
      if node.kind = .varSection then
        if node.items.isEmpty then .empty else declarations.underVar printed
      else declarations.underVar (.concat [printed, .text ";"]) := by
  cases node with
  | leaf payload => cases payload <;> rfl
  | list kind items => cases kind <;> cases items <;> rfl
  | call routine argument => cases routine <;> rfl
  | unary form operand => cases form <;> rfl
  | _ => rfl

section
variable {slot other : Option Node} (h : Option.Rel Interchangeable slot other)
include h

theorem alike_body : Doc.Alike (body slot (slotDoc slot)) (body other (slotDoc other)) := by
  cases h with
  | none => exact .refl _
  | @some node node' hNode =>
    rw [body_some, body_some, hNode.kind]
    split
    · exact .concat (.cons (.refl _) (.cons hNode.doc .nil))
    · exact .indent (.concat (.cons (.refl _) (.cons hNode.doc .nil)))

theorem alike_otherwise :
    Doc.Alike (otherwise slot (slotDoc slot)) (otherwise other (slotDoc other)) := by
  have hBody := alike_body h
  cases h with
  | none => exact .refl _
  | @some node node' hNode =>
    rw [otherwise_some, otherwise_some, hNode.kind]
    split
    · have hSpaced : Doc.Alike (.concat [.text " ", node.doc]) (.concat [.text " ", node'.doc]) :=
        .concat (.cons (.refl _) (.cons hNode.doc .nil))
      exact .concat (.cons (.refl _) (.cons (.refl _) (.cons hSpaced .nil)))
    · exact .concat (.cons (.refl _) (.cons (.refl _) (.cons hBody .nil)))

theorem alike_statements :
    Doc.Alike (statements slot (slotDoc slot)) (statements other (slotDoc other)) := by
  cases h with
  | none => exact .refl _
  | @some node node' hNode =>
    rw [statements_some, statements_some, hNode.kind, hNode.isEmpty]
    split
    · exact .refl _
    · exact .indent (.concat (.cons (.refl _) (.cons hNode.doc .nil)))

omit h in
theorem alike_underVar {printed printed' : Doc} (h : Doc.Alike printed printed') :
    Doc.Alike (declarations.underVar printed) (declarations.underVar printed') := by
  have hIndented : Doc.Alike (.indent (.concat [.hardLine, printed]))
      (.indent (.concat [.hardLine, printed'])) :=
    .indent (.concat (.cons (.refl _) (.cons h .nil)))
  exact .concat (.cons (.refl _) (.cons hIndented (.cons (.refl _) .nil)))

theorem alike_declarations :
    Doc.Alike (declarations slot (slotDoc slot)) (declarations other (slotDoc other)) := by
  cases h with
  | none => exact .refl _
  | @some node node' hNode =>
    rw [declarations_some, declarations_some, hNode.kind, hNode.isEmpty]
    split
    · split
      · exact .refl _
      · exact alike_underVar hNode.doc
    · exact alike_underVar (.concat (.cons hNode.doc (.cons (.refl _) .nil)))

theorem alike_position :
    Doc.Alike (position slot (slotDoc slot)) (position other (slotDoc other)) := by
  cases h with
  | none => exact .refl _
  | some hNode => exact .concat (.cons (.refl _) (.cons hNode.doc (.cons (.refl _) .nil)))

theorem alike_consequent {branch branch' : Option Node}
    (hBranch : Option.Rel Interchangeable branch branch') :
    Doc.Alike (consequent slot branch (slotDoc slot))
      (consequent other branch' (slotDoc other)) := by
  have hSome : branch.isSome = branch'.isSome := by cases hBranch <;> rfl
  have hOpen : slot.any Node.endsWithOpenIf = other.any Node.endsWithOpenIf := by
    cases h with
    | none => rfl
    | some hNode => exact hNode.endsWithOpenIf
  rw [consequent, consequent, hSome, hOpen]
  split
  · have hIndented := Doc.Alike.indent
      (.concat (.cons (.refl .hardLine) (.cons (alike_slotDoc h) .nil)))
    exact .concat (.cons (.refl _) (.cons hIndented (.cons (.refl _) (.cons (.refl _) .nil))))
  · exact alike_body h

theorem alike_type {upper upper' element element' : Doc} (hUpper : Doc.Alike upper upper')
    (hElement : Doc.Alike element element') :
    Doc.Alike (type slot (slotDoc slot) upper element)
      (type other (slotDoc other) upper' element') := by
  cases h with
  | none => exact hElement
  | some hNode =>
    exact .concat (.cons (.refl _) (.cons hNode.doc (.cons (.refl _) (.cons hUpper
      (.cons (.refl _) (.cons hElement .nil))))))

end

theorem alike_call (routine : Routine) {argument argument' : Doc}
    (h : Doc.Alike argument argument') :
    Doc.Alike (call routine argument) (call routine argument') := by
  have hIndented : Doc.Alike (.indent (.concat [.softLine, argument]))
      (.indent (.concat [.softLine, argument'])) :=
    .indent (.concat (.cons (.refl _) (.cons h .nil)))
  exact .group (.concat (.cons (.refl _) (.cons (.refl _) (.cons hIndented (.cons (.refl _)
    (.cons (.refl _) .nil))))))

theorem alike_list (kind : ListKind) {items items' : List Doc}
    (h : List.Forall₂ Doc.Alike items items') : Doc.Alike (list kind items) (list kind items') := by
  cases kind with
  | varSection =>
    refine .join ?_
    rw [List.forall₂_map_left_iff, List.forall₂_map_right_iff]
    exact h.imp fun _ _ hItem => .concat (.cons hItem (.cons (.refl _) .nil))
  | identifierList | statementList | expressionList => exact .join h

theorem alike_unary (form : UnaryForm) {operand operand' : Doc} (h : Doc.Alike operand operand') :
    Doc.Alike (unary form operand) (unary form operand') := by
  cases form with
  | not | negate => exact .concat (.cons (.refl _) (.cons h .nil))
  | group => exact .concat (.cons (.refl _) (.cons h (.cons (.refl _) .nil)))

end Source

namespace Node

section
variable {f : Node → Node} {node : Node}
  (h : ∀ child ∈ node.children, Interchangeable (f child) child)
include h

theorem rel_map_slot {slot : Option Node} (hSlot : slot ∈ node.slots) :
    Option.Rel Interchangeable (slot.map f) slot := by
  cases slot with
  | none => exact .none
  | some child => exact .some (h child (mem_children_iff.mpr (.inl hSlot)))

/-- Every rule gives alike documents when the children are replaced by interchangeable ones. -/
theorem alike_doc_mapChildren : Doc.Alike (node.mapChildren f).doc node.doc := by
  have hSlot := fun (slot : Option Node) (hMem : slot ∈ node.slots) => rel_map_slot h hMem
  have hDoc := fun (slot : Option Node) (hMem : slot ∈ node.slots) =>
    alike_slotDoc (hSlot slot hMem)
  cases node with
  | leaf payload => exact .refl _
  | list kind items =>
    have hItems : List.Forall₂ Doc.Alike (itemDocs (items.map f)) (itemDocs items) := by
      rw [itemDocs_eq, itemDocs_eq, List.map_map, List.forall₂_map_left_iff,
        List.forall₂_map_right_iff, List.forall₂_same]
      exact fun item hItem => (h item (mem_children_iff.mpr (.inr hItem))).doc
    exact Source.alike_list kind hItems
  | program declarations body =>
    have hDeclarations := Source.alike_declarations (hSlot declarations (by simp [slots]))
    have hBody := hDoc body (by simp [slots])
    exact .concat (.cons (.refl _) (.cons (.refl _) (.cons (.refl _) (.cons (.refl _)
      (.cons hDeclarations (.cons hBody (.cons (.refl _) (.cons (.refl _) .nil))))))))
  | declaration identifiers typing =>
    have hIdentifiers := hDoc identifiers (by simp [slots])
    have hTyping := hDoc typing (by simp [slots])
    exact .concat (.cons hIdentifiers (.cons (.refl _) (.cons hTyping .nil)))
  | type lower upper element =>
    exact Source.alike_type (hSlot lower (by simp [slots])) (hDoc upper (by simp [slots]))
      (hDoc element (by simp [slots]))
  | compound statements =>
    have hStatements := Source.alike_statements (hSlot statements (by simp [slots]))
    exact .concat (.cons (.refl _) (.cons hStatements (.cons (.refl _) (.cons (.refl _) .nil))))
  | call routine argument => exact Source.alike_call routine (hDoc argument (by simp [slots]))
  | assign target position value =>
    have hTarget := hDoc target (by simp [slots])
    have hPosition := Source.alike_position (hSlot position (by simp [slots]))
    have hValue := hDoc value (by simp [slots])
    exact .concat (.cons hTarget (.cons hPosition (.cons (.refl _) (.cons hValue .nil))))
  | conditional condition consequent otherwise =>
    have hOtherwise := hSlot otherwise (by simp [slots])
    have hCondition := Doc.Alike.concat (.cons (.refl (.text "if "))
      (.cons (hDoc condition (by simp [slots])) (.cons (.refl (.text " then")) .nil)))
    have hConsequent := Source.alike_consequent (hSlot consequent (by simp [slots])) hOtherwise
    exact .concat (.cons hCondition (.cons hConsequent
      (.cons (Source.alike_otherwise hOtherwise) .nil)))
  | whileLoop condition body =>
    have hCondition := hDoc condition (by simp [slots])
    have hBody := Source.alike_body (hSlot body (by simp [slots]))
    exact .concat (.cons (.refl _) (.cons hCondition (.cons (.refl _) (.cons hBody .nil))))
  | forLoop counter start direction stop body =>
    have hCounter := hDoc counter (by simp [slots])
    have hStart := hDoc start (by simp [slots])
    have hDirection := hDoc direction (by simp [slots])
    have hStop := hDoc stop (by simp [slots])
    have hBody := Source.alike_body (hSlot body (by simp [slots]))
    exact .concat (.cons (.refl _) (.cons hCounter (.cons (.refl _) (.cons hStart
      (.cons hDirection (.cons hStop (.cons (.refl _) (.cons hBody .nil))))))))
  | expression left operator right =>
    have hLeft := hDoc left (by simp [slots])
    have hOperator := hDoc operator (by simp [slots])
    have hRight := hDoc right (by simp [slots])
    exact .concat (.cons hLeft (.cons hOperator (.cons hRight .nil)))
  | subscript identifier index =>
    have hIdentifier := hDoc identifier (by simp [slots])
    have hIndex := hDoc index (by simp [slots])
    exact .concat (.cons hIdentifier (.cons (.refl _) (.cons hIndex (.cons (.refl _) .nil))))
  | unary form operand => exact Source.alike_unary form (hDoc operand (by simp [slots]))

theorem interchangeable_mapChildren : Interchangeable (node.mapChildren f) node where
  kind := by cases node <;> rfl
  isEmpty := by
    cases node with
    | list kind items => exact List.isEmpty_map
    | _ => rfl
  endsWithOpenIf := endsWithOpenIf_mapChildren fun child hChild => (h child hChild).endsWithOpenIf
  doc := alike_doc_mapChildren h

end

theorem interchangeable_rewrite {step : Node → Node}
    (hStep : ∀ node, Interchangeable (step node) node) (tree : Node) :
    Interchangeable (rewrite step tree) tree := by
  induction tree using inductionOn with
  | step tree ih =>
    rw [rewrite_eq]
    exact (hStep _).trans (interchangeable_mapChildren ih)

end Node
end PascalTree

import Mathlib.Tactic.Choose
import PascalTree.Proofs.Node.View

/-! # The shape of a tree

A shape has the kinds of all nodes, tells which slots are filled, and of every text only its size.
Trees of the same shape are built alike, and so are their parts.
-/
namespace PascalTree
set_option autoImplicit false

/-- All of a tree but its texts, of which the sizes are left. -/
inductive Shape
  | node (kind : Kind) (size : Option Nat) (slots : List (Option Shape)) (items : List Shape)

namespace Node

def shape : Node → Shape :=
  fold fun label slots items =>
    .node label.kind (label.payload.map fun payload => payload.spelling.utf8ByteSize) slots items

theorem shape_eq (node : Node) :
    node.shape = .node node.kind (node.payload.map fun payload => payload.spelling.utf8ByteSize)
      (node.slots.map (·.map shape)) (node.items.map shape) :=
  fold_eq _ node

/-- What is printed of the payloads of the tree, in preorder. -/
def spellings (node : Node) : List String := node.payloads.map Payload.spelling

def slotSpellings : Option Node → List String
  | none => []
  | some node => node.spellings

theorem spellings_eq (node : Node) :
    node.spellings = (node.payload.map Payload.spelling).toList ++
      (node.slots.flatMap slotSpellings ++ node.items.flatMap spellings) := by
  have hSlots : (node.slots.filterMap id).flatMap spellings = node.slots.flatMap slotSpellings := by
    induction node.slots with
    | nil => rfl
    | cons slot rest ih =>
      cases slot with
      | none => exact ih
      | some child => exact congrArg (child.spellings ++ ·) ih
  have hChildren : (node.children.flatMap preorder).filterMap Label.payload =
      node.children.flatMap payloads := List.filterMap_flatMap
  have hPayload : node.label.payload = node.payload := rfl
  have hSpellings : (node.children.flatMap payloads).map Payload.spelling =
      node.children.flatMap spellings := List.map_flatMap
  rw [← hSlots, ← List.flatMap_append, ← children, ← hSpellings, spellings, payloads, preorder_eq,
    List.filterMap_cons, hChildren, hPayload]
  cases node.payload <;> rfl

theorem spellings_eq_nil {node : Node} (hList : node.kind.isList) (h : node.items.isEmpty) :
    node.spellings = [] := by
  obtain ⟨kind, items, rfl⟩ := node.isList_kind.mp hList
  obtain rfl : items = [] := List.isEmpty_iff.mp h
  exact spellings_eq _

section
variable {node other : Node} (h : other.shape = node.shape)
include h

theorem kind_of_shape_eq : other.kind = node.kind := by
  rw [shape_eq, shape_eq] at h
  exact (Shape.node.inj h).1

theorem size_of_shape_eq :
    (other.payload.map fun payload => payload.spelling.utf8ByteSize) =
      node.payload.map fun payload => payload.spelling.utf8ByteSize := by
  rw [shape_eq, shape_eq] at h
  exact (Shape.node.inj h).2.1

theorem child_of_shape_eq (index : Nat) :
    (other.child index).map shape = (node.child index).map shape := by
  rw [shape_eq, shape_eq] at h
  have hSlots := congrArg (·[index]?.join) (Shape.node.inj h).2.2.1
  simpa only [List.getElem?_map, child, Option.join_map_eq_map_join] using hSlots

theorem items_of_shape_eq : other.items.map shape = node.items.map shape := by
  rw [shape_eq, shape_eq] at h
  exact (Shape.node.inj h).2.2.2

theorem isEmpty_of_shape_eq : other.items.isEmpty = node.items.isEmpty := by
  have hItems := congrArg List.isEmpty (items_of_shape_eq h)
  simpa only [List.isEmpty_map] using hItems

theorem payload_isSome_of_shape_eq : other.payload.isSome = node.payload.isSome := by
  have hSize := congrArg Option.isSome (size_of_shape_eq h)
  simpa only [Option.isSome_map] using hSize

/-- Of two nodes of the same shape, one has the parts of the other. -/
theorem eq_withParts (hPayload : node.payload = none) :
    other = (node.withSlots other.child).withItems other.items := by
  have hKind := kind_of_shape_eq h
  have hOther : other.payload = none := by
    have hSome := payload_isSome_of_shape_eq h
    rwa [hPayload, Option.isSome_none, Option.isSome_eq_false_iff, Option.isNone_iff_eq_none]
      at hSome
  apply eq_of_parts_eq
  · rw [label_withItems, label_withSlots, label, label, hKind, hPayload, hOther]
  · rw [slots_withItems, slots_withSlots, length_slots, ← hKind, ← length_slots,
      ← slots_withSlots, withSlots_child]
  · by_cases hList : node.kind.isList
    · obtain ⟨kind, items, rfl⟩ := node.isList_kind.mp hList
      rfl
    · have hSame : ((node.withSlots other.child).withItems other.items).kind = node.kind := by
        have hLabel := label_withItems (node.withSlots other.child) other.items
        rw [label_withSlots] at hLabel
        exact congrArg Label.kind hLabel
      have hOtherItems : other.items = [] := items_eq_nil (by rwa [hKind])
      exact hOtherItems.trans (items_eq_nil (by rwa [hSame])).symm

end

/-- Whether an `else` would be taken is a matter of the last parts. -/
theorem endsWithOpenIf_eq (node : Node) :
    node.endsWithOpenIf =
      match node.kind with
      | .conditional => (node.child 2).all endsWithOpenIf
      | .whileLoop => (node.child 1).any endsWithOpenIf
      | .forLoop => (node.child 4).any endsWithOpenIf
      | _ => false := by
  cases node with
  | leaf payload => cases payload <;> rfl
  | list kind items => cases kind <;> rfl
  | call routine argument => cases routine <;> rfl
  | unary form operand => cases form <;> rfl
  | conditional condition consequent otherwise => cases otherwise <;> rfl
  | whileLoop condition body => cases body <;> rfl
  | forLoop counter start direction stop body => cases body <;> rfl
  | _ => rfl

theorem mem_children_of_child {node child : Node} {index : Nat}
    (h : node.child index = some child) : child ∈ node.children :=
  mem_children_iff.mpr (.inl (List.mem_of_getElem? (Option.join_eq_some_iff.mp h)))

theorem endsWithOpenIf_of_shape_eq {node other : Node} (h : other.shape = node.shape) :
    other.endsWithOpenIf = node.endsWithOpenIf := by
  induction node using inductionOn generalizing other with
  | step node ih =>
    have hChild : ∀ index,
        (other.child index).map endsWithOpenIf = (node.child index).map endsWithOpenIf := by
      intro index
      have hShape := child_of_shape_eq h index
      cases hNode : node.child index with
      | none =>
        rw [hNode, Option.map_none, Option.map_eq_none_iff] at hShape
        rw [hShape]
      | some child =>
        rw [hNode, Option.map_some, Option.map_eq_some_iff] at hShape
        obtain ⟨twin, hTwin, hShape⟩ := hShape
        rw [hTwin, Option.map_some, Option.map_some, ih child (mem_children_of_child hNode) hShape]
    have hAll : ∀ slot : Option Node, slot.all endsWithOpenIf =
        (slot.map endsWithOpenIf).all id := fun slot => by cases slot <;> rfl
    have hAny : ∀ slot : Option Node, slot.any endsWithOpenIf =
        (slot.map endsWithOpenIf).any id := fun slot => by cases slot <;> rfl
    rw [endsWithOpenIf_eq, endsWithOpenIf_eq node, kind_of_shape_eq h]
    simp only [hAll, hAny, hChild]

section
variable {ι : Type}

/-- Slots of the same shape are empty, or they hold nodes of the same shape. -/
theorem eq_none_or_exists_some {slot : Option Node} {slots : ι → Option Node}
    (h : ∀ i, (slots i).map shape = slot.map shape) :
    (slot = none ∧ slots = fun _ => none) ∨
      ∃ (node : Node) (nodes : ι → Node), slot = some node ∧ slots = (fun i => some (nodes i)) ∧
        ∀ i, (nodes i).shape = node.shape := by
  cases slot with
  | none =>
    exact .inl ⟨rfl, funext fun i => Option.map_eq_none_iff.mp (h i)⟩
  | some node =>
    right
    choose nodes hNodes hShape using fun i => Option.map_eq_some_iff.mp (h i)
    exact ⟨node, nodes, rfl, funext hNodes, hShape⟩

/-- Nodes of one shape without a payload differ in what their slots and their lists hold. -/
theorem exists_parts_of_shape_eq {node : Node} {nodes : ι → Node}
    (h : ∀ i, (nodes i).shape = node.shape) (hPayload : node.payload = none) :
    ∃ (slots : Nat → ι → Option Node) (items : ι → List Node),
      nodes = (fun i => (node.withSlots fun index => slots index i).withItems (items i)) ∧
        (∀ index i, (slots index i).map shape = (node.child index).map shape) ∧
        ∀ i, (items i).map shape = node.items.map shape :=
  ⟨fun index i => (nodes i).child index, fun i => (nodes i).items,
    funext fun i => eq_withParts (h i) hPayload, fun index i => child_of_shape_eq (h i) index,
    fun i => items_of_shape_eq (h i)⟩

theorem exists_leaf_of_shape_eq {payload : Payload} {nodes : ι → Node}
    (h : ∀ i, (nodes i).shape = (leaf payload).shape) :
    ∃ payloads : ι → Payload, nodes = (fun i => leaf (payloads i)) ∧
      ∀ i, (payloads i).kind = payload.kind ∧
        (payloads i).spelling.utf8ByteSize = payload.spelling.utf8ByteSize := by
  have hLeaf : ∀ i, ∃ other, nodes i = leaf other ∧ other.kind = payload.kind ∧
      other.spelling.utf8ByteSize = payload.spelling.utf8ByteSize := by
    intro i
    have hKind := kind_of_shape_eq (h i)
    have hSize := size_of_shape_eq (h i)
    cases hNode : nodes i with
    | leaf other =>
      rw [hNode] at hKind hSize
      exact ⟨other, rfl, hKind, Option.some.inj hSize⟩
    | _ =>
      rw [hNode] at hSize
      cases hSize
  choose payloads hNodes hPayloads using hLeaf
  exact ⟨payloads, funext hNodes, hPayloads⟩

theorem exists_cons_of_map_shape_eq {node : Node} {rest : List Node} {items : ι → List Node}
    (h : ∀ i, (items i).map shape = (node :: rest).map shape) :
    ∃ (nodes : ι → Node) (others : ι → List Node), items = (fun i => nodes i :: others i) ∧
      (∀ i, (nodes i).shape = node.shape) ∧ ∀ i, (others i).map shape = rest.map shape := by
  choose nodes others hItems hShape hOthers using fun i => List.map_eq_cons_iff.mp (h i)
  exact ⟨nodes, others, funext hItems, hShape, hOthers⟩

end

end Node
end PascalTree

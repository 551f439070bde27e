import PascalTree.Node.Fold
import PascalTree.Source

/-! # Rewriting trees

`rewrite` applies one step to every node of a tree, to the children before the node. A step that
leaves every node of a tree alone leaves the tree alone, and one that never changes whether a node
takes an `else` leaves that of the tree alone too.
-/
namespace PascalTree.Node
set_option autoImplicit false

def mapChildren (f : Node → Node) (node : Node) : Node :=
  (node.withSlots fun index => (node.child index).map f).withItems (node.items.map f)

theorem children_mapChildren (f : Node → Node) (node : Node) :
    (node.mapChildren f).children = node.children.map f := by
  have hSlots : (node.mapChildren f).slots = node.slots.map (·.map f) := by cases node <;> rfl
  have hItems : (node.mapChildren f).items = node.items.map f := by cases node <;> rfl
  rw [children, children, hSlots, hItems, List.filterMap_map, List.map_append, List.map_filterMap]
  rfl

def ofParts (label : Label) (slots : List (Option Node)) (items : List Node) : Node :=
  match label.payload with
  | some payload => leaf payload
  | none => ((create label.kind).withSlots fun index => slots[index]?.join).withItems items

theorem ofParts_map (f : Node → Node) (node : Node) :
    ofParts node.label (node.slots.map (·.map f)) (node.items.map f) = node.mapChildren f := by
  cases node with
  | list kind items => cases kind <;> rfl
  | call routine argument => cases routine <;> rfl
  | unary form operand => cases form <;> rfl
  | _ => rfl

def rewrite (step : Node → Node) : Node → Node :=
  fold fun label slots items => step (ofParts label slots items)

theorem rewrite_eq (step : Node → Node) (node : Node) :
    rewrite step node = step (node.mapChildren (rewrite step)) := by
  rw [← ofParts_map]
  exact fold_eq _ node

/-- The property holds of the node and of everything below it. -/
inductive Everywhere (property : Node → Prop) : Node → Prop
  | intro {node : Node} (hNode : property node)
    (hChildren : ∀ child ∈ node.children, Everywhere property child) : Everywhere property node

theorem Everywhere.imp {property weaker : Node → Prop} {node : Node} (h : node.Everywhere property)
    (hWeaker : ∀ node, property node → weaker node) : node.Everywhere weaker := by
  induction h with
  | intro hNode _ ih => exact .intro (hWeaker _ hNode) ih

theorem mapChildren_eq_self_iff {f : Node → Node} {node : Node} :
    node.mapChildren f = node ↔ ∀ child ∈ node.children, f child = child := by
  have hSlot : ∀ slot : Option Node,
      slot.map f = slot ↔ ∀ child, some child = slot → f child = child := by
    intro slot
    cases slot <;> simp
  have hItems : ∀ items : List Node, items.map f = items ↔ ∀ child ∈ items, f child = child := by
    intro items
    induction items with
    | nil => simp
    | cons head tail ih => simp [ih]
  cases node <;>
    simp [mapChildren, withSlots, withItems, mem_children_iff, slots, Node.items, child, hSlot,
      hItems, or_imp, forall_and]

theorem rewrite_eq_self {step : Node → Node} {property : Node → Prop} {node : Node}
    (hStep : ∀ node, property node → step node = node) (h : node.Everywhere property) :
    rewrite step node = node := by
  induction h with
  | @intro node hNode _ ih =>
    rw [rewrite_eq, mapChildren_eq_self_iff.mpr ih]
    exact hStep node hNode

theorem endsWithOpenIf_mapChildren {f : Node → Node} {node : Node}
    (h : ∀ child ∈ node.children, (f child).endsWithOpenIf = child.endsWithOpenIf) :
    (node.mapChildren f).endsWithOpenIf = node.endsWithOpenIf := by
  have hSlot := fun (child : Node) (hMem : some child ∈ node.slots) =>
    h child (mem_children_iff.mpr (.inl hMem))
  cases node with
  | conditional condition consequent otherwise =>
    cases otherwise with
    | none => rfl
    | some otherwise => exact hSlot otherwise (by simp [slots])
  | whileLoop condition body =>
    cases body with
    | none => rfl
    | some body => exact hSlot body (by simp [slots])
  | forLoop counter start direction stop body =>
    cases body with
    | none => rfl
    | some body => exact hSlot body (by simp [slots])
  | _ => rfl

theorem endsWithOpenIf_rewrite {step : Node → Node}
    (hStep : ∀ node, (step node).endsWithOpenIf = node.endsWithOpenIf) (tree : Node) :
    (rewrite step tree).endsWithOpenIf = tree.endsWithOpenIf := by
  induction tree using inductionOn with
  | step tree ih => rw [rewrite_eq, hStep, endsWithOpenIf_mapChildren ih]

end PascalTree.Node

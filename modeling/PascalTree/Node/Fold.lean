import PascalTree.Node.Basic

/-! # Recursion over a whole tree

`fold` computes bottom-up from a node's label and the results of its slots and items. Its equation
`fold_eq` is the same for every kind, and `inductionOn` is the matching induction principle.
-/
namespace PascalTree
set_option autoImplicit false

namespace Node

/-- The children that are there, filled slots in slot order and then items. -/
def children (node : Node) : List Node := node.slots.filterMap id ++ node.items

theorem mem_children_iff {node child : Node} :
    child ∈ node.children ↔ some child ∈ node.slots ∨ child ∈ node.items := by
  simp [children]

theorem sizeOf_slot_lt {node : Node} {slot : Option Node} (h : slot ∈ node.slots) :
    sizeOf slot < sizeOf node := by
  have hSize : sizeOf slot ∈ node.slots.map sizeOf := List.mem_map_of_mem h
  cases node <;> simp [slots] at hSize ⊢ <;> omega

theorem sizeOf_item_lt {node item : Node} (h : item ∈ node.items) : sizeOf item < sizeOf node := by
  cases node <;> simp only [items, List.not_mem_nil] at h
  have hSize := List.sizeOf_lt_of_mem h
  simp
  omega

theorem sizeOf_lt_of_mem_children {node child : Node} (h : child ∈ node.children) :
    sizeOf child < sizeOf node := by
  rcases mem_children_iff.mp h with hSlot | hItem
  · have hSize := sizeOf_slot_lt hSlot
    simp only [Option.some.sizeOf_spec] at hSize
    omega
  · exact sizeOf_item_lt hItem

/-- What holds of a node whenever it holds of its children holds of every node. -/
@[elab_as_elim]
theorem inductionOn {motive : Node → Prop} (node : Node)
    (step : ∀ node : Node, (∀ child ∈ node.children, motive child) → motive node) :
    motive node :=
  step node fun child _ => inductionOn child step
termination_by sizeOf node
decreasing_by exact sizeOf_lt_of_mem_children ‹_›

section
universe u
variable {α : Type u} (f : Label → List (Option α) → List α → α)

mutual
/-- The result of a node is `f` of its label, the results of its slots and those of its items. -/
def fold : Node → α
  | leaf payload => f ⟨payload.kind, some payload⟩ [] []
  | list kind items => f ⟨kind.kind, none⟩ [] (foldItems items)
  | program declarations body => f ⟨.program, none⟩ [foldSlot declarations, foldSlot body] []
  | declaration identifiers typing =>
    f ⟨.declaration, none⟩ [foldSlot identifiers, foldSlot typing] []
  | type lower upper element =>
    f ⟨.type, none⟩ [foldSlot lower, foldSlot upper, foldSlot element] []
  | compound statements => f ⟨.compound, none⟩ [foldSlot statements] []
  | call routine argument => f ⟨routine.kind, none⟩ [foldSlot argument] []
  | assign target position value =>
    f ⟨.assign, none⟩ [foldSlot target, foldSlot position, foldSlot value] []
  | conditional condition consequent otherwise =>
    f ⟨.conditional, none⟩ [foldSlot condition, foldSlot consequent, foldSlot otherwise] []
  | whileLoop condition body => f ⟨.whileLoop, none⟩ [foldSlot condition, foldSlot body] []
  | forLoop counter start direction stop body =>
    f ⟨.forLoop, none⟩
      [foldSlot counter, foldSlot start, foldSlot direction, foldSlot stop, foldSlot body] []
  | expression left operator right =>
    f ⟨.expression, none⟩ [foldSlot left, foldSlot operator, foldSlot right] []
  | subscript identifier index => f ⟨.subscript, none⟩ [foldSlot identifier, foldSlot index] []
  | unary form operand => f ⟨form.kind, none⟩ [foldSlot operand] []

def foldSlot : Option Node → Option α
  | none => none
  | some node => some (fold node)

def foldItems : List Node → List α
  | [] => []
  | node :: rest => fold node :: foldItems rest
end

theorem foldSlot_eq (slot : Option Node) : foldSlot f slot = slot.map (fold f) := by
  cases slot <;> simp [foldSlot]

theorem foldItems_eq (items : List Node) : foldItems f items = items.map (fold f) := by
  induction items with
  | nil => rfl
  | cons node rest ih => simp [foldItems, ih]

theorem fold_eq (node : Node) :
    fold f node = f node.label (node.slots.map (·.map (fold f))) (node.items.map (fold f)) := by
  cases node <;> simp [fold, foldSlot_eq, foldItems_eq, label, kind, payload, slots, items]

end

/-- The labels of all nodes, a node before its children. -/
def preorder (node : Node) : List Label :=
  node.fold fun label slots items => label :: ((slots.filterMap id).flatten ++ items.flatten)

theorem preorder_eq (node : Node) :
    node.preorder = node.label :: node.children.flatMap preorder := by
  rw [preorder, fold_eq]
  simp [children, List.flatMap_def, List.filterMap_map, List.map_filterMap]
  rfl

end Node
end PascalTree

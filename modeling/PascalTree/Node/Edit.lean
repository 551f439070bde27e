import PascalTree.Node.Basic

/-! # Editing one node

Assigning and emptying slots, and changing the items of a list. Each edit states what the slots and
items are afterwards; the label never changes.
-/
namespace PascalTree
set_option autoImplicit false

namespace Node

/-- Gives a slot new content. An index without a slot changes nothing. -/
def assignSlot (node : Node) (index : Nat) (content : Option Node) : Node :=
  node.withSlots fun other => if other = index then content else node.child other

def takeChild (node : Node) (index : Nat) : Option Node × Node :=
  (node.child index, node.assignSlot index none)

def pushItem (node item : Node) : Node := node.withItems (node.items ++ [item])

/-- Places the item before the one with the given index. -/
def insertItem (node : Node) (index : Nat) (item : Node) : Node :=
  node.withItems (node.items.insertIdx index item)

def removeItem (node : Node) (index : Nat) : Node := node.withItems (node.items.eraseIdx index)

def popItem (node : Node) : Option Node × Node :=
  (node.items.getLast?, node.withItems node.items.dropLast)

def clearItems (node : Node) : Node := node.withItems []

/-- A leaf keeps its kind when its payload is replaced. -/
def withPayload? : Node → Payload → Option Node
  | leaf old, payload => if old.kind = payload.kind then some (leaf payload) else none
  | _, _ => none

@[simp] theorem label_assignSlot (node : Node) (index : Nat) (content : Option Node) :
    (node.assignSlot index content).label = node.label :=
  label_withSlots node _

@[simp] theorem items_assignSlot (node : Node) (index : Nat) (content : Option Node) :
    (node.assignSlot index content).items = node.items :=
  items_withSlots node _

theorem slots_assignSlot (node : Node) (index : Nat) (content : Option Node) :
    (node.assignSlot index content).slots = node.slots.set index content := by
  apply List.ext_getElem
  · simp [assignSlot, slots_withSlots]
  · intro other hLeft hRight
    have hBound : other < node.slots.length := by simpa using hRight
    by_cases h : other = index
    · simp [assignSlot, slots_withSlots, h]
    · simp [assignSlot, slots_withSlots, h, Ne.symm h, child, hBound]

theorem child_assignSlot_self (node : Node) {index : Nat} (content : Option Node)
    (h : index < node.slots.length) : (node.assignSlot index content).child index = content := by
  simp [assignSlot, child_withSlots node _ h]

theorem child_assignSlot_ne (node : Node) {index other : Nat} (content : Option Node)
    (h : other ≠ index) : (node.assignSlot index content).child other = node.child other := by
  rw [child, slots_assignSlot, List.getElem?_set_ne h.symm]
  rfl

theorem assignSlot_of_le (node : Node) {index : Nat} (content : Option Node)
    (h : node.slots.length ≤ index) : node.assignSlot index content = node := by
  refine (node.withSlots_congr fun other hOther => ?_).trans node.withSlots_child
  exact if_neg (by omega)

theorem assignSlot_child (node : Node) (index : Nat) :
    node.assignSlot index (node.child index) = node := by
  refine (node.withSlots_congr fun other _ => ?_).trans node.withSlots_child
  by_cases h : other = index <;> simp [h]

@[simp] theorem assignSlot_assignSlot (node : Node) (index : Nat) (first second : Option Node) :
    (node.assignSlot index first).assignSlot index second = node.assignSlot index second := by
  have hChild (other : Nat) (h : other ≠ index) := node.child_assignSlot_ne first h
  unfold assignSlot at hChild ⊢
  rw [withSlots_withSlots]
  refine node.withSlots_congr fun other _ => ?_
  split
  · rfl
  · exact hChild other ‹_›

end Node
end PascalTree

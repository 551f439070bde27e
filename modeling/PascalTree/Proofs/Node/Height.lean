import Mathlib.Data.List.MinMax
import PascalTree.Node.Fold

/-! # The height of a tree

A tree is as high as its longest path from the root to a leaf has nodes. An empty slot has no
height.
-/
namespace PascalTree.Node
set_option autoImplicit false

/-- The number of nodes on the longest path down. -/
def height (node : Node) : Nat :=
  node.fold fun _ slots items => (slots.filterMap id ++ items).foldr max 0 + 1

theorem height_eq (node : Node) :
    node.height = (node.children.map height).foldr max 0 + 1 := by
  rw [height, fold_eq, children, List.map_append, List.map_filterMap, List.filterMap_map]
  rfl

theorem height_lt_of_mem_children {node child : Node} (h : child ∈ node.children) :
    child.height < node.height := by
  rw [height_eq node]
  exact Nat.lt_succ_of_le (List.le_max_of_le' 0 (List.mem_map_of_mem h) (Nat.le_refl _))

def slotHeight (slot : Option Node) : Nat := (slot.map height).getD 0

theorem slotHeight_lt_of_mem_slots {node : Node} {slot : Option Node} (h : slot ∈ node.slots) :
    slotHeight slot < node.height := by
  cases slot with
  | none =>
    rw [height_eq]
    exact Nat.succ_pos _
  | some child => exact height_lt_of_mem_children (mem_children_iff.mpr (.inl h))

end PascalTree.Node

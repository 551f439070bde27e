import Mathlib.Algebra.BigOperators.Group.Multiset.Basic
import Mathlib.Data.List.Perm.Basic
import PascalTree.Node.Fold
import PascalTree.Node.Path

/-! # What a tree is made of

The labels of a tree say how often each kind of node, with its payload, occurs in it, and not where.
An edit exchanges labels: with those of what goes out added to the new tree, and those of what comes
in to the old one, both have the same. What is true of an edited node is true of every tree that has
the node at a path.
-/
namespace PascalTree
set_option autoImplicit false

theorem sum_map_set {α β : Type} [AddCommMonoid β] (f : α → β) {list : List α} {index : Nat}
    {old : α} (h : list[index]? = some old) (new : α) :
    ((list.set index new).map f).sum + f old = (list.map f).sum + f new := by
  have hPerm := list.getD_set_perm_cons index new
  rw [h, Option.getD_some] at hPerm
  have hSum := (hPerm.map f).sum_eq
  rw [List.map_cons, List.map_cons, List.sum_cons, List.sum_cons] at hSum
  rw [add_comm, hSum, add_comm]

namespace Node

def labels (node : Node) : Multiset Label := node.preorder

/-- The labels of what may be absent. -/
def labelsIn : Option Node → Multiset Label
  | none => 0
  | some node => node.labels

@[simp] theorem labelsIn_none : labelsIn none = 0 := rfl

@[simp] theorem labelsIn_some (node : Node) : labelsIn (some node) = node.labels := rfl

theorem coe_flatMap_preorder (nodes : List Node) :
    (nodes.flatMap preorder : Multiset Label) = (nodes.map labels).sum := by
  induction nodes with
  | nil => rfl
  | cons node nodes ih =>
    rw [List.flatMap_cons, ← Multiset.coe_add, ih, List.map_cons, List.sum_cons, labels]

theorem sum_labels_filterMap (slots : List (Option Node)) :
    ((slots.filterMap id).map labels).sum = (slots.map labelsIn).sum := by
  induction slots with
  | nil => rfl
  | cons slot slots ih =>
    cases slot with
    | none => simpa using ih
    | some node => simpa using ih

theorem labels_eq (node : Node) :
    node.labels =
      node.label ::ₘ ((node.slots.map labelsIn).sum + (node.items.map labels).sum) := by
  rw [labels, preorder_eq, ← Multiset.cons_coe, coe_flatMap_preorder, children, List.map_append,
    List.sum_append, sum_labels_filterMap]

theorem labels_assignSlot (node : Node) {index : Nat} {old : Option Node}
    (h : node.slots[index]? = some old) (content : Option Node) :
    (node.assignSlot index content).labels + labelsIn old = node.labels + labelsIn content := by
  rw [labels_eq, labels_eq node, label_assignSlot, items_assignSlot, slots_assignSlot,
    Multiset.cons_add, Multiset.cons_add, add_right_comm, sum_map_set labelsIn h,
    add_right_comm]

theorem labels_takeChild (node : Node) (index : Nat) :
    (node.takeChild index).2.labels + labelsIn (node.takeChild index).1 = node.labels := by
  dsimp only [takeChild]
  by_cases hSlot : index < node.slots.length
  · have hOld := List.getElem?_eq_getElem hSlot
    rw [child, hOld, Option.join_some, labels_assignSlot node hOld, labelsIn_none, add_zero]
  · have hNone := Nat.le_of_not_lt hSlot
    rw [assignSlot_of_le node none hNone, node.child_eq_none hNone, labelsIn_none, add_zero]

theorem labels_withItems {node : Node} (hList : node.kind.isList) (items : List Node) :
    (node.withItems items).labels = node.label ::ₘ (items.map labels).sum := by
  obtain ⟨kind, old, rfl⟩ := node.isList_kind.mp hList
  rw [labels_eq, label_withItems, slots_withItems, slots, List.map_nil, List.sum_nil, zero_add]
  rfl

theorem labels_of_isList {node : Node} (hList : node.kind.isList) :
    node.labels = node.label ::ₘ (node.items.map labels).sum := by
  rw [← labels_withItems hList, withItems_items]

theorem labels_pushItem {node : Node} (hList : node.kind.isList) (item : Node) :
    (node.pushItem item).labels = node.labels + item.labels := by
  rw [pushItem, labels_withItems hList, labels_of_isList hList, List.map_append, List.sum_append,
    List.map_singleton, List.sum_singleton, Multiset.cons_add]

theorem labels_insertItem {node : Node} (hList : node.kind.isList) {index : Nat}
    (h : index ≤ node.items.length) (item : Node) :
    (node.insertItem index item).labels = node.labels + item.labels := by
  have hSum := ((List.perm_insertIdx item node.items h).map labels).sum_eq
  rw [insertItem, labels_withItems hList, labels_of_isList hList, hSum, List.map_cons,
    List.sum_cons, Multiset.cons_add, add_comm item.labels]

theorem labels_removeItem {node item : Node} (hList : node.kind.isList) {index : Nat}
    (h : node.items[index]? = some item) :
    (node.removeItem index).labels + item.labels = node.labels := by
  obtain ⟨hBound, rfl⟩ := List.getElem?_eq_some_iff.mp h
  have hSum := ((List.getElem_cons_eraseIdx_perm hBound).map labels).sum_eq
  rw [removeItem, labels_withItems hList, labels_of_isList hList, ← hSum, List.map_cons,
    List.sum_cons, Multiset.cons_add, add_comm (labels _)]

theorem labels_popItem {node : Node} (hList : node.kind.isList) :
    node.popItem.2.labels + labelsIn node.popItem.1 = node.labels := by
  dsimp only [popItem]
  rw [labels_withItems hList, labels_of_isList hList, Multiset.cons_add]
  rcases List.eq_nil_or_concat' node.items with hItems | ⟨items, item, hItems⟩
  · rw [hItems, List.dropLast_nil, List.getLast?_nil, labelsIn_none, add_zero]
  · rw [hItems, List.dropLast_concat, List.getLast?_concat, List.map_append, List.sum_append,
      List.map_singleton, List.sum_singleton, labelsIn_some]

theorem labels_replaceStep {node old : Node} {index : Nat} (h : node.step? index = some old)
    (child : Node) :
    (node.replaceStep index child).labels + old.labels = node.labels + child.labels := by
  unfold step? at h
  unfold replaceStep
  split at h <;> rename_i hList
  · rw [if_pos hList, labels_withItems hList, labels_of_isList hList, Multiset.cons_add,
      Multiset.cons_add, sum_map_set labels h]
  · rw [if_neg hList]
    exact node.labels_assignSlot (Option.join_eq_some_iff.mp h) (some child)

theorem labels_replaceAt {path : Path} {node old : Node} (h : get? path node = some old)
    (child : Node) :
    (replaceAt path child node).labels + old.labels = node.labels + child.labels := by
  induction path generalizing node with
  | nil =>
    obtain rfl : node = old := Option.some.inj h
    exact add_comm _ _
  | cons index rest ih =>
    obtain ⟨next, hNext, hRest⟩ := Option.bind_eq_some_iff.mp h
    rw [replaceAt, hNext]
    have hStep := labels_replaceStep hNext (replaceAt rest child next)
    -- What is exchanged for the node one step down is what is exchanged below it.
    refine add_right_cancel (b := next.labels) ?_
    rw [add_right_comm, hStep, add_assoc, ih hRest, add_right_comm, ← add_assoc]

end Node
end PascalTree

import PascalTree.Node.Edit

/-! # Places in a tree

A path leads down from the root: at a list a number picks an item, at any other node a slot. A node
read at a path can be replaced there; all that lies beside the path stays.
-/
namespace PascalTree
set_option autoImplicit false

abbrev Path := List Nat

namespace Node

def step? (node : Node) (index : Nat) : Option Node :=
  if node.kind.isList then node.items[index]? else node.child index

def replaceStep (node : Node) (index : Nat) (child : Node) : Node :=
  if node.kind.isList then node.withItems (node.items.set index child)
  else node.assignSlot index (some child)

def get? : Path → Node → Option Node
  | [], node => some node
  | index :: rest, node => (node.step? index).bind (get? rest)

/-- Puts a node in the place of the one at the path; without a node there nothing changes. -/
def replaceAt : Path → Node → Node → Node
  | [], child, _ => child
  | index :: rest, child, node =>
    match node.step? index with
    | none => node
    | some next => node.replaceStep index (replaceAt rest child next)

@[simp] theorem get?_nil (node : Node) : get? [] node = some node := rfl

theorem get?_cons (index : Nat) (rest : Path) (node : Node) :
    get? (index :: rest) node = (node.step? index).bind (get? rest) := rfl

theorem get?_append (first second : Path) (node : Node) :
    get? (first ++ second) node = (get? first node).bind (get? second) := by
  induction first generalizing node with
  | nil => rfl
  | cons index rest ih =>
    rw [List.cons_append, get?_cons, get?_cons, Option.bind_assoc]
    exact congrArg _ (funext ih)

@[simp] theorem label_replaceStep (node : Node) (index : Nat) (child : Node) :
    (node.replaceStep index child).label = node.label := by
  unfold replaceStep
  split <;> simp

theorem kind_eq_of_label_eq {first second : Node} (h : first.label = second.label) :
    first.kind = second.kind :=
  congrArg Label.kind h

theorem step?_replaceStep_self (node : Node) {index : Nat} {old : Node} (child : Node)
    (h : node.step? index = some old) : (node.replaceStep index child).step? index = some child := by
  have hKind := kind_eq_of_label_eq (node.label_replaceStep index child)
  unfold step? at h ⊢
  rw [hKind]
  split at h <;> rename_i hList
  · have hBound := (List.getElem?_eq_some_iff.mp h).1
    simp [replaceStep, hList, items_withItems node _ hList, hBound]
  · have hBound : index < node.slots.length := by
      refine Nat.lt_of_not_le fun hLe => ?_
      rw [node.child_eq_none hLe] at h
      cases h
    simp [replaceStep, hList, node.child_assignSlot_self _ hBound]

theorem step?_replaceStep_ne (node : Node) {index other : Nat} (child : Node) (h : other ≠ index) :
    (node.replaceStep index child).step? other = node.step? other := by
  have hKind := kind_eq_of_label_eq (node.label_replaceStep index child)
  unfold step?
  rw [hKind]
  by_cases hList : node.kind.isList
  · simp [replaceStep, hList, items_withItems node _ hList, List.getElem?_set_ne h.symm]
  · simp [replaceStep, hList, node.child_assignSlot_ne _ h]

theorem get?_replaceAt_self (path : Path) (node : Node) {old : Node} (child : Node)
    (h : get? path node = some old) : get? path (replaceAt path child node) = some child := by
  induction path generalizing node with
  | nil => rfl
  | cons index rest ih =>
    rw [get?_cons] at h
    obtain ⟨next, hNext, hRest⟩ := Option.bind_eq_some_iff.mp h
    rw [replaceAt, hNext, get?_cons, step?_replaceStep_self node _ hNext]
    exact ih next hRest

end Node
end PascalTree

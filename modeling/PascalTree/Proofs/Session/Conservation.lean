import Mathlib.Logic.Relation
import PascalTree.Proofs.Node.Labels
import PascalTree.Proofs.Node.Teardown
import PascalTree.Proofs.Session.Outcome

/-! # Moving nodes loses and duplicates none

A move takes a child out of a place in one register into another register, or puts the tree of
another register into such a place. Every legal move is carried out and keeps the labels of all
trees together. So does every run of moves, and with the labels the totals of tearing all trees
down.
-/
namespace PascalTree
set_option autoImplicit false

namespace Registers

def trees (registers : Registers) : List Node := registers.filterMap Prod.snd

def labels (registers : Registers) : Multiset Label := (registers.trees.map Node.labels).sum

theorem labels_cons (entry : String × Option Node) (rest : Registers) :
    labels (entry :: rest) = Node.labelsIn entry.2 + rest.labels := by
  obtain ⟨name, tree⟩ := entry
  cases tree with
  | none => exact (zero_add _).symm
  | some tree => rfl

theorem labels_store (registers : Registers) (name : String) (content : Option Node) :
    (registers.store name content).labels + Node.labelsIn (registers.tree? name) =
      registers.labels + Node.labelsIn content := by
  induction registers with
  | nil =>
    rw [store, labels_cons, add_comm (Node.labelsIn content)]
    exact add_zero _
  | cons entry rest ih =>
    unfold store tree? content?
    split
    · rw [labels_cons, labels_cons, Option.join_some, add_right_comm, add_comm (Node.labelsIn _),
        add_right_comm, add_comm]
    · rw [labels_cons, labels_cons, add_assoc, add_assoc]
      exact congrArg _ ih

section
variable {registers : Registers} {name : String} {path : Path} {node : Node}

theorem labels_edit (h : registers.at? name path = some node) (edited : Node) :
    (registers.edit name path edited).labels + node.labels = registers.labels + edited.labels := by
  obtain ⟨tree, hTree, hNode⟩ := Option.bind_eq_some_iff.mp h
  have hStore := registers.labels_store name (some (Node.replaceAt path edited tree))
  rw [hTree, Node.labelsIn_some, Node.labelsIn_some] at hStore
  rw [edit, hTree, Option.map_some]
  refine add_right_cancel (b := tree.labels) ?_
  rw [add_right_comm, hStore, add_assoc, Node.labels_replaceAt hNode, add_comm tree.labels,
    add_assoc]

/-- What a node gives up is not lost when it goes to a register that was empty. -/
theorem labels_edit_store (h : registers.at? name path = some node) {destination : String}
    (hDestination : registers.tree? destination = none) {edited : Node} {content : Option Node}
    (hLabels : edited.labels + Node.labelsIn content = node.labels) :
    ((registers.edit name path edited).store destination content).labels = registers.labels := by
  have hEmpty : (registers.edit name path edited).tree? destination = none := by
    rw [edit, registers.tree?_store_ne _ (ne_of_at? h hDestination), hDestination]
  have hStore := (registers.edit name path edited).labels_store destination content
  rw [hEmpty, Node.labelsIn_none, add_zero] at hStore
  refine add_right_cancel (b := edited.labels) ?_
  rw [hStore, add_assoc, add_comm (Node.labelsIn content), hLabels, labels_edit h]

/-- What a node is given is not duplicated when the register that held it is emptied. -/
theorem labels_store_edit {source : String} {tree : Node}
    (hSource : registers.tree? source = some tree)
    (h : (registers.store source none).at? name path = some node) {edited : Node}
    (hLabels : edited.labels = node.labels + tree.labels) :
    ((registers.store source none).edit name path edited).labels = registers.labels := by
  have hStore := registers.labels_store source none
  rw [hSource, Node.labelsIn_some, Node.labelsIn_none, add_zero] at hStore
  refine add_right_cancel (b := node.labels) ?_
  rw [labels_edit h, hLabels, add_comm node.labels, ← add_assoc, hStore]

end
end Registers

/-- A move between a node, given by a register and a path into it, and a whole register. -/
inductive Move
  | take (name : String) (path : Path) (index : Nat) (destination : String)
  | remove (name : String) (path : Path) (index : Nat) (destination : String)
  | pop (name : String) (path : Path) (destination : String)
  | assign (name : String) (path : Path) (index : Nat) (source : String)
  | push (name : String) (path : Path) (source : String)
  | insert (name : String) (path : Path) (index : Nat) (source : String)

namespace Move

/-- Carries the move out and returns the node as it is afterwards. -/
def act : Move → Action Node
  | take name path index destination => do
    let (_, node) ← Action.take name path index destination
    pure node
  | remove name path index destination => Action.remove name path index destination
  | pop name path destination => do
    let (_, node) ← Action.pop name path destination
    pure node
  | assign name path index source => do Action.put name path index (← Action.moveOut source)
  | push name path source => do Action.push name path (← Action.moveTree source)
  | insert name path index source => do Action.insert name path index (← Action.moveTree source)

/-- The node is there and admits the move. A destination is empty, and a source is another register
than the edited one and holds a tree. -/
def Legal (registers : Registers) : Move → Prop
  | take name path _ destination =>
    (∃ node, registers.at? name path = some node) ∧ registers.tree? destination = none
  | remove name path index destination =>
    (∃ node, registers.at? name path = some node ∧ node.kind.isList ∧ index < node.items.length) ∧
      registers.tree? destination = none
  | pop name path destination =>
    (∃ node, registers.at? name path = some node ∧ node.kind.isList) ∧
      registers.tree? destination = none
  | assign name path index source =>
    (∃ node, registers.at? name path = some node ∧ node.slots[index]? = some none) ∧
      source ≠ name ∧ ∃ tree, registers.tree? source = some tree
  | push name path source =>
    (∃ node, registers.at? name path = some node ∧ node.kind.isList) ∧
      source ≠ name ∧ ∃ tree, registers.tree? source = some tree
  | insert name path index source =>
    (∃ node, registers.at? name path = some node ∧ node.kind.isList ∧
        index ≤ node.items.length) ∧
      source ≠ name ∧ ∃ tree, registers.tree? source = some tree

def Step (session next : Session) : Prop :=
  ∃ (move : Move) (node : Node), move.Legal session.registers ∧ move.act.Gives session node next

theorem exists_gives {move : Move} {session : Session} (hLegal : move.Legal session.registers) :
    ∃ node next, Action.Gives move.act session node next ∧
      next.registers.labels = session.registers.labels := by
  cases move with
  | take name path index destination =>
    obtain ⟨⟨node, hNode⟩, hDestination⟩ := hLegal
    exact ⟨_, _, (Action.gives_take hNode index destination).bind (Action.gives_pure _),
      Registers.labels_edit_store hNode hDestination (node.labels_takeChild index)⟩
  | remove name path index destination =>
    obtain ⟨⟨node, hNode, hList, hIndex⟩, hDestination⟩ := hLegal
    have hItem := List.getElem?_eq_getElem hIndex
    exact ⟨_, _, Action.gives_remove hNode hList hItem destination,
      Registers.labels_edit_store hNode hDestination (Node.labels_removeItem hList hItem)⟩
  | pop name path destination =>
    obtain ⟨⟨node, hNode, hList⟩, hDestination⟩ := hLegal
    exact ⟨_, _, (Action.gives_pop hNode hList destination).bind (Action.gives_pure _),
      Registers.labels_edit_store hNode hDestination (Node.labels_popItem hList)⟩
  | assign name path index source =>
    obtain ⟨⟨node, hNode, hSlot⟩, hName, tree, hSource⟩ := hLegal
    have hIndex := (List.getElem?_eq_some_iff.mp hSlot).1
    rw [← session.registers.at?_store_ne none path hName.symm] at hNode
    have hLabels := node.labels_assignSlot hSlot (some tree)
    rw [Node.labelsIn_none, add_zero] at hLabels
    exact ⟨_, _, (Action.gives_moveOut hSource).bind (Action.gives_put hNode hIndex _),
      Registers.labels_store_edit hSource hNode hLabels⟩
  | push name path source =>
    obtain ⟨⟨node, hNode, hList⟩, hName, tree, hSource⟩ := hLegal
    rw [← session.registers.at?_store_ne none path hName.symm] at hNode
    exact ⟨_, _, (Action.gives_moveTree hSource).bind (Action.gives_push hNode hList tree),
      Registers.labels_store_edit hSource hNode (Node.labels_pushItem hList tree)⟩
  | insert name path index source =>
    obtain ⟨⟨node, hNode, hList, hIndex⟩, hName, tree, hSource⟩ := hLegal
    rw [← session.registers.at?_store_ne none path hName.symm] at hNode
    exact ⟨_, _, (Action.gives_moveTree hSource).bind (Action.gives_insert hNode hList hIndex tree),
      Registers.labels_store_edit hSource hNode (Node.labels_insertItem hList hIndex tree)⟩

theorem Step.labels_eq {session next : Session} (hStep : Step session next) :
    next.registers.labels = session.registers.labels := by
  obtain ⟨move, node, hLegal, hGives⟩ := hStep
  obtain ⟨other, final, hFinal, hLabels⟩ := exists_gives hLegal
  rw [hGives.next_unique hFinal, hLabels]

theorem labels_eq_of_run {start session : Session}
    (hRun : Relation.ReflTransGen Step start session) :
    session.registers.labels = start.registers.labels := by
  induction hRun with
  | refl => rfl
  | tail _ hStep ih => rw [hStep.labels_eq, ih]

end Move

/-- Destroys the trees one after the other and adds up what is released. -/
def destroyAll (order : List Node) : Except Fault Released :=
  Released.addAll .zero (order.map fun tree => Node.destroy (some tree))

theorem destroyAll_eq_checked {registers : Registers} {order : List Node}
    (hOrder : order.Perm registers.trees) :
    destroyAll order = Released.checked
      ⟨registers.labels.card, registers.labels.countP (·.kind.ownsText)⟩ := by
  have hLabels : registers.labels = (order.flatMap Node.preorder : Multiset Label) := by
    rw [Node.coe_flatMap_preorder, Registers.labels, (hOrder.map Node.labels).sum_eq]
  have hParts : order.map (fun tree => Node.destroy (some tree)) =
      (order.map Node.preorder).map fun labels => Released.checked (.ofLabels labels) := by
    rw [List.map_map]
    exact List.map_congr_left fun tree _ => tree.release_eq_checked
  have hTotal := @Released.addAll_checked [] (by decide) (order.map Node.preorder)
  rw [List.nil_append, ← List.flatMap_def, ← hParts] at hTotal
  simp only [hLabels, Multiset.coe_card, Multiset.coe_countP, Bool.decide_eq_true]
  exact hTotal

/-- Wherever legal moves have led, every legal move is carried out, the registers hold the labels
they held at the start, and destroying all trees in any order gives the total that it would have
given then. It overflows only if the exact total does. -/
theorem labels_destroyAll_of_run {start session : Session}
    (hRun : Relation.ReflTransGen Move.Step start session) :
    (∀ move : Move, move.Legal session.registers → ∃ node next, move.act.Gives session node next) ∧
      session.registers.labels = start.registers.labels ∧
      ∀ first last : List Node,
        first.Perm start.registers.trees → last.Perm session.registers.trees →
          destroyAll last = destroyAll first ∧
          destroyAll last = Released.checked ⟨start.registers.labels.card,
            start.registers.labels.countP (·.kind.ownsText)⟩ := by
  have hLabels := Move.labels_eq_of_run hRun
  refine ⟨?_, hLabels, ?_⟩
  · intro move hLegal
    obtain ⟨node, next, hGives, -⟩ := Move.exists_gives hLegal
    exact ⟨node, next, hGives⟩
  · intro first last hFirst hLast
    have hTotal := destroyAll_eq_checked hLast
    rw [hLabels] at hTotal
    exact ⟨hTotal.trans (destroyAll_eq_checked hFirst).symm, hTotal⟩

/-- One move of each kind, by which the two arguments of a call change places. -/
theorem labels_destroyAll_of_run_swap :
    ∃ start finish : Session,
      start.registers.trees =
        [Build.write (Build.expressionList [Build.identifier "a", Build.string "'b'"])] ∧
      finish.registers.trees =
        [Build.write (Build.expressionList [Build.string "'b'", Build.identifier "a"])] ∧
      Relation.ReflTransGen Move.Step start finish ∧
      finish.registers.labels = start.registers.labels ∧
      destroyAll finish.registers.trees = destroyAll start.registers.trees ∧
      destroyAll finish.registers.trees = .ok ⟨4, 2⟩ := by
  let a := Build.identifier "a"
  let b := Build.string "'b'"
  let call (items : List Node) := Build.write (Build.expressionList items)
  have hRemove : Move.Step ⟨[("call", call [a, b])], []⟩
      ⟨[("call", call [b]), ("first", a)], []⟩ :=
    ⟨.remove "call" [0] 0 "first", _, ⟨⟨_, rfl, rfl, by decide⟩, rfl⟩, rfl⟩
  have hPop : Move.Step ⟨[("call", call [b]), ("first", a)], []⟩
      ⟨[("call", call []), ("first", a), ("second", b)], []⟩ :=
    ⟨.pop "call" [0] "second", _, ⟨⟨_, rfl, rfl⟩, rfl⟩, rfl⟩
  have hTake : Move.Step ⟨[("call", call []), ("first", a), ("second", b)], []⟩
      ⟨[("call", Node.create .write), ("first", a), ("second", b),
        ("list", Build.expressionList [])], []⟩ :=
    ⟨.take "call" [] 0 "list", _, ⟨⟨_, rfl⟩, rfl⟩, rfl⟩
  have hPush : Move.Step
      ⟨[("call", Node.create .write), ("first", a), ("second", b),
        ("list", Build.expressionList [])], []⟩
      ⟨[("call", Node.create .write), ("first", a), ("second", none),
        ("list", Build.expressionList [b])], []⟩ :=
    ⟨.push "list" [] "second", _, ⟨⟨_, rfl, rfl⟩, by decide, _, rfl⟩, rfl⟩
  have hAssign : Move.Step
      ⟨[("call", Node.create .write), ("first", a), ("second", none),
        ("list", Build.expressionList [b])], []⟩
      ⟨[("call", call [b]), ("first", a), ("second", none), ("list", none)], []⟩ :=
    ⟨.assign "call" [] 0 "list", _, ⟨⟨_, rfl, rfl⟩, by decide, _, rfl⟩, rfl⟩
  have hInsert : Move.Step
      ⟨[("call", call [b]), ("first", a), ("second", none), ("list", none)], []⟩
      ⟨[("call", call [b, a]), ("first", none), ("second", none), ("list", none)], []⟩ :=
    ⟨.insert "call" [0] 1 "first", _, ⟨⟨_, rfl, rfl, by decide⟩, by decide, _, rfl⟩, rfl⟩
  have hRun : Relation.ReflTransGen Move.Step ⟨[("call", call [a, b])], []⟩
      ⟨[("call", call [b, a]), ("first", none), ("second", none), ("list", none)], []⟩ :=
    .head hRemove (.head hPop (.head hTake (.head hPush (.head hAssign (.single hInsert)))))
  obtain ⟨-, hLabels, hTotal⟩ := labels_destroyAll_of_run hRun
  obtain ⟨hSame, hExact⟩ := hTotal _ _ (.refl _) (.refl _)
  exact ⟨_, _, rfl, rfl, hRun, hLabels, hSame, hExact.trans rfl⟩

end PascalTree

import PascalTree.Session

/-! # What an action leads to

An action that is not refused gives a value and leads to a next session. Outcomes of a sequence are
composed by `Gives.bind`, and each action that edits a place has one statement: what it needs to
find there, what it gives, and which registers it leaves.
-/
namespace PascalTree
set_option autoImplicit false

namespace Registers

def tree? (registers : Registers) (name : String) : Option Node := (registers.content? name).join

/-- The node at a path into a register. -/
def at? (registers : Registers) (name : String) (path : Path) : Option Node :=
  (registers.tree? name).bind (Node.get? path)

/-- Puts a node in the place of the one at a path into a register. -/
def edit (registers : Registers) (name : String) (path : Path) (node : Node) : Registers :=
  registers.store name ((registers.tree? name).map (Node.replaceAt path node))

theorem content?_of_tree? {registers : Registers} {name : String} {tree : Node}
    (h : registers.tree? name = some tree) : registers.content? name = some (some tree) :=
  Option.join_eq_some_iff.mp h

theorem tree?_store_ne (registers : Registers) {name other : String} (content : Option Node)
    (h : other ≠ name) : (registers.store name content).tree? other = registers.tree? other :=
  congrArg Option.join (registers.content?_store_ne content h)

theorem at?_store_ne (registers : Registers) {name other : String} (content : Option Node)
    (path : Path) (h : other ≠ name) :
    (registers.store name content).at? other path = registers.at? other path := by
  rw [at?, registers.tree?_store_ne content h, at?]

/-- A register that holds nothing has no places. -/
theorem ne_of_at? {registers : Registers} {name other : String} {path : Path} {node : Node}
    (h : registers.at? name path = some node) (hOther : registers.tree? other = none) :
    other ≠ name := by
  rintro rfl
  rw [at?, hOther] at h
  cases h

end Registers

/-- The session with other registers and the same log. -/
def Session.holding (session : Session) (registers : Registers) : Session :=
  { session with registers }

namespace Action

variable {α β : Type} {session next : Session} {name : String} {path : Path} {node : Node}

def Gives (action : Action α) (session : Session) (value : α) (next : Session) : Prop :=
  StateT.run (ExceptT.run action) session = (.ok value, next)

theorem gives_pure (value : α) : Gives (pure value) session value session := rfl

theorem Gives.next_unique {action : Action α} {value other : α} {final : Session}
    (hNext : Gives action session value next) (hFinal : Gives action session other final) :
    next = final :=
  (Prod.mk.inj (hNext.symm.trans hFinal)).2

theorem Gives.bind {action : Action α} {rest : α → Action β} {value : α} {result : β}
    {final : Session} (hFirst : Gives action session value next)
    (hRest : Gives (rest value) next result final) :
    Gives (action >>= rest) session result final := by
  unfold Gives at hFirst hRest ⊢
  rw [ExceptT.run_bind, StateT.run_bind, hFirst]
  exact hRest

theorem gives_store (name : String) (content : Option Node) :
    Gives (store name content) session ()
      (session.holding (session.registers.store name content)) := rfl

theorem gives_content {content : Option Node} (h : session.registers.content? name = some content) :
    Gives (Action.content name) session content session := by
  refine Gives.bind rfl ?_
  rw [h]
  rfl

theorem gives_moveOut {tree : Node} (h : session.registers.tree? name = some tree) :
    Gives (moveOut name) session (some tree)
      (session.holding (session.registers.store name none)) :=
  (gives_content (Registers.content?_of_tree? h)).bind ((gives_store name none).bind (gives_pure _))

/-- Takes a tree out of a register that has to hold one. -/
def moveTree (name : String) : Action Node := do
  match ← moveOut name with
  | some tree => pure tree
  | none => throw .noNode

theorem gives_moveTree {tree : Node} (h : session.registers.tree? name = some tree) :
    Gives (moveTree name) session tree (session.holding (session.registers.store name none)) :=
  (gives_moveOut h).bind (gives_pure tree)

theorem gives_locate (h : session.registers.at? name path = some node) :
    Gives (locate name path) session (some node) session := by
  obtain ⟨tree, hTree, hNode⟩ := Option.bind_eq_some_iff.mp h
  refine (gives_content (Registers.content?_of_tree? hTree)).bind ?_
  rw [Option.bind_some, hNode]
  exact gives_pure _

theorem gives_target (h : session.registers.at? name path = some node) :
    Gives (target name path) session node session :=
  (gives_locate h).bind (gives_pure node)

theorem gives_targetList (h : session.registers.at? name path = some node)
    (hList : node.kind.isList) : Gives (targetList name path) session node session := by
  refine (gives_target h).bind ?_
  rw [if_pos hList]
  exact gives_pure node

theorem gives_sourceList (h : session.registers.at? name path = some node)
    (hList : node.kind.isList) (destination : String) :
    Gives (sourceList name path destination) session node session := by
  refine (gives_locate h).bind ?_
  dsimp only
  rw [if_pos hList]
  exact gives_pure node

theorem gives_replace (h : session.registers.at? name path = some node) (edited : Node) :
    Gives (replace name path edited) session ()
      (session.holding (session.registers.edit name path edited)) := by
  obtain ⟨tree, hTree, -⟩ := Option.bind_eq_some_iff.mp h
  refine (gives_content (Registers.content?_of_tree? hTree)).bind ?_
  rw [Registers.edit, hTree]
  exact gives_store name _

theorem gives_take (h : session.registers.at? name path = some node) (index : Nat)
    (destination : String) :
    Gives (take name path index destination) session (node.takeChild index)
      (session.holding ((session.registers.edit name path (node.takeChild index).2).store
        destination (node.takeChild index).1)) :=
  (gives_target h).bind ((gives_replace h _).bind ((gives_store destination _).bind
    (gives_pure _)))

theorem gives_remove (h : session.registers.at? name path = some node)
    (hList : node.kind.isList) {index : Nat} {item : Node} (hItem : node.items[index]? = some item)
    (destination : String) :
    Gives (remove name path index destination) session (node.removeItem index)
      (session.holding ((session.registers.edit name path (node.removeItem index)).store
        destination (some item))) := by
  refine (gives_sourceList h hList destination).bind ?_
  rw [hItem]
  exact (gives_replace h _).bind ((gives_store destination _).bind (gives_pure _))

theorem gives_pop (h : session.registers.at? name path = some node) (hList : node.kind.isList)
    (destination : String) :
    Gives (pop name path destination) session node.popItem
      (session.holding ((session.registers.edit name path node.popItem.2).store destination
        node.popItem.1)) :=
  (gives_sourceList h hList destination).bind ((gives_replace h _).bind
    ((gives_store destination _).bind (gives_pure _)))

theorem gives_put (h : session.registers.at? name path = some node) {index : Nat}
    (hIndex : index < node.slots.length) (content : Option Node) :
    Gives (put name path index content) session (node.assignSlot index content)
      (session.holding (session.registers.edit name path (node.assignSlot index content))) := by
  refine (gives_target h).bind ?_
  rw [if_pos hIndex]
  exact (gives_replace h _).bind (gives_pure _)

theorem gives_push (h : session.registers.at? name path = some node) (hList : node.kind.isList)
    (item : Node) :
    Gives (push name path item) session (node.pushItem item)
      (session.holding (session.registers.edit name path (node.pushItem item))) :=
  (gives_targetList h hList).bind ((gives_replace h _).bind (gives_pure _))

theorem gives_insert (h : session.registers.at? name path = some node) (hList : node.kind.isList)
    {index : Nat} (hIndex : index ≤ node.items.length) (item : Node) :
    Gives (insert name path index item) session (node.insertItem index item)
      (session.holding (session.registers.edit name path (node.insertItem index item))) := by
  refine (gives_targetList h hList).bind ?_
  rw [if_pos hIndex]
  exact (gives_replace h _).bind (gives_pure _)

end Action
end PascalTree

import PascalTree.Event
import PascalTree.Node.Path
import PascalTree.Sink

/-! # Editing sessions

A session keeps trees in named registers and moves them between registers, slots and lists. Every
tree has one owner: what is moved out of a place is no longer there. An action that is refused keeps
what it had already done, and the log keeps what was reported.
-/
namespace PascalTree
set_option autoImplicit false

abbrev Registers := List (String × Option Node)

namespace Registers

/-- The content of a register; there is none before something was stored in it. -/
def content? (name : String) : Registers → Option (Option Node)
  | [] => none
  | entry :: rest => if name = entry.1 then some entry.2 else content? name rest

def store (name : String) (content : Option Node) : Registers → Registers
  | [] => [(name, content)]
  | entry :: rest =>
    if name = entry.1 then (name, content) :: rest else entry :: store name content rest

theorem content?_store_self (registers : Registers) (name : String) (content : Option Node) :
    (registers.store name content).content? name = some content := by
  induction registers with
  | nil => simp [store, content?]
  | cons entry rest ih =>
    unfold store
    split
    · simp [content?]
    · simp_all [content?]

theorem content?_store_ne (registers : Registers) {name other : String} (content : Option Node)
    (h : other ≠ name) :
    (registers.store name content).content? other = registers.content? other := by
  induction registers with
  | nil => simp [store, content?, h]
  | cons entry rest ih =>
    unfold store
    split
    · simp_all [content?]
    · simp [content?, ih]

end Registers

inductive Refusal
  | noRegister
  /-- The register or a place on the path is empty. -/
  | noNode
  | noSlot
  | notAList
  /-- The payload does not belong to the kind of the node. -/
  | noPayload
  | fault (fault : Fault)
  deriving DecidableEq

structure Session where
  registers : Registers := []
  log : List Event := []

abbrev Action := ExceptT Refusal (StateM Session)

namespace Action

def report (event : Event) : Action Unit :=
  modify fun session => { session with log := session.log ++ [event] }

def store (name : String) (content : Option Node) : Action Unit :=
  modify fun session => { session with registers := session.registers.store name content }

def content (name : String) : Action (Option Node) := do
  match (← get).registers.content? name with
  | some content => pure content
  | none => throw .noRegister

def lift {α : Type} : Except Fault α → Action α
  | .ok value => pure value
  | .error fault => throw (.fault fault)

/-- Takes the tree out of a register, leaving it empty. -/
def moveOut (name : String) : Action (Option Node) := do
  let tree ← content name
  store name none
  pure tree

def locate (name : String) (path : Path) : Action (Option Node) := do
  pure ((← content name).bind (Node.get? path))

def target (name : String) (path : Path) : Action Node := do
  match ← locate name path with
  | some node => pure node
  | none => throw .noNode

def targetList (name : String) (path : Path) : Action Node := do
  let node ← target name path
  if node.kind.isList then pure node else throw .notAList

def replace (name : String) (path : Path) (node : Node) : Action Unit := do
  store name ((← content name).map (Node.replaceAt path node))

/-- Assigns a slot of the target, which is returned as it is afterwards. -/
def put (name : String) (path : Path) (index : Nat) (content : Option Node) : Action Node := do
  let node ← target name path
  if index < node.slots.length then
    let edited := node.assignSlot index content
    replace name path edited
    pure edited
  else throw .noSlot

/-- Moves the content of a slot to a register. Returns it with the target as it is afterwards. -/
def take (name : String) (path : Path) (index : Nat) (destination : String) :
    Action (Option Node × Node) := do
  let node ← target name path
  let (child, edited) := node.takeChild index
  replace name path edited
  store destination child
  pure (child, edited)

def push (name : String) (path : Path) (item : Node) : Action Node := do
  let node ← targetList name path
  let edited := node.pushItem item
  replace name path edited
  pure edited

def insert (name : String) (path : Path) (index : Nat) (item : Node) : Action Node := do
  let node ← targetList name path
  if index ≤ node.items.length then
    let edited := node.insertItem index item
    replace name path edited
    pure edited
  else throw (.fault .insertionIndex)

/-- The target, which has to be a list. Otherwise the destination register is left empty. -/
def sourceList (name : String) (path : Path) (destination : String) : Action Node := do
  let node? ← locate name path
  match node? with
  | none => do
    store destination none
    throw .noNode
  | some node =>
    if node.kind.isList then pure node
    else do
      store destination none
      throw .notAList

def remove (name : String) (path : Path) (index : Nat) (destination : String) : Action Node := do
  let node ← sourceList name path destination
  match node.items[index]? with
  | none => throw (.fault .removalIndex)
  | some item => do
    let edited := node.removeItem index
    replace name path edited
    store destination (some item)
    pure edited

def pop (name : String) (path : Path) (destination : String) : Action (Option Node × Node) := do
  let node ← sourceList name path destination
  let (item, edited) := node.popItem
  replace name path edited
  store destination item
  pure (item, edited)

def clear (name : String) (path : Path) : Action Node := do
  let node ← targetList name path
  let edited := node.clearItems
  replace name path edited
  pure edited

def setPayload (name : String) (path : Path) (payload : Payload) : Action Node := do
  let node ← target name path
  match node.withPayload? payload with
  | none => throw .noPayload
  | some edited => do
    replace name path edited
    pure edited

def render (style : Style) (tree : Option Node) : Action String := do
  let output ← lift (PascalTree.render style tree)
  report (.rendered (tree.map Node.kind) output.utf8ByteSize)
  pure output

/-- The rendering is reported before the sink is offered any of it. -/
def renderTo {σ : Type} (sink : Sink σ) (state : σ) (style : Style) (tree : Option Node) :
    Action (Delivery σ) := do
  let output ← render style tree
  pure (sink.deliverText state output)

/-- Only the destruction of a tree that is there is reported. -/
def destroy (tree : Option Node) : Action Released := do
  let released ← lift (Node.destroy tree)
  match tree with
  | none => pure ()
  | some node => report (.destroyed node.kind released)
  pure released

end Action
end PascalTree

import PascalTree.Kind
import PascalTree.Symbol
import PascalTree.Binary64.Literal

/-! # Trees

A node has a kind, child slots that may be empty, items if it is a list, and a payload if it is a
leaf. `slots` and `items` read all children in one way for every kind, `withSlots` and `withItems`
write them back; the laws at the end say that reading and writing agree.
-/
namespace PascalTree
set_option autoImplicit false

inductive Payload
  | identifier (name : String)
  | string (text : String)
  | simpleType (name : TypeName)
  | direction (way : Direction)
  | operator (sign : Operator)
  | integer (value : Int64)
  | real (value : Binary64)
  | boolean (value : Bool)
  deriving DecidableEq

namespace Payload

def kind : Payload → Kind
  | identifier _ => .identifier
  | string _ => .string
  | simpleType _ => .simpleType
  | direction _ => .direction
  | operator _ => .operator
  | integer _ => .integer
  | real _ => .real
  | boolean _ => .boolean

def text : Payload → Option String
  | identifier name => some name
  | string text => some text
  | _ => none

def spelling : Payload → String
  | identifier name => name
  | string text => text
  | simpleType name => name.keyword
  | direction way => way.keyword
  | operator sign => sign.symbol
  | integer value => toString value.toInt
  | real value => value.literal
  | boolean value => if value then "true" else "false"

theorem text_isSome (payload : Payload) : payload.text.isSome = payload.kind.ownsText := by
  cases payload <;> rfl

end Payload

inductive ListKind
  | varSection
  | identifierList
  | statementList
  | expressionList
  deriving DecidableEq

def ListKind.kind : ListKind → Kind
  | varSection => .varSection
  | identifierList => .identifierList
  | statementList => .statementList
  | expressionList => .expressionList

inductive Routine
  | read
  | write
  deriving DecidableEq

namespace Routine

def kind : Routine → Kind
  | read => .read
  | write => .write

def keyword : Routine → String
  | read => "read"
  | write => "write"

end Routine

inductive UnaryForm
  | not
  | negate
  | group
  deriving DecidableEq

def UnaryForm.kind : UnaryForm → Kind
  | not => .not
  | negate => .negate
  | group => .group

inductive Node
  | leaf (payload : Payload)
  | list (kind : ListKind) (items : List Node)
  | program (declarations body : Option Node)
  | declaration (identifiers typing : Option Node)
  | type (lower upper element : Option Node)
  | compound (statements : Option Node)
  | call (routine : Routine) (argument : Option Node)
  | assign (target position value : Option Node)
  | conditional (condition consequent otherwise : Option Node)
  | whileLoop (condition body : Option Node)
  | forLoop (counter start direction stop body : Option Node)
  | expression (left operator right : Option Node)
  | subscript (identifier index : Option Node)
  | unary (form : UnaryForm) (operand : Option Node)

/-- All of a node but its children. -/
structure Label where
  kind : Kind
  payload : Option Payload
  deriving DecidableEq

namespace Node

instance : Inhabited Node := ⟨.compound none⟩

def kind : Node → Kind
  | leaf payload => payload.kind
  | list kind _ => kind.kind
  | program .. => .program
  | declaration .. => .declaration
  | type .. => .type
  | compound .. => .compound
  | call routine _ => routine.kind
  | assign .. => .assign
  | conditional .. => .conditional
  | whileLoop .. => .whileLoop
  | forLoop .. => .forLoop
  | expression .. => .expression
  | subscript .. => .subscript
  | unary form _ => form.kind

def payload : Node → Option Payload
  | leaf payload => some payload
  | _ => none

def label (node : Node) : Label := ⟨node.kind, node.payload⟩

def text (node : Node) : Option String := node.payload.bind Payload.text

def slots : Node → List (Option Node)
  | leaf _ | list .. => []
  | program declarations body => [declarations, body]
  | declaration identifiers typing => [identifiers, typing]
  | type lower upper element => [lower, upper, element]
  | compound statements => [statements]
  | call _ argument => [argument]
  | assign target position value => [target, position, value]
  | conditional condition consequent otherwise => [condition, consequent, otherwise]
  | whileLoop condition body => [condition, body]
  | forLoop counter start direction stop body => [counter, start, direction, stop, body]
  | expression left operator right => [left, operator, right]
  | subscript identifier index => [identifier, index]
  | unary _ operand => [operand]

def child (node : Node) (index : Nat) : Option Node := node.slots[index]?.join

/-- The same node with the content of every slot given by its index. -/
def withSlots (content : Nat → Option Node) : Node → Node
  | leaf payload => leaf payload
  | list kind items => list kind items
  | program .. => program (content 0) (content 1)
  | declaration .. => declaration (content 0) (content 1)
  | type .. => type (content 0) (content 1) (content 2)
  | compound .. => compound (content 0)
  | call routine _ => call routine (content 0)
  | assign .. => assign (content 0) (content 1) (content 2)
  | conditional .. => conditional (content 0) (content 1) (content 2)
  | whileLoop .. => whileLoop (content 0) (content 1)
  | forLoop .. => forLoop (content 0) (content 1) (content 2) (content 3) (content 4)
  | expression .. => expression (content 0) (content 1) (content 2)
  | subscript .. => subscript (content 0) (content 1)
  | unary form _ => unary form (content 0)

def items : Node → List Node
  | list _ items => items
  | _ => []

/-- The same list with other items; a node that is no list is left alone. -/
def withItems : Node → List Node → Node
  | list kind _, items => list kind items
  | node, _ => node

/-- An array type has a lower bound. -/
def isArray : Node → Bool
  | type (some _) _ _ => true
  | _ => false

/-- A node of the given kind with empty slots, no items and the default payload. -/
def create : Kind → Node
  | .program => program none none
  | .varSection => list .varSection []
  | .declaration => declaration none none
  | .identifierList => list .identifierList []
  | .identifier => leaf (.identifier "")
  | .type => type none none none
  | .simpleType => leaf (.simpleType default)
  | .compound => compound none
  | .statementList => list .statementList []
  | .read => call .read none
  | .write => call .write none
  | .assign => assign none none none
  | .conditional => conditional none none none
  | .whileLoop => whileLoop none none
  | .forLoop => forLoop none none none none none
  | .direction => leaf (.direction default)
  | .expression => expression none none none
  | .expressionList => list .expressionList []
  | .operator => leaf (.operator default)
  | .subscript => subscript none none
  | .not => unary .not none
  | .negate => unary .negate none
  | .group => unary .group none
  | .string => leaf (.string "")
  | .integer => leaf (.integer 0)
  | .real => leaf (.real default)
  | .boolean => leaf (.boolean false)

theorem length_slots (node : Node) : node.slots.length = node.kind.arity := by
  cases node with
  | leaf payload => cases payload <;> rfl
  | list kind => cases kind <;> rfl
  | call routine => cases routine <;> rfl
  | unary form => cases form <;> rfl
  | _ => rfl

theorem isList_kind (node : Node) : node.kind.isList ↔ ∃ kind items, node = list kind items := by
  cases node with
  | leaf payload => cases payload <;> simp [Node.kind, Payload.kind, Kind.isList]
  | list kind => cases kind <;> simp [Node.kind, ListKind.kind, Kind.isList]
  | call routine => cases routine <;> simp [Node.kind, Routine.kind, Kind.isList]
  | unary form => cases form <;> simp [Node.kind, UnaryForm.kind, Kind.isList]
  | _ => simp [Node.kind, Kind.isList]

theorem slots_withSlots (node : Node) (content : Nat → Option Node) :
    (node.withSlots content).slots = (List.range node.slots.length).map content := by
  cases node <;> rfl

@[simp] theorem withSlots_child (node : Node) : node.withSlots node.child = node := by
  cases node <;> rfl

@[simp] theorem withSlots_withSlots (node : Node) (first second : Nat → Option Node) :
    (node.withSlots first).withSlots second = node.withSlots second := by
  cases node <;> rfl

theorem child_withSlots (node : Node) (content : Nat → Option Node) {index : Nat}
    (h : index < node.slots.length) : (node.withSlots content).child index = content index := by
  simp [child, slots_withSlots, h]

theorem child_eq_none (node : Node) {index : Nat} (h : node.slots.length ≤ index) :
    node.child index = none := by
  simp [child, h]

theorem withSlots_congr (node : Node) {first second : Nat → Option Node}
    (h : ∀ index < node.slots.length, first index = second index) :
    node.withSlots first = node.withSlots second := by
  cases node <;> simp [slots] at h <;> simp [withSlots, h]

@[simp] theorem label_withSlots (node : Node) (content : Nat → Option Node) :
    (node.withSlots content).label = node.label := by
  cases node <;> rfl

@[simp] theorem items_withSlots (node : Node) (content : Nat → Option Node) :
    (node.withSlots content).items = node.items := by
  cases node <;> rfl

theorem items_withItems (node : Node) (items : List Node) (h : node.kind.isList) :
    (node.withItems items).items = items := by
  obtain ⟨kind, old, rfl⟩ := node.isList_kind.mp h
  rfl

@[simp] theorem withItems_items (node : Node) : node.withItems node.items = node := by
  cases node <;> rfl

@[simp] theorem label_withItems (node : Node) (items : List Node) :
    (node.withItems items).label = node.label := by
  cases node <;> rfl

@[simp] theorem slots_withItems (node : Node) (items : List Node) :
    (node.withItems items).slots = node.slots := by
  cases node <;> rfl

@[simp] theorem kind_create (kind : Kind) : (create kind).kind = kind := by cases kind <;> rfl

theorem slots_create (kind : Kind) : (create kind).slots = List.replicate kind.arity none := by
  cases kind <;> rfl

@[simp] theorem items_create (kind : Kind) : (create kind).items = [] := by cases kind <;> rfl

theorem text_isSome (node : Node) : node.text.isSome = node.kind.ownsText := by
  cases node with
  | leaf payload => exact payload.text_isSome
  | list kind => cases kind <;> rfl
  | call routine => cases routine <;> rfl
  | unary form => cases form <;> rfl
  | _ => rfl

end Node
end PascalTree

/-! # The kinds of node of a small Pascal tree

Each grammar production is one kind. A kind fixes the named child slots of its nodes, whether they
hold an ordered list of items, and whether they own a text.
-/
namespace PascalTree
set_option autoImplicit false

inductive Kind
  | program
  | varSection
  | declaration
  | identifierList
  | identifier
  | type
  | simpleType
  | compound
  | statementList
  | read
  | write
  | assign
  | conditional
  | whileLoop
  | forLoop
  | direction
  | expression
  | expressionList
  | operator
  | subscript
  | not
  | negate
  | group
  | string
  | integer
  | real
  | boolean
  deriving DecidableEq, Repr, Inhabited

namespace Kind

def all : List Kind :=
  [.program, .varSection, .declaration, .identifierList, .identifier, .type, .simpleType, .compound,
    .statementList, .read, .write, .assign, .conditional, .whileLoop, .forLoop, .direction,
    .expression, .expressionList, .operator, .subscript, .not, .negate, .group, .string, .integer,
    .real, .boolean]

theorem mem_all (kind : Kind) : kind ∈ all := by cases kind <;> decide

theorem nodup_all : all.Nodup := by decide

/-- The name under which tree views and log lines show the kind. -/
def name : Kind → String
  | program => "Program"
  | varSection => "Var Section"
  | declaration => "Declaration"
  | identifierList => "Identifier List"
  | identifier => "Identifier"
  | type => "Type"
  | simpleType => "Simple Type"
  | compound => "Compound"
  | statementList => "Statement List"
  | read => "Read"
  | write => "Write"
  | assign => "Assign"
  | conditional => "If"
  | whileLoop => "While"
  | forLoop => "For"
  | direction => "Direction"
  | expression => "Expression"
  | expressionList => "Expression List"
  | operator => "Operator"
  | subscript => "Subscript"
  | not => "Not"
  | negate => "Negate"
  | group => "Group"
  | string => "String"
  | integer => "Integer"
  | real => "Real"
  | boolean => "Boolean"

def slotNames : Kind → List String
  | program => ["Declarations", "Body"]
  | declaration => ["Identifiers", "Type"]
  | type => ["Lower", "Upper", "Element"]
  | compound => ["Statements"]
  | read | write => ["Argument"]
  | assign => ["Target", "Subscript", "Value"]
  | conditional => ["Condition", "Then", "Otherwise"]
  | whileLoop => ["Condition", "Body"]
  | forLoop => ["Variable", "Start", "Direction", "End", "Body"]
  | expression => ["Left", "Operator", "Right"]
  | subscript => ["Identifier", "Index"]
  | not | negate | group => ["Operand"]
  | _ => []

def arity (kind : Kind) : Nat := kind.slotNames.length

def ownsText : Kind → Bool
  | identifier | string => true
  | _ => false

def isList : Kind → Bool
  | varSection | identifierList | statementList | expressionList => true
  | _ => false

theorem arity_eq_zero_of_isList {kind : Kind} (h : kind.isList) : kind.arity = 0 := by
  revert h
  cases kind <;> decide

end Kind
end PascalTree

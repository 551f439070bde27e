import PascalTree.Node.Fold

/-! # Where statements stand

A statement is a block, a call, an assignment, a conditional or a loop. Statements stand in the list
of a block, in the branches of a conditional and in the body of a loop; whatever else a statement
has is an operand. What operands may be is left open, and so is which slots are filled.
-/
namespace PascalTree
set_option autoImplicit false

/-- The kinds that expressions are made of. -/
def Kind.isExpression : Kind → Bool
  | identifier | expression | expressionList | operator | subscript | not | negate | group
  | string | integer | real | boolean => true
  | _ => false

namespace Node

/-- All nodes of the tree are of kinds that expressions are made of. -/
def IsExpression (node : Node) : Prop := ∀ label ∈ node.preorder, label.kind.isExpression

instance (node : Node) : Decidable node.IsExpression :=
  inferInstanceAs (Decidable (∀ label ∈ node.preorder, label.kind.isExpression))

inductive IsStatement (operand : Node → Prop) : Node → Prop
  | emptyBlock : IsStatement operand (.compound none)
  | block {items : List Node} (h : ∀ item ∈ items, IsStatement operand item) :
    IsStatement operand (.compound (some (.list .statementList items)))
  | call (routine : Routine) {argument : Option Node} (h : ∀ node ∈ argument, operand node) :
    IsStatement operand (.call routine argument)
  | assign {target position value : Option Node} (hTarget : ∀ node ∈ target, operand node)
    (hPosition : ∀ node ∈ position, operand node) (hValue : ∀ node ∈ value, operand node) :
    IsStatement operand (.assign target position value)
  | conditional {condition consequent otherwise : Option Node}
    (hCondition : ∀ node ∈ condition, operand node)
    (hConsequent : ∀ node ∈ consequent, IsStatement operand node)
    (hOtherwise : ∀ node ∈ otherwise, IsStatement operand node) :
    IsStatement operand (.conditional condition consequent otherwise)
  | whileLoop {condition body : Option Node} (hCondition : ∀ node ∈ condition, operand node)
    (hBody : ∀ node ∈ body, IsStatement operand node) :
    IsStatement operand (.whileLoop condition body)
  | forLoop {counter start direction stop body : Option Node}
    (hCounter : ∀ node ∈ counter, operand node) (hStart : ∀ node ∈ start, operand node)
    (hDirection : ∀ node ∈ direction, ∃ way, node = .leaf (.direction way))
    (hStop : ∀ node ∈ stop, operand node) (hBody : ∀ node ∈ body, IsStatement operand node) :
    IsStatement operand (.forLoop counter start direction stop body)

/-- Names and a type. The names and the bounds of the type are operands. -/
inductive IsDeclaration (operand : Node → Prop) : Node → Prop
  | intro {names : List Node} {lower upper element : Option Node}
    (hNames : ∀ name ∈ names, operand name) (hLower : ∀ bound ∈ lower, operand bound)
    (hUpper : ∀ bound ∈ upper, operand bound)
    (hElement : ∀ node ∈ element, ∃ name, node = .leaf (.simpleType name)) :
    IsDeclaration operand
      (.declaration (some (.list .identifierList names)) (some (.type lower upper element)))

/-- A lone declaration or a section of them. -/
inductive IsDeclarations (operand : Node → Prop) : Node → Prop
  | lone {node : Node} (h : IsDeclaration operand node) : IsDeclarations operand node
  | several {items : List Node} (h : ∀ item ∈ items, IsDeclaration operand item) :
    IsDeclarations operand (.list .varSection items)

/-- The body of a program is a block. -/
inductive IsProgram (operand : Node → Prop) : Node → Prop
  | intro {declarations statements : Option Node}
    (hDeclarations : ∀ node ∈ declarations, IsDeclarations operand node)
    (hBody : IsStatement operand (.compound statements)) :
    IsProgram operand (.program declarations (some (.compound statements)))

end Node
end PascalTree

import PascalTree.Proofs.Source.Ending
import PascalTree.Proofs.Source.Statement

/-! # Complete trees

In a complete tree the slots that the grammar asks for are filled, statements stand where
statements belong and expressions where expressions do, and every text that a leaf owns ends
visibly. Blocks and variable sections may be empty, and what no rule prints may be anything.
-/
namespace PascalTree
set_option autoImplicit false

namespace Node

/-- Operators stand between operands only, and a list has an expression. -/
inductive IsCompleteExpression : Node → Prop
  | leaf {payload : Payload} (hKind : payload.kind.isExpression)
    (hOperand : payload.kind ≠ .operator) (hText : ∀ text ∈ payload.text, IsProper text) :
    IsCompleteExpression (.leaf payload)
  | list {first : Node} {others : List Node}
    (h : ∀ item ∈ first :: others, IsCompleteExpression item) :
    IsCompleteExpression (.list .expressionList (first :: others))
  | operand {left : Node} {right : Option Node} (hLeft : IsCompleteExpression left)
    (hRight : ∀ node ∈ right, IsCompleteExpression node) :
    IsCompleteExpression (.expression (some left) none right)
  | binary {left right : Node} (sign : Operator) (hLeft : IsCompleteExpression left)
    (hRight : IsCompleteExpression right) :
    IsCompleteExpression (.expression (some left) (some (.leaf (.operator sign))) (some right))
  | subscript {identifier index : Node} (hIdentifier : IsCompleteExpression identifier)
    (hIndex : IsCompleteExpression index) :
    IsCompleteExpression (.subscript (some identifier) (some index))
  | unary (form : UnaryForm) {operand : Node} (h : IsCompleteExpression operand) :
    IsCompleteExpression (.unary form (some operand))

inductive IsCompleteStatement : Node → Prop
  | emptyBlock : IsCompleteStatement (.compound none)
  | block {items : List Node} (h : ∀ item ∈ items, IsCompleteStatement item) :
    IsCompleteStatement (.compound (some (.list .statementList items)))
  | loneBlock {statement : Node} (h : IsCompleteStatement statement) :
    IsCompleteStatement (.compound (some statement))
  | call (routine : Routine) {argument : Node} (h : IsCompleteExpression argument) :
    IsCompleteStatement (.call routine (some argument))
  | assign {target value : Node} {position : Option Node} (hTarget : IsCompleteExpression target)
    (hPosition : ∀ node ∈ position, IsCompleteExpression node)
    (hValue : IsCompleteExpression value) :
    IsCompleteStatement (.assign (some target) position (some value))
  | conditional {condition consequent : Node} {otherwise : Option Node}
    (hCondition : IsCompleteExpression condition) (hConsequent : IsCompleteStatement consequent)
    (hOtherwise : ∀ node ∈ otherwise, IsCompleteStatement node) :
    IsCompleteStatement (.conditional (some condition) (some consequent) otherwise)
  | whileLoop {condition body : Node} (hCondition : IsCompleteExpression condition)
    (hBody : IsCompleteStatement body) :
    IsCompleteStatement (.whileLoop (some condition) (some body))
  | forLoop {counter start stop body : Node} (way : Direction)
    (hCounter : IsCompleteExpression counter) (hStart : IsCompleteExpression start)
    (hStop : IsCompleteExpression stop) (hBody : IsCompleteStatement body) :
    IsCompleteStatement (.forLoop (some counter) (some start) (some (.leaf (.direction way)))
      (some stop) (some body))

/-- An array has both bounds. A type without a lower bound is no array. -/
inductive IsCompleteType : Node → Prop
  | name (name : TypeName) : IsCompleteType (.leaf (.simpleType name))
  | simple {upper : Option Node} {element : Node} (h : IsCompleteType element) :
    IsCompleteType (.type none upper (some element))
  | array {lower upper element : Node} (hLower : IsCompleteExpression lower)
    (hUpper : IsCompleteExpression upper) (hElement : IsCompleteType element) :
    IsCompleteType (.type (some lower) (some upper) (some element))

/-- A lone name or a list of them. -/
inductive IsCompleteNames : Node → Prop
  | lone {name : Node} (h : IsCompleteExpression name) : IsCompleteNames name
  | several {first : Node} {others : List Node}
    (h : ∀ name ∈ first :: others, IsCompleteExpression name) :
    IsCompleteNames (.list .identifierList (first :: others))

inductive IsCompleteDeclaration : Node → Prop
  | intro {names typing : Node} (hNames : IsCompleteNames names)
    (hTyping : IsCompleteType typing) :
    IsCompleteDeclaration (.declaration (some names) (some typing))

/-- A lone declaration or a section of them. -/
inductive IsCompleteDeclarations : Node → Prop
  | lone {node : Node} (h : IsCompleteDeclaration node) : IsCompleteDeclarations node
  | several {items : List Node} (h : ∀ item ∈ items, IsCompleteDeclaration item) :
    IsCompleteDeclarations (.list .varSection items)

inductive IsCompleteProgram : Node → Prop
  | intro {declarations : Option Node} {body : Node}
    (hDeclarations : ∀ node ∈ declarations, IsCompleteDeclarations node)
    (hBody : IsCompleteStatement body) : IsCompleteProgram (.program declarations (some body))

theorem isCompleteProgram_lone {declaration body : Node}
    (hDeclaration : declaration.IsCompleteDeclaration) (hBody : body.IsCompleteStatement) :
    (program (some declaration) (some body)).IsCompleteProgram := by
  refine .intro ?_ hBody
  rintro node ⟨⟩
  exact .lone hDeclaration

end Node
end PascalTree

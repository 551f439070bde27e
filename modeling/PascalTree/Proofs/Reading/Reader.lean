import PascalTree.Node.Build
import PascalTree.Proofs.Reading.Nearest
import PascalTree.Proofs.Reading.Token

/-! # Reading trees

A reader by recursive descent. Every production takes its tokens from the front and returns a node
and the tokens behind it. An operand takes a bracket behind an identifier, an expression an
operator, and a conditional an `else`, whenever the next token is one; no production gives a token
back. The recursion is limited, and a limit above the number of tokens is high enough.
-/
namespace PascalTree
set_option autoImplicit false

namespace Reader

/-- A node at the front of the tokens, and the tokens behind it. -/
abbrev Parser := List Token → Option (Node × List Token)

def expect (token : Token) : List Token → Option (List Token)
  | [] => none
  | head :: rest => if head = token then some rest else none

/-- One node or more, with a separator between them. -/
def separated (separator : Token) (item : Parser) :
    Nat → List Token → Option (List Node × List Token)
  | 0, _ => none
  | limit + 1, tokens => do
    let (first, rest) ← item tokens
    match expect separator rest with
    | some rest =>
      let (others, rest) ← separated separator item limit rest
      some (first :: others, rest)
    | none => some ([first], rest)

/-- Literals beyond the last integer cannot be read. -/
def integer (value : Nat) : Option Node :=
  if value ≤ Int64.maxValue.toInt then some (Build.integer (.ofNat value)) else none

def expressionOf (factor : Parser) : Parser := fun tokens => do
  let (left, rest) ← factor tokens
  match rest with
  | .operator sign :: rest =>
    let (right, rest) ← factor rest
    some (Build.binary left sign right, rest)
  | rest => some (left, rest)

def factor : Nat → Parser
  | 0, _ => none
  | limit + 1, tokens =>
    match tokens with
    | .identifier name :: .mark .leftBracket :: rest => do
      let (index, rest) ← expressionOf (factor limit) rest
      let rest ← expect (.mark .rightBracket) rest
      some (Build.subscript (Build.identifier name) index, rest)
    | .identifier name :: rest => some (Build.identifier name, rest)
    | .string text :: rest => some (Build.string text, rest)
    | .integer value :: rest => do some (← integer value, rest)
    | .real value :: rest => some (.leaf (.real (Binary64.nearest value)), rest)
    | .keyword (.boolean value) :: rest => some (Build.boolean value, rest)
    | .mark .leftParenthesis :: rest => do
      let (operand, rest) ← expressionOf (factor limit) rest
      let rest ← expect (.mark .rightParenthesis) rest
      some (Build.group operand, rest)
    | .keyword .not :: rest => do
      let (operand, rest) ← factor limit rest
      some (Build.not operand, rest)
    | .operator .minus :: rest => do
      let (operand, rest) ← factor limit rest
      some (Build.negate operand, rest)
    | _ => none

def expression (limit : Nat) : Parser := expressionOf (factor limit)

def identifier : Parser
  | .identifier name :: rest => some (Build.identifier name, rest)
  | _ => none

def bound : Parser
  | .identifier name :: rest => some (Build.identifier name, rest)
  | .integer value :: rest => do some (← integer value, rest)
  | _ => none

def type : Parser
  | .keyword (.simpleType name) :: rest => some (Build.simpleType name, rest)
  | .keyword .array :: .mark .leftBracket :: rest => do
    let (lower, rest) ← bound rest
    let rest ← expect (.mark .range) rest
    let (upper, rest) ← bound rest
    let rest ← expect (.mark .rightBracket) rest
    match ← expect (.keyword .ofElement) rest with
    | .keyword (.simpleType name) :: rest => some (Build.arrayType lower upper name, rest)
    | _ => none
  | _ => none

def declaration (limit : Nat) : Parser := fun tokens => do
  let (names, rest) ← separated (.mark .comma) identifier limit tokens
  let rest ← expect (.mark .colon) rest
  let (type, rest) ← type rest
  some (Build.declaration (.list .identifierList names) type, rest)

/-- Declarations, each with a semicolon behind it. -/
def declarations : Nat → List Token → Option (List Node × List Token)
  | 0, _ => none
  | limit + 1, tokens => do
    let (first, rest) ← declaration limit tokens
    match ← expect (.mark .semicolon) rest with
    | .identifier name :: rest =>
      let (others, rest) ← declarations limit (.identifier name :: rest)
      some (first :: others, rest)
    | rest => some ([first], rest)

def statement : Nat → Parser
  | 0, _ => none
  | limit + 1, tokens =>
    match tokens with
    | .keyword .opening :: .keyword .closing :: rest => some (Build.compound [], rest)
    | .keyword .opening :: rest => do
      let (items, rest) ← separated (.mark .semicolon) (statement limit) limit rest
      let rest ← expect (.keyword .closing) rest
      some (Build.compound items, rest)
    | .keyword (.routine routine) :: .mark .leftParenthesis :: rest => do
      let (arguments, rest) ← separated (.mark .comma) (expression limit) limit rest
      let rest ← expect (.mark .rightParenthesis) rest
      some (.call routine (some (Build.expressionList arguments)), rest)
    | .identifier name :: .mark .becomes :: rest => do
      let (value, rest) ← expression limit rest
      some (Build.assign (Build.identifier name) none value, rest)
    | .identifier name :: .mark .leftBracket :: rest => do
      let (position, rest) ← expression limit rest
      let rest ← expect (.mark .rightBracket) rest
      let rest ← expect (.mark .becomes) rest
      let (value, rest) ← expression limit rest
      some (Build.assign (Build.identifier name) (some position) value, rest)
    | .keyword .ifCondition :: rest => do
      let (condition, rest) ← expression limit rest
      let rest ← expect (.keyword .thenBranch) rest
      let (consequent, rest) ← statement limit rest
      match expect (.keyword .elseBranch) rest with
      | some rest =>
        let (otherwise, rest) ← statement limit rest
        some (Build.conditional condition consequent (some otherwise), rest)
      | none => some (Build.conditional condition consequent none, rest)
    | .keyword .whileCondition :: rest => do
      let (condition, rest) ← expression limit rest
      let rest ← expect (.keyword .doBody) rest
      let (body, rest) ← statement limit rest
      some (Build.whileLoop condition body, rest)
    | .keyword .forCounter :: .identifier name :: .mark .becomes :: rest => do
      let (start, rest) ← expression limit rest
      match rest with
      | .keyword (.direction way) :: rest =>
        let (stop, rest) ← expression limit rest
        let rest ← expect (.keyword .doBody) rest
        let (body, rest) ← statement limit rest
        some (Build.forLoop (Build.identifier name) start way stop body, rest)
      | _ => none
    | _ => none

/-- The block of a program and the period behind it. -/
def body (limit : Nat) (declarations : Option Node) : Parser
  | .keyword .opening :: rest => do
    let (block, rest) ← statement limit (.keyword .opening :: rest)
    let rest ← expect (.mark .period) rest
    some (Build.program declarations block, rest)
  | _ => none

def program (limit : Nat) : Parser
  | .keyword .program :: .identifier _ :: .mark .semicolon :: .keyword .variables :: rest => do
    let (items, rest) ← declarations limit rest
    body limit (some (Build.varSection items)) rest
  | .keyword .program :: .identifier _ :: .mark .semicolon :: rest => body limit none rest
  | _ => none

end Reader

/-- What a text can be read as. -/
inductive Category
  | identifier
  | factor
  | expression
  | bound
  | type
  | declaration
  | statement
  | program
  deriving DecidableEq

namespace Reader

def parse : Category → Nat → Parser
  | .identifier => fun _ => identifier
  | .factor => factor
  | .expression => expression
  | .bound => fun _ => bound
  | .type => fun _ => type
  | .declaration => declaration
  | .statement => statement
  | .program => program

/-- The tree of a text. All tokens of the text belong to it. -/
def read (category : Category) (source : String) : Option Node := do
  let tokens ← Token.ofSource source.toList
  match ← parse category (tokens.length + 1) tokens with
  | (node, []) => some node
  | _ => none

end Reader
end PascalTree

import PascalTree.Node.Basic
import PascalTree.Fault

/-! # Building trees

One function for each production of the grammar. It takes the parts the production cannot do
without as nodes, the others as slots, and names, symbols and numbers as they are.
-/
namespace PascalTree.Build
set_option autoImplicit false

def program (declarations : Option Node) (body : Node) : Node := .program declarations (some body)

def varSection (declarations : List Node) : Node := .list .varSection declarations

def declaration (identifiers type : Node) : Node := .declaration (some identifiers) (some type)

def identifier (name : String) : Node := .leaf (.identifier name)

def identifierList (names : List String) : Node := .list .identifierList (names.map identifier)

def simpleType (name : TypeName) : Node := .type none none (some (.leaf (.simpleType name)))

def arrayType (lower upper : Node) (element : TypeName) : Node :=
  .type (some lower) (some upper) (some (.leaf (.simpleType element)))

def statementList (statements : List Node) : Node := .list .statementList statements

def compound (statements : List Node) : Node := .compound (some (statementList statements))

def read (argument : Node) : Node := .call .read (some argument)

def write (argument : Node) : Node := .call .write (some argument)

def assign (target : Node) (position : Option Node) (value : Node) : Node :=
  .assign (some target) position (some value)

def conditional (condition consequent : Node) (otherwise : Option Node) : Node :=
  .conditional (some condition) (some consequent) otherwise

def whileLoop (condition body : Node) : Node := .whileLoop (some condition) (some body)

def forLoop (counter start : Node) (direction : Direction) (stop body : Node) : Node :=
  .forLoop (some counter) (some start) (some (.leaf (.direction direction))) (some stop) (some body)

def binary (left : Node) (operator : Operator) (right : Node) : Node :=
  .expression (some left) (some (.leaf (.operator operator))) (some right)

/-- An expression without an operator. -/
def expression (operand : Node) : Node := .expression (some operand) none none

def expressionList (expressions : List Node) : Node := .list .expressionList expressions

def subscript (identifier index : Node) : Node := .subscript (some identifier) (some index)

def not (operand : Node) : Node := .unary .not (some operand)

def negate (operand : Node) : Node := .unary .negate (some operand)

def group (operand : Node) : Node := .unary .group (some operand)

/-- A string literal. The text holds its quotes. -/
def string (text : String) : Node := .leaf (.string text)

def integer (value : Int64) : Node := .leaf (.integer value)

/-- A source text can only hold finite real literals. -/
def real (value : Binary64) : Except Fault Node :=
  if value.isFinite then .ok (.leaf (.real value)) else .error (.notFinite value)

def boolean (value : Bool) : Node := .leaf (.boolean value)

theorem real_eq_error_iff (value : Binary64) (fault : Fault) :
    real value = .error fault ↔ ¬ value.isFinite ∧ fault = .notFinite value := by
  unfold real
  split <;> grind

end PascalTree.Build

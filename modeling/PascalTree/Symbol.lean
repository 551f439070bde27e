/-! # Symbols with a fixed spelling

Binary operators, the built-in types and the two directions of a counting loop. Each spelling
belongs to one symbol only, so a symbol can be read off the page.
-/
namespace PascalTree
set_option autoImplicit false

inductive Operator
  | lt
  | le
  | gt
  | ge
  | eq
  | ne
  | plus
  | minus
  | or
  | mul
  | slash
  | div
  | mod
  | and
  deriving DecidableEq, Repr

namespace Operator

instance : Inhabited Operator := ⟨plus⟩

def all : List Operator :=
  [lt, le, gt, ge, eq, ne, plus, minus, or, mul, slash, div, mod, and]

theorem mem_all (operator : Operator) : operator ∈ all := by cases operator <;> decide

def symbol : Operator → String
  | lt => "<"
  | le => "<="
  | gt => ">"
  | ge => ">="
  | eq => "="
  | ne => "<>"
  | plus => "+"
  | minus => "-"
  | or => "or"
  | mul => "*"
  | slash => "/"
  | div => "div"
  | mod => "mod"
  | and => "and"

theorem symbol_inj {a b : Operator} (h : a.symbol = b.symbol) : a = b := by
  revert h
  cases a <;> cases b <;> decide

end Operator

inductive TypeName
  | integer
  | real
  | boolean
  deriving DecidableEq, Repr

namespace TypeName

instance : Inhabited TypeName := ⟨integer⟩

def all : List TypeName := [integer, real, boolean]

theorem mem_all (name : TypeName) : name ∈ all := by cases name <;> decide

def keyword : TypeName → String
  | integer => "integer"
  | real => "real"
  | boolean => "boolean"

theorem keyword_inj {a b : TypeName} (h : a.keyword = b.keyword) : a = b := by
  revert h
  cases a <;> cases b <;> decide

end TypeName

inductive Direction
  | up
  | down
  deriving DecidableEq, Repr

namespace Direction

instance : Inhabited Direction := ⟨up⟩

def all : List Direction := [up, down]

theorem mem_all (direction : Direction) : direction ∈ all := by cases direction <;> decide

def keyword : Direction → String
  | up => "to"
  | down => "downto"

theorem keyword_inj {a b : Direction} (h : a.keyword = b.keyword) : a = b := by
  revert h
  cases a <;> cases b <;> decide

end Direction
end PascalTree

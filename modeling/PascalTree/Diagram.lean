/-! # Diagrams of nested entries

A diagram is drawn one line an entry, an entry before its branches. Every line starts with a rail
for each entry above it, which is drawn while that entry has a later sibling, then a connector.
-/
namespace PascalTree
set_option autoImplicit false

inductive Diagram
  | entry (caption : String) (branches : List Diagram)

namespace Diagram

def caption : Diagram → String
  | entry caption _ => caption

/-- The diagram with a name before its caption. -/
def labelled (name : String) : Diagram → Diagram
  | entry caption branches => entry (name ++ ": " ++ caption) branches

/-- A line before it is drawn. `rails` has one flag for each entry above, outermost first: whether
a later sibling of it follows. -/
structure Line where
  rails : List Bool
  isLast : Bool
  caption : String
  deriving DecidableEq

namespace Line

def rail (continues : Bool) : String := if continues then "│  " else "   "

def connector (isLast : Bool) : String := if isLast then "╰─ " else "├─ "

def text (line : Line) : String :=
  String.join (line.rails.map rail) ++ connector line.isLast ++ line.caption

end Line

mutual
def lines (rails : List Bool) (isLast : Bool) : Diagram → List Line
  | entry caption branches => ⟨rails, isLast, caption⟩ :: branchLines (rails ++ [!isLast]) branches

def branchLines (rails : List Bool) : List Diagram → List Line
  | [] => []
  | branch :: rest => lines rails rest.isEmpty branch ++ branchLines rails rest
end

/-- The drawing. The outermost entry has no sibling, and every line is ended. -/
def text (diagram : Diagram) : String :=
  String.join ((diagram.lines [] true).map fun line => line.text ++ "\n")

end Diagram
end PascalTree

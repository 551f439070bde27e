/-! # Documents

A document is a text whose line breaks are not decided yet. Breaks stand between its pieces;
indentation and grouping wrap around them.
-/
namespace PascalTree
set_option autoImplicit false

inductive Doc
  | empty
  | text (content : String)
  /-- A break when the enclosing group is broken, and nothing when it is flat. -/
  | softLine
  /-- A break when the enclosing group is broken, and a space when it is flat. -/
  | spaceLine
  /-- A break in any case. -/
  | hardLine
  | concat (parts : List Doc)
  /-- Breaks inside are one level deeper. -/
  | indent (body : Doc)
  /-- Flat when it fits on the line, otherwise broken. -/
  | group (body : Doc)

namespace Doc

instance : Inhabited Doc := ⟨empty⟩

mutual
/-- A group with a hard line inside cannot be flat. -/
def forcesBreak : Doc → Bool
  | hardLine => true
  | empty | text _ | softLine | spaceLine => false
  | concat parts => anyForcesBreak parts
  | indent body => forcesBreak body
  | group body => forcesBreak body

def anyForcesBreak : List Doc → Bool
  | [] => false
  | part :: rest => forcesBreak part || anyForcesBreak rest
end

theorem anyForcesBreak_eq (parts : List Doc) : anyForcesBreak parts = parts.any forcesBreak := by
  induction parts with
  | nil => rfl
  | cons part rest ih => simp [anyForcesBreak, ih]

mutual
def nesting : Doc → Nat
  | empty | text _ | softLine | spaceLine | hardLine => 0
  | concat parts => maxNesting parts
  | indent body => nesting body + 1
  | group body => nesting body

def maxNesting : List Doc → Nat
  | [] => 0
  | part :: rest => max (nesting part) (maxNesting rest)
end

/-- The parts with a separator before each but the first. -/
def join (separator : Doc) : List Doc → Doc
  | [] => concat []
  | first :: rest => concat (first :: rest.map fun part => concat [separator, part])

end Doc
end PascalTree

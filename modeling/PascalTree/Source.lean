import PascalTree.Doc.Basic
import PascalTree.Node.Basic

/-! # Source documents

The document of a tree, kind by kind. Any node may stand in any slot, and an empty slot prints as
nothing. Statements are separated by hard lines, and only the argument of a call may be broken to
fit the page.
-/
namespace PascalTree
set_option autoImplicit false

def programName : String := "parsed_prog"

namespace Node

/-- An `else` printed after this statement would belong to a conditional inside it. -/
def endsWithOpenIf : Node → Bool
  | conditional _ _ none => true
  | conditional _ _ (some otherwise) => endsWithOpenIf otherwise
  | whileLoop _ (some body) => endsWithOpenIf body
  | forLoop _ _ _ _ (some body) => endsWithOpenIf body
  | _ => false

end Node

/-! Each rule below takes the printed form of the parts; where it depends on what stands in a slot,
it takes the slot too. -/
namespace Source

open Doc

/-- A call keeps its argument on the line of its name if it fits there, and otherwise gives it
lines of its own. -/
def call (routine : Routine) (argument : Doc) : Doc :=
  group (concat [text routine.keyword, text "(", indent (concat [softLine, argument]), softLine,
    text ")"])

/-- A block follows on the same line, any other statement on the next one. -/
def body (slot : Option Node) (printed : Doc) : Doc :=
  match slot with
  | none => empty
  | some (.compound _) => concat [text " ", printed]
  | some _ => indent (concat [hardLine, printed])

def varSection (declarations : List Doc) : Doc :=
  join hardLine (declarations.map fun declaration => concat [declaration, text ";"])

/-- A declaration that stands alone is ended like those of a section. -/
def declarations (slot : Option Node) (printed : Doc) : Doc :=
  match slot with
  | none | some (.list .varSection []) => empty
  | some (.list .varSection _) => underVar printed
  | some _ => underVar (concat [printed, text ";"])
where
  underVar (printed : Doc) : Doc :=
    concat [text "var", indent (concat [hardLine, printed]), hardLine]

def program (declarations body : Doc) : Doc :=
  concat [text "program ", text programName, text ";", hardLine, declarations, body, text ".",
    hardLine]

/-- A type without a lower bound is its element alone. -/
def type (lower : Option Node) (lowerBound upperBound element : Doc) : Doc :=
  match lower with
  | none => element
  | some _ => concat [text "array [", lowerBound, text "..", upperBound, text "] of ", element]

def block (statements : Doc) : Doc := concat [text "begin", statements, hardLine, text "end"]

def statements (slot : Option Node) (printed : Doc) : Doc :=
  match slot with
  | none | some (.list .statementList []) => empty
  | some _ => indent (concat [hardLine, printed])

def position (slot : Option Node) (printed : Doc) : Doc :=
  match slot with
  | none => empty
  | some _ => concat [text "[", printed, text "]"]

/-- A branch before an `else` is put in a block when the `else` would go astray otherwise. -/
def consequent (slot otherwise : Option Node) (printed : Doc) : Doc :=
  if otherwise.isSome && slot.any Node.endsWithOpenIf then
    concat [text " begin", indent (concat [hardLine, printed]), hardLine, text "end"]
  else body slot printed

/-- An `if` after an `else` stays on its line. -/
def otherwise (slot : Option Node) (printed : Doc) : Doc :=
  match slot with
  | none => empty
  | some (.conditional ..) => concat [hardLine, text "else", concat [text " ", printed]]
  | some _ => concat [hardLine, text "else", body slot printed]

def leaf : Payload → Doc
  | .direction way => text (" " ++ way.keyword ++ " ")
  | .operator sign => concat [text " ", text sign.symbol, text " "]
  | payload => text payload.spelling

def list : ListKind → List Doc → Doc
  | .varSection, items => varSection items
  | .identifierList, items => join (text ", ") items
  | .statementList, items => join (concat [text ";", hardLine]) items
  | .expressionList, items => join (concat [text ",", spaceLine]) items

def unary : UnaryForm → Doc → Doc
  | .not, operand => concat [text "not ", operand]
  | .negate, operand => concat [text "- ", operand]
  | .group, operand => concat [text "(", operand, text ")"]

end Source

namespace Node

mutual
def doc : Node → Doc
  | leaf payload => Source.leaf payload
  | list kind items => Source.list kind (itemDocs items)
  | program declarations body =>
    Source.program (Source.declarations declarations (slotDoc declarations)) (slotDoc body)
  | declaration identifiers typing =>
    .concat [slotDoc identifiers, .text " : ", slotDoc typing]
  | type lower upper element =>
    Source.type lower (slotDoc lower) (slotDoc upper) (slotDoc element)
  | compound statements => Source.block (Source.statements statements (slotDoc statements))
  | call routine argument => Source.call routine (slotDoc argument)
  | assign target position value =>
    .concat [slotDoc target, Source.position position (slotDoc position), .text " := ",
      slotDoc value]
  | conditional condition consequent otherwise =>
    .concat [.concat [.text "if ", slotDoc condition, .text " then"],
      Source.consequent consequent otherwise (slotDoc consequent),
      Source.otherwise otherwise (slotDoc otherwise)]
  | whileLoop condition body =>
    .concat [.text "while ", slotDoc condition, .text " do", Source.body body (slotDoc body)]
  | forLoop counter start direction stop body =>
    .concat [.text "for ", slotDoc counter, .text " := ", slotDoc start, slotDoc direction,
      slotDoc stop, .text " do", Source.body body (slotDoc body)]
  | expression left operator right =>
    .concat [slotDoc left, slotDoc operator, slotDoc right]
  | subscript identifier index =>
    .concat [slotDoc identifier, .text "[", slotDoc index, .text "]"]
  | unary form operand => Source.unary form (slotDoc operand)

def slotDoc : Option Node → Doc
  | none => .empty
  | some node => doc node

def itemDocs : List Node → List Doc
  | [] => []
  | node :: rest => doc node :: itemDocs rest
end

theorem itemDocs_eq (items : List Node) : itemDocs items = items.map doc := by
  induction items with
  | nil => rfl
  | cons node rest ih => simp [itemDocs, ih]

end Node
end PascalTree

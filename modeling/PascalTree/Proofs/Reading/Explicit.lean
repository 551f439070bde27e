import PascalTree.Source
import PascalTree.Node.Build
import PascalTree.Proofs.Node.Rewrite

/-! # Explicit trees

Some trees differ only in what a source text leaves unsaid or cannot say. A branch that would take
the `else` behind it is printed as a block, a section without declarations is not printed, a lone
declaration is printed as a section, and zero with a sign as the negation of zero. The explicit tree
says the same in the way a text does.
-/
namespace PascalTree
set_option autoImplicit false

def Binary64.isSignedZero (x : Binary64) : Bool := x.isNegative && x.isZero

namespace Node

/-- The node with its own part made explicit. -/
def explicitStep : Node → Node
  | conditional condition (some consequent) (some otherwise) =>
    if consequent.endsWithOpenIf then
      conditional condition (some (Build.compound [consequent])) (some otherwise)
    else conditional condition (some consequent) (some otherwise)
  | program (some (list .varSection [])) body => program none body
  | program (some (list .varSection items)) body => program (some (list .varSection items)) body
  | program (some lone) body => program (some (Build.varSection [lone])) body
  | leaf (.real value) =>
    if value.isSignedZero then Build.negate (leaf (.real ⟨0⟩))
    else leaf (.real value)
  | node => node

def sectionItems? : Node → Option (List Node)
  | list .varSection items => some items
  | _ => none

/-- The node says its own part in the way a text does. -/
def isExplicit : Node → Bool
  | conditional _ (some consequent) (some _) => ! consequent.endsWithOpenIf
  | program (some declarations) _ => declarations.sectionItems?.any (! ·.isEmpty)
  | leaf (.real value) => ! value.isSignedZero
  | _ => true

def explicit : Node → Node := rewrite explicitStep

theorem explicit_eq (node : Node) : node.explicit = explicitStep (node.mapChildren explicit) :=
  rewrite_eq explicitStep node

theorem endsWithOpenIf_explicitStep (node : Node) :
    (explicitStep node).endsWithOpenIf = node.endsWithOpenIf := by
  unfold explicitStep
  split
  · split <;> rfl
  · rfl
  · rfl
  · rfl
  · split <;> rfl
  · rfl

theorem endsWithOpenIf_explicit (node : Node) :
    node.explicit.endsWithOpenIf = node.endsWithOpenIf :=
  endsWithOpenIf_rewrite endsWithOpenIf_explicitStep node

theorem explicit_list (kind : ListKind) (items : List Node) :
    (list kind items).explicit = list kind (items.map explicit) :=
  explicit_eq _

theorem explicit_declaration (identifiers typing : Option Node) :
    (declaration identifiers typing).explicit =
      declaration (identifiers.map explicit) (typing.map explicit) :=
  explicit_eq _

theorem explicit_call (routine : Routine) (argument : Option Node) :
    (call routine argument).explicit = call routine (argument.map explicit) :=
  explicit_eq _

theorem explicit_compound (items : List Node) :
    (Build.compound items).explicit = Build.compound (items.map explicit) := by
  have hBlock : (Build.compound items).explicit =
      compound (some (list .statementList items).explicit) := explicit_eq _
  rw [hBlock, explicit_list]
  rfl

theorem explicit_alternative (condition consequent otherwise : Node) :
    (Build.conditional condition consequent (some otherwise)).explicit =
      if consequent.endsWithOpenIf then
        Build.conditional condition.explicit (Build.compound [consequent.explicit])
          (some otherwise.explicit)
      else Build.conditional condition.explicit consequent.explicit (some otherwise.explicit) := by
  rw [← endsWithOpenIf_explicit consequent]
  exact explicit_eq _

theorem explicit_real (value : Binary64) :
    (leaf (.real value)).explicit =
      if value.isSignedZero then Build.negate (leaf (.real ⟨0⟩))
      else leaf (.real value) :=
  explicit_eq _

theorem explicit_program_section (declarations : List Node) (body : Node) :
    (Build.program (some (Build.varSection declarations)) body).explicit =
      if declarations = [] then Build.program none body.explicit
      else Build.program (some (Build.varSection (declarations.map explicit)))
        body.explicit := by
  have hProgram : (Build.program (some (Build.varSection declarations)) body).explicit =
      explicitStep (program (some (list .varSection declarations).explicit)
        (some body.explicit)) := explicit_eq _
  rw [hProgram, explicit_list]
  cases declarations with
  | nil => rfl
  | cons first others => rfl

theorem explicit_program_lone (identifiers typing : Option Node) (body : Node) :
    (Build.program (some (declaration identifiers typing)) body).explicit =
      Build.program (some (Build.varSection [(declaration identifiers typing).explicit]))
        body.explicit := by
  have hProgram : (Build.program (some (declaration identifiers typing)) body).explicit =
      explicitStep (program (some (declaration identifiers typing).explicit)
        (some body.explicit)) := explicit_eq _
  rw [hProgram, explicit_declaration]
  rfl

theorem isExplicit_explicitStep (node : Node) : (explicitStep node).isExplicit := by
  unfold explicitStep
  split
  · split
    · rfl
    · simp_all [isExplicit]
  · rfl
  · simp_all [isExplicit, sectionItems?]
  · rfl
  · split
    · rfl
    · simp_all [isExplicit]
  · unfold isExplicit
    split <;> simp_all

theorem explicitStep_eq_self {node : Node} (h : node.isExplicit) : explicitStep node = node := by
  unfold explicitStep
  split <;> simp_all [isExplicit, sectionItems?]

theorem sectionItems?_explicit (node : Node) :
    node.explicit.sectionItems? = node.sectionItems?.map (List.map explicit) := by
  have hStep : ∀ node, (explicitStep node).sectionItems? = node.sectionItems? := by
    intro node
    unfold explicitStep
    split
    · split <;> rfl
    · rfl
    · rfl
    · rfl
    · split <;> rfl
    · rfl
  rw [explicit_eq, hStep]
  cases node with
  | list kind items => cases kind <;> rfl
  | _ => rfl

theorem isExplicit_mapChildren (node : Node) :
    (node.mapChildren explicit).isExplicit = node.isExplicit := by
  cases node with
  | conditional condition consequent otherwise =>
    cases consequent with
    | none => rfl
    | some consequent =>
      cases otherwise with
      | none => rfl
      | some otherwise => exact congrArg (! ·) consequent.endsWithOpenIf_explicit
  | program declarations body =>
    cases declarations with
    | none => rfl
    | some declarations =>
      have hItems : (declarations.explicit.sectionItems?).any (! ·.isEmpty) =
          declarations.sectionItems?.any (! ·.isEmpty) := by
        rw [sectionItems?_explicit]
        cases declarations.sectionItems? <;> simp
      exact hItems
  | _ => rfl

/-- A tree is its own explicit form exactly if all of its nodes are explicit. -/
theorem explicit_eq_self_iff (tree : Node) :
    tree.explicit = tree ↔ tree.Everywhere fun node => node.isExplicit := by
  constructor
  · induction tree using inductionOn with
    | step tree ih =>
      intro hTree
      have hSelf : tree.isExplicit := by
        rw [← hTree, explicit_eq]
        exact isExplicit_explicitStep _
      have hChildren : tree.mapChildren explicit = tree := by
        rw [← isExplicit_mapChildren] at hSelf
        rwa [explicit_eq, explicitStep_eq_self hSelf] at hTree
      refine .intro hSelf fun child hChild => ih child hChild ?_
      exact mapChildren_eq_self_iff.mp hChildren child hChild
  · exact rewrite_eq_self fun node => explicitStep_eq_self

end Node
end PascalTree

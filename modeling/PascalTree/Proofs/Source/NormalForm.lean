import PascalTree.Node.Build
import PascalTree.Proofs.Source.Interchange

/-! # Implied blocks and sections

The source of a tree shows blocks and sections that are no nodes of it: around a branch that would
take the `else` behind it, around a single statement between `begin` and `end`, and around a single
declaration after `var`. Where a list has no items it shows nothing. Normalizing a tree gives it the
nodes that its source shows. No page tells the two trees apart, and in the normal tree no branch
takes an `else` that is not its own.
-/
namespace PascalTree
set_option autoImplicit false

namespace Node

/-- The node as a list of the given kind, where a list without items is left out. -/
def enlisted (kind : ListKind) (node : Node) : Option Node :=
  if node.kind = kind.kind then
    if node.items.isEmpty then none else some node
  else some (list kind [node])

section
variable {kind : ListKind} {node : Node}

theorem enlisted_of_ne (h : node.kind ≠ kind.kind) : node.enlisted kind = some (list kind [node]) :=
  if_neg h

theorem enlisted_of_eq (h : node.kind = kind.kind) :
    node.enlisted kind = if node.items.isEmpty then none else some node :=
  if_pos h

end

/-- The node with the blocks and sections that its own rule implies. -/
def normalStep : Node → Node
  | conditional condition (some consequent) (some otherwise) =>
    if consequent.endsWithOpenIf then
      conditional condition (some (Build.compound [consequent])) (some otherwise)
    else conditional condition (some consequent) (some otherwise)
  | compound (some statements) => compound (statements.enlisted .statementList)
  | program (some declarations) body => program (declarations.enlisted .varSection) body
  | node => node

def normalize : Node → Node := rewrite normalStep

theorem alike_statements_enlisted (node : Node) :
    Doc.Alike (Source.statements (node.enlisted .statementList)
      (slotDoc (node.enlisted .statementList))) (Source.statements (some node) node.doc) := by
  by_cases hKind : node.kind = .statementList
  · rw [enlisted_of_eq hKind]
    by_cases hEmpty : node.items.isEmpty
    · rw [if_pos hEmpty, Source.statements_some, if_pos ⟨hKind, hEmpty⟩]
      exact .refl _
    · rw [if_neg hEmpty]
      exact .refl _
  · have hLone : Doc.Alike (list .statementList [node]).doc node.doc := Doc.alike_singleton node.doc
    rw [enlisted_of_ne hKind, Source.statements_some node, if_neg fun h => hKind h.1]
    exact .indent (.concat (.cons (.refl _) (.cons hLone .nil)))

theorem alike_declarations_enlisted (node : Node) :
    Doc.Alike (Source.declarations (node.enlisted .varSection)
      (slotDoc (node.enlisted .varSection))) (Source.declarations (some node) node.doc) := by
  by_cases hKind : node.kind = .varSection
  · rw [enlisted_of_eq hKind]
    by_cases hEmpty : node.items.isEmpty
    · rw [if_pos hEmpty, Source.declarations_some, if_pos hKind, if_pos hEmpty]
      exact .refl _
    · rw [if_neg hEmpty]
      exact .refl _
  · have hLone : Doc.Alike (list .varSection [node]).doc (.concat [node.doc, .text ";"]) :=
      Doc.alike_singleton _
    rw [enlisted_of_ne hKind, Source.declarations_some node, if_neg hKind]
    exact Source.alike_underVar hLone

/-- The words around a branch are cut differently when the branch is a block of its own. -/
theorem alike_body_block (node : Node) :
    Doc.Alike (Source.body (some (Build.compound [node])) (Build.compound [node]).doc)
      (.concat [.text " begin", .indent (.concat [.hardLine, node.doc]), .hardLine,
        .text "end"]) := by
  have hLone : Doc.Alike (list .statementList [node]).doc node.doc := Doc.alike_singleton node.doc
  have hIndented := Doc.Alike.indent (.concat (.cons (.refl .hardLine) (.cons hLone .nil)))
  have hBlock : Doc.Alike (Build.compound [node]).doc (.concat [.text "begin",
      .indent (.concat [.hardLine, node.doc]), .hardLine, .text "end"]) :=
    .concat (.cons (.refl _) (.cons hIndented (.cons (.refl _) (.cons (.refl _) .nil))))
  have hSpaced := Doc.Alike.concat (.cons (.refl (.text " ")) (.cons hBlock .nil))
  have hSpliced := Doc.alike_splice [.text " "] [.text "begin",
    .indent (.concat [.hardLine, node.doc]), .hardLine, .text "end"] []
  exact (hSpaced.trans hSpliced).trans (Doc.alike_text_cut " " "begin" _)

theorem interchangeable_normalStep (node : Node) : Interchangeable (normalStep node) node := by
  fun_cases normalStep node with
  | case1 condition consequent otherwise hOpen =>
    refine ⟨rfl, rfl, rfl, .concat (.cons (.refl _) (.cons ?_ (.cons (.refl _) .nil)))⟩
    have hImplied : Source.consequent (some consequent) (some otherwise) consequent.doc =
        .concat [.text " begin", .indent (.concat [.hardLine, consequent.doc]), .hardLine,
          .text "end"] :=
      if_pos hOpen
    exact hImplied ▸ alike_body_block consequent
  | case2 => exact .refl _
  | case3 statements =>
    refine ⟨rfl, rfl, rfl, .concat (.cons (.refl _) (.cons ?_ (.cons (.refl _)
      (.cons (.refl _) .nil))))⟩
    exact alike_statements_enlisted statements
  | case4 declarations body =>
    refine ⟨rfl, rfl, rfl, .concat (.cons (.refl _) (.cons (.refl _) (.cons (.refl _)
      (.cons (.refl _) (.cons ?_ (.cons (.refl _) (.cons (.refl _) (.cons (.refl _) .nil))))))))⟩
    exact alike_declarations_enlisted declarations
  | case5 => exact .refl _

theorem interchangeable_normalize (tree : Node) : Interchangeable tree.normalize tree :=
  interchangeable_rewrite interchangeable_normalStep tree

/-- The node is a list of the given kind that has items. -/
def isFilled (kind : ListKind) (node : Node) : Bool :=
  node.kind == kind.kind && ! node.items.isEmpty

/-- The rule of the node implies no block and no section. -/
def isNormal : Node → Bool
  | conditional _ (some consequent) (some _) => ! consequent.endsWithOpenIf
  | compound (some statements) => statements.isFilled .statementList
  | program (some declarations) _ => declarations.isFilled .varSection
  | _ => true

theorem normalStep_eq_self {node : Node} (h : node.isNormal) : normalStep node = node := by
  fun_cases normalStep node <;> simp_all [isNormal, isFilled, enlisted]

theorem isFilled_of_mem_enlisted {kind : ListKind} {node filled : Node}
    (h : filled ∈ node.enlisted kind) : filled.isFilled kind := by
  unfold enlisted at h
  split at h
  · rename_i hKind
    split at h <;> simp_all [isFilled]
  · cases h
    simp [isFilled, Node.kind, items]

theorem isNormal_normalStep (node : Node) : (normalStep node).isNormal := by
  fun_cases normalStep node with
  | case1 => rfl
  | case2 condition consequent otherwise hOpen => simpa [isNormal] using hOpen
  | case3 statements =>
    cases hSlot : statements.enlisted .statementList with
    | none => rfl
    | some filled => exact isFilled_of_mem_enlisted hSlot
  | case4 declarations body =>
    cases hSlot : declarations.enlisted .varSection with
    | none => rfl
    | some filled => exact isFilled_of_mem_enlisted hSlot
  | case5 node hConditional hCompound hProgram =>
    unfold isNormal
    split
    · exact absurd rfl (hConditional _ _ _)
    · exact absurd rfl (hCompound _)
    · exact absurd rfl (hProgram _ _)
    · rfl

section
variable {property : Node → Prop}

theorem everywhere_list {kind : ListKind} {items : List Node} (hSelf : property (list kind items))
    (hItems : ∀ item ∈ items, item.Everywhere property) : (list kind items).Everywhere property :=
  .intro hSelf fun child hChild =>
    hItems child (by simpa [children, slots, Node.items] using hChild)

theorem everywhere_of_mem_enlisted {kind : ListKind} {node filled : Node}
    (hLone : property (list kind [node])) (hNode : node.Everywhere property)
    (h : filled ∈ node.enlisted kind) : filled.Everywhere property := by
  unfold enlisted at h
  split at h
  · split at h
    · cases h
    · cases h
      exact hNode
  · cases h
    exact everywhere_list hLone fun item hItem => List.mem_singleton.mp hItem ▸ hNode

end

/-- The nodes that a step adds are normal, and what stands below them stood below the node. -/
theorem everywhere_normalStep {node : Node}
    (h : ∀ child ∈ node.children, child.Everywhere fun other => other.isNormal) :
    (normalStep node).Everywhere fun other => other.isNormal := by
  refine .intro (isNormal_normalStep node) fun child hChild => ?_
  have hSlot := fun (child : Node) (hMem : some child ∈ node.slots) =>
    h child (mem_children_iff.mpr (.inl hMem))
  fun_cases normalStep node with
  | case1 condition consequent otherwise hOpen =>
    have hConsequent := hSlot consequent (by simp [slots])
    have hList : (list .statementList [consequent]).Everywhere fun other => other.isNormal :=
      everywhere_list rfl fun item hItem => List.mem_singleton.mp hItem ▸ hConsequent
    have hBlock : (Build.compound [consequent]).Everywhere fun other => other.isNormal :=
      .intro rfl <| by
        simpa [Build.compound, Build.statementList, children, slots, items] using hList
    rw [normalStep, if_pos hOpen] at hChild
    rcases mem_children_iff.mp hChild with hMem | hMem
    · simp only [slots, List.mem_cons, Option.some.injEq, List.not_mem_nil, or_false] at hMem
      rcases hMem with hCondition | rfl | rfl
      · exact hSlot child (by simp [slots, hCondition])
      · exact hBlock
      · exact hSlot child (by simp [slots])
    · cases hMem
  | case2 condition consequent otherwise hClosed =>
    rw [normalStep, if_neg hClosed] at hChild
    exact h child hChild
  | case3 statements =>
    have hEnlisted : child ∈ statements.enlisted .statementList := by
      simpa [normalStep, children, slots, items, eq_comm] using hChild
    exact everywhere_of_mem_enlisted rfl (hSlot statements (by simp [slots])) hEnlisted
  | case4 declarations body =>
    rcases mem_children_iff.mp hChild with hMem | hMem
    · simp only [normalStep, slots, List.mem_cons, List.not_mem_nil, or_false] at hMem
      rcases hMem with hDeclarations | hBody
      · exact everywhere_of_mem_enlisted rfl (hSlot declarations (by simp [slots]))
          hDeclarations.symm
      · exact hSlot child (by simp [slots, hBody])
    · cases hMem
  | case5 node hConditional hCompound hProgram =>
    rw [normalStep] at hChild
    · exact h child hChild
    all_goals assumption

theorem everywhere_normalize (tree : Node) :
    tree.normalize.Everywhere fun node => node.isNormal := by
  induction tree using inductionOn with
  | step tree ih =>
    rw [normalize, rewrite_eq]
    refine everywhere_normalStep fun child hChild => ?_
    rw [children_mapChildren] at hChild
    obtain ⟨original, hOriginal, rfl⟩ := List.mem_map.mp hChild
    exact ih original hOriginal

theorem normalize_eq_self {tree : Node} (h : tree.Everywhere fun node => node.isNormal) :
    tree.normalize = tree :=
  rewrite_eq_self (fun _ => normalStep_eq_self) h

end Node

/-- A tree and its normal form have the same source in every style, or fail alike. A normal form is
its own normal form, and none of its branches takes the `else` behind it. -/
theorem render_normalize (style : Style) (tree : Node) :
    render style (some tree.normalize) = render style (some tree) ∧
      tree.normalize.normalize = tree.normalize ∧
      tree.normalize.Everywhere fun node => ∀ condition consequent otherwise,
        node = .conditional condition (some consequent) (some otherwise) →
          ¬ consequent.endsWithOpenIf := by
  have hNormal := tree.everywhere_normalize
  refine ⟨?_, Node.normalize_eq_self hNormal, hNormal.imp ?_⟩
  · exact render_congr (Node.alike_slotDoc (.some tree.interchangeable_normalize)) style
  · rintro node hNode condition consequent otherwise rfl
    simpa [Node.isNormal] using hNode

end PascalTree

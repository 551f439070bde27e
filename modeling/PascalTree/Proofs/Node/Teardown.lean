import PascalTree.Node.Build
import PascalTree.Node.Edit
import PascalTree.Proofs.Node.Walk
import PascalTree.Released

/-! # Teardown and tree view meet the same nodes

Counts are checked at every addition. Because partial sums only grow, a chain of additions fails
exactly if its exact total is out of range, in whatever order it is made. Tearing a tree down takes
the children out of their slots one by one, then the items, and so counts every node of the walk
once. The tree view has one line for each of them.
-/
namespace PascalTree
set_option autoImplicit false

namespace Released

def IsInRange (total : Released) : Prop := total.nodes < limit ∧ total.texts < limit

instance (total : Released) : Decidable total.IsInRange :=
  inferInstanceAs (Decidable (total.nodes < limit ∧ total.texts < limit))

/-- A total that is out of range is a fault. -/
def checked (total : Released) : Except Fault Released :=
  if total.IsInRange then .ok total else .error .overflow

/-- The exact counts of nodes with the given labels. -/
def ofLabels (labels : List Label) : Released :=
  ⟨labels.length, labels.countP (·.kind.ownsText)⟩

theorem isInRange_ofLabels_iff (labels : List Label) :
    (ofLabels labels).IsInRange ↔ labels.length < limit := by
  have hTexts : labels.countP (·.kind.ownsText) ≤ labels.length := List.countP_le_length
  simp only [IsInRange, ofLabels]
  omega

theorem add_ofLabels (first second : List Label) :
    (ofLabels first).add (ofLabels second) = checked (ofLabels (first ++ second)) := by
  have hSum : ofLabels (first ++ second) =
      ⟨(ofLabels first).nodes + (ofLabels second).nodes,
        (ofLabels first).texts + (ofLabels second).texts⟩ := by
    simp [ofLabels]
  rw [hSum]
  rfl

theorem add_comm (first second : Released) : first.add second = second.add first := by
  rw [add, add, Nat.add_comm first.nodes, Nat.add_comm first.texts]

/-- Adds up parts that may themselves be faults. -/
def addAll (start : Released) (parts : List (Except Fault Released)) : Except Fault Released :=
  parts.foldlM (fun total part => do total.add (← part)) start

/-- A part that is out of range by itself is so together with what was added before. -/
theorem add_checked (seen labels : List Label) :
    (checked (ofLabels labels)).bind (ofLabels seen).add =
      checked (ofLabels (seen ++ labels)) := by
  rw [checked]
  split
  · exact add_ofLabels seen labels
  · rename_i hPart
    rw [checked, if_neg]
    · rfl
    · rw [isInRange_ofLabels_iff] at hPart ⊢
      rw [List.length_append]
      omega

theorem addAll_checked {seen : List Label} (hSeen : (ofLabels seen).IsInRange)
    (parts : List (List Label)) :
    addAll (ofLabels seen) (parts.map fun labels => checked (ofLabels labels)) =
      checked (ofLabels (seen ++ parts.flatten)) := by
  induction parts generalizing seen with
  | nil =>
    rw [List.flatten_nil, List.append_nil, checked, if_pos hSeen]
    rfl
  | cons labels parts ih =>
    have hCons : addAll (ofLabels seen) ((labels :: parts).map fun labels =>
        checked (ofLabels labels)) = ((checked (ofLabels labels)).bind (ofLabels seen).add).bind
          fun total => addAll total (parts.map fun labels => checked (ofLabels labels)) := rfl
    rw [hCons, add_checked, List.flatten_cons, ← List.append_assoc]
    by_cases hNext : (ofLabels (seen ++ labels)).IsInRange
    · rw [checked, if_pos hNext]
      exact ih hNext
    · rw [checked, if_neg hNext, checked, if_neg]
      · rfl
      · rw [isInRange_ofLabels_iff] at hNext ⊢
        rw [List.length_append]
        omega

end Released

namespace Node

/-- Takes the contents of the first slots out, one slot after the other. -/
def takeChildren (node : Node) : Nat → List Node × Node
  | 0 => ([], node)
  | count + 1 =>
    let (taken, rest) := node.takeChildren count
    let (child, emptied) := rest.takeChild count
    (taken ++ child.toList, emptied)

theorem takeChildren_eq (node : Node) {count : Nat} (h : count ≤ node.slots.length) :
    node.takeChildren count =
      ((node.slots.take count).filterMap id,
        node.withSlots fun index => if index < count then none else node.child index) := by
  induction count with
  | zero => simp [takeChildren]
  | succ count ih =>
    rw [takeChildren, ih (Nat.le_of_lt h)]
    dsimp only [takeChild]
    rw [child_withSlots node _ h, if_neg (Nat.lt_irrefl count)]
    congr 1
    · rw [List.take_add_one, List.filterMap_append, child]
      cases node.slots[count]? with
      | none => rfl
      | some slot => cases slot <;> rfl
    · rw [assignSlot, withSlots_withSlots]
      refine node.withSlots_congr fun index hIndex => ?_
      rw [child_withSlots node _ hIndex]
      by_cases hSame : index = count
      · rw [if_pos hSame, if_pos (by omega)]
      · by_cases hBefore : index < count
        · rw [if_neg hSame, if_pos hBefore, if_pos (by omega)]
        · rw [if_neg hSame, if_neg hBefore, if_neg (by omega)]

/-- Emptying all slots and then the list takes out every child once and in order. -/
theorem takeChildren_arity (node : Node) :
    (node.takeChildren node.kind.arity).1 ++ (node.takeChildren node.kind.arity).2.items =
      node.children := by
  rw [takeChildren_eq node (Nat.le_of_eq node.length_slots.symm), ← length_slots, List.take_length,
    items_withSlots, children]

theorem release_eq (node : Node) :
    node.release = (Released.addAll .zero (((node.takeChildren node.kind.arity).1 ++
      (node.takeChildren node.kind.arity).2.items).map release)).bind
        fun below => below.add (.ofKind node.kind) := by
  rw [takeChildren_arity, release, fold_eq, children, List.map_append, List.map_filterMap,
    List.filterMap_map]
  rfl

/-- Teardown counts the labels of the tree, and fails exactly if there are too many. -/
theorem release_eq_checked (node : Node) :
    node.release = Released.checked (.ofLabels node.preorder) := by
  induction node using inductionOn with
  | step node ih =>
    have hParts : node.children.map release =
        (node.children.map preorder).map fun labels => Released.checked (.ofLabels labels) := by
      rw [List.map_map]
      exact List.map_congr_left ih
    have hBelow : Released.addAll .zero (node.children.map release) =
        Released.checked (.ofLabels (node.children.flatMap preorder)) := by
      rw [hParts, List.flatMap_def]
      exact @Released.addAll_checked [] (by decide) _
    have hSelf : Released.ofKind node.kind = .ofLabels [node.label] := by
      simp [Released.ofKind, Released.ofLabels, List.countP_cons, label]
    rw [release_eq, takeChildren_arity, hBelow, preorder_eq, hSelf]
    simp only [Released.add_comm _ (.ofLabels [node.label])]
    exact Released.add_checked [node.label] _

end Node

/-- The line has three characters for each node above, then a connector, and then it describes the
node. -/
def Visit.IsShownBy (visit : Visit) (line : String) : Prop :=
  ∃ (margin : String) (isLast : Bool), margin.length = 3 * visit.level ∧
    line = margin ++ Diagram.Line.connector isLast ++ slotTag visit.slot ++ visit.label.caption

theorem Node.forall₂_isShownBy (tree : Node) :
    List.Forall₂ Visit.IsShownBy (tree.walk 0 none)
      ((tree.diagram.lines [] true).map Diagram.Line.text) := by
  have hLines := Diagram.map_lines [] true tree.diagram
  have hWalk := tree.outline_diagram 0 none
  rw [Diagram.inSlot_none] at hWalk
  rw [List.forall₂_map_right_iff]
  refine forall₂_of_map_eq (hLines.trans hWalk).symm fun visit _ line _ hLine => ?_
  obtain ⟨hLevel, hCaption⟩ := Prod.mk.inj hLine
  refine ⟨String.join (line.rails.map Diagram.Line.rail), line.isLast, ?_, ?_⟩
  · rw [Diagram.Line.length_rails, hLevel]
  · simp only [Diagram.Line.text, ← hCaption, String.append_assoc]

/-- Tearing a tree down counts its nodes and its texts. The tree view has as many lines as there
were nodes, and its lines show the nodes in the order of the walk. -/
theorem destroy_eq_lines_view (tree : Node) (hSize : tree.preorder.length < Released.limit) :
    Node.destroy (some tree) = .ok ⟨tree.preorder.length, tree.preorder.countP fun label =>
        label.kind = .identifier ∨ label.kind = .string⟩ ∧
      ((∀ payload ∈ tree.payloads, ∀ text ∈ payload.text, '\n' ∉ text.toList) →
        ∃ lines, IsLines tree.view lines ∧ lines.length = tree.preorder.length ∧
          (tree.walk 0 none).map Visit.label = tree.preorder ∧
          List.Forall₂ Visit.IsShownBy (tree.walk 0 none) lines) := by
  constructor
  · have hTexts (label : Label) :
        label.kind.ownsText = decide (label.kind = .identifier ∨ label.kind = .string) := by
      cases label.kind <;> rfl
    have hRange := (Released.isInRange_ofLabels_iff tree.preorder).mpr hSize
    rw [Node.destroy, tree.release_eq_checked, Released.checked, if_pos hRange, ← funext hTexts]
    rfl
  · intro hUnbroken
    have hShown := tree.forall₂_isShownBy
    have hWalk := tree.map_label_walk 0 none
    refine ⟨_, Diagram.isLines_text (Node.not_mem_outline_diagram hUnbroken), ?_, hWalk, hShown⟩
    rw [← hShown.length_eq, ← hWalk, List.length_map]

/-- A call with two arguments and the three lines below its own. -/
theorem destroy_eq_lines_view_call :
    (Build.write (Build.expressionList [Build.identifier "a", Build.string "'b'"])).view =
      "╰─ Write\n   ╰─ Argument: Expression List\n      ├─ Identifier (a)\n      ╰─ String 'b'\n" ∧
      Node.destroy (some (Build.write (Build.expressionList
        [Build.identifier "a", Build.string "'b'"]))) = .ok ⟨4, 2⟩ ∧
      ∃ lines, IsLines (Build.write (Build.expressionList
        [Build.identifier "a", Build.string "'b'"])).view lines ∧ lines.length = 4 := by
  obtain ⟨hDestroy, hLines⟩ := destroy_eq_lines_view (Build.write (Build.expressionList
    [Build.identifier "a", Build.string "'b'"])) (by decide)
  obtain ⟨lines, hView, hLength, -, -⟩ := hLines (by decide)
  exact ⟨rfl, hDestroy, lines, hView, hLength⟩

end PascalTree

import Mathlib.Order.Nat
import PascalTree.Node.Build
import PascalTree.Proofs.Layout.Depth
import PascalTree.Proofs.Layout.Nesting
import PascalTree.Proofs.Node.Height

/-! # How far a tree is indented

The levels of a tree are told from the tree alone: what stands on lines of its own below a keyword
is one level deeper. There are as many levels as the document is nested deep, and no more than nodes
on the longest path down. So a low tree can always be printed, and without calls the levels decide
which indentations are too wide for it.
-/
namespace PascalTree
set_option autoImplicit false

namespace Node

def isBlock : Node → Bool
  | compound _ => true
  | _ => false

def isConditional : Node → Bool
  | conditional .. => true
  | _ => false

def isEmptyList (kind : ListKind) : Node → Bool
  | list other [] => other = kind
  | _ => false

/-- The branch is put in a block, so that it does not take the `else` behind it. -/
def isGuarded (consequent otherwise : Option Node) : Bool :=
  otherwise.isSome && consequent.any endsWithOpenIf

/-- One level more for what stands on lines of its own. -/
def deeper (apart : Bool) (levels : Nat) : Nat := if apart then levels + 1 else levels

mutual
/-- The deepest level at which a line is broken for the sake of the tree. A call opens a level for
its argument, whether or not it uses it. -/
def levels : Node → Nat
  | leaf _ => 0
  | list _ items => itemLevels items
  | program declarations body =>
    max (deeper (declarations.any (! isEmptyList .varSection ·)) (slotLevels declarations))
      (slotLevels body)
  | declaration identifiers typing => max (slotLevels identifiers) (slotLevels typing)
  | type lower upper element =>
    if lower.isSome then max (slotLevels lower) (max (slotLevels upper) (slotLevels element))
    else slotLevels element
  | compound statements =>
    deeper (statements.any (! isEmptyList .statementList ·)) (slotLevels statements)
  | call _ argument => slotLevels argument + 1
  | assign target position value =>
    max (slotLevels target) (max (slotLevels position) (slotLevels value))
  | conditional condition consequent otherwise =>
    max (slotLevels condition)
      (max (deeper (isGuarded consequent otherwise || consequent.any (! isBlock ·))
          (slotLevels consequent))
        (deeper (otherwise.any fun branch => ! isBlock branch && ! isConditional branch)
          (slotLevels otherwise)))
  | whileLoop condition body =>
    max (slotLevels condition) (deeper (body.any (! isBlock ·)) (slotLevels body))
  | forLoop counter start direction stop body =>
    max (slotLevels counter) (max (slotLevels start) (max (slotLevels direction)
      (max (slotLevels stop) (deeper (body.any (! isBlock ·)) (slotLevels body)))))
  | expression left operator right =>
    max (slotLevels left) (max (slotLevels operator) (slotLevels right))
  | subscript identifier index => max (slotLevels identifier) (slotLevels index)
  | unary _ operand => slotLevels operand

def slotLevels : Option Node → Nat
  | none => 0
  | some node => levels node

def itemLevels : List Node → Nat
  | [] => 0
  | node :: rest => max (levels node) (itemLevels rest)
end

theorem itemLevels_eq (items : List Node) : itemLevels items = (items.map levels).foldr max 0 := by
  induction items with
  | nil => rfl
  | cons item rest ih => rw [itemLevels, ih, List.map_cons, List.foldr_cons]

theorem deeper_le (apart : Bool) (levels : Nat) : deeper apart levels ≤ levels + 1 := by
  unfold deeper
  split <;> omega

theorem levels_le_height (node : Node) : node.levels ≤ node.height := by
  induction node using inductionOn with
  | step node ih =>
    have hSlot : ∀ slot ∈ node.slots, slotLevels slot < node.height := by
      rintro (_ | child) hMem
      · exact slotHeight_lt_of_mem_slots hMem
      · have hChild := ih child (mem_children_iff.mpr (.inl hMem))
        exact Nat.lt_of_le_of_lt hChild (slotHeight_lt_of_mem_slots hMem)
    have hDeeper : ∀ slot ∈ node.slots, ∀ apart,
        deeper apart (slotLevels slot) ≤ node.height := fun slot hMem apart =>
      (deeper_le apart _).trans (hSlot slot hMem)
    cases node with
    | leaf payload => exact Nat.zero_le _
    | list kind items =>
      rw [levels, itemLevels_eq]
      refine List.max_le_of_forall_le (items.map levels) _ (List.forall_mem_map.mpr ?_)
      intro item hItem
      have hMem : item ∈ (list kind items).children := mem_children_iff.mpr (.inr hItem)
      exact (ih item hMem).trans (Nat.le_of_lt (height_lt_of_mem_children hMem))
    | type lower upper element =>
      simp only [slots, List.forall_mem_cons] at hSlot
      rw [levels]
      split <;> omega
    | _ =>
      simp only [slots, List.forall_mem_cons] at hSlot hDeeper
      simp only [levels, Nat.max_le]
      grind

end Node

namespace Source

open Doc Node

theorem steps_nextLine_of_filled {kind : ListKind} {node : Node}
    (hFilled : node ≠ .list kind []) {printed : Doc} {levels : Nat}
    (h : Steps printed (levels + 1)) :
    Steps printed (deeper (! isEmptyList kind node) levels) := by
  have hApart : isEmptyList kind node = false := by
    unfold isEmptyList
    split
    · rw [decide_eq_false_iff_not]
      rintro rfl
      exact hFilled rfl
    · rfl
  rwa [hApart]

section
variable {slot : Option Node} (h : Steps (slotDoc slot) (slotLevels slot))

theorem steps_leaf (payload : Payload) : Steps (leaf payload) 0 := by
  cases payload <;> exact steps_of_nesting_eq_zero rfl

include h

theorem steps_body :
    Steps (body slot (slotDoc slot)) (deeper (slot.any (! isBlock ·)) (slotLevels slot)) := by
  rw [body.eq_def]
  split
  · exact h
  · exact (steps_text " ").cons_flat h.single
  · rename_i node hBlock
    have hApart : isBlock node = false := by
      cases node with
      | compound statements => exact absurd rfl (hBlock statements)
      | _ => rfl
    simpa [deeper, hApart] using h.nextLine

theorem steps_declarations :
    Steps (declarations slot (slotDoc slot))
      (deeper (slot.any (! isEmptyList .varSection ·)) (slotLevels slot)) := by
  have hUnderVar {printed : Doc} {levels : Nat} (h : Steps printed levels) :
      Steps (declarations.underVar printed) (levels + 1) :=
    (steps_text "var").cons_flat (h.nextLine.cons_end steps_hardLine.single)
  rw [declarations.eq_def]
  split
  · exact h
  · exact steps_of_nesting_eq_zero rfl
  · rename_i items hFilled
    exact steps_nextLine_of_filled (by simpa using hFilled) (hUnderVar h)
  · rename_i node hFilled _
    exact steps_nextLine_of_filled hFilled (hUnderVar (h.cons_end (steps_text ";").single))

theorem steps_block :
    Steps (block (statements slot (slotDoc slot)))
      (deeper (slot.any (! isEmptyList .statementList ·)) (slotLevels slot)) := by
  refine (steps_text "begin").cons_flat (Steps.cons_end ?_ (steps_hardLine.cons_flat
    (steps_text "end").single))
  rw [statements.eq_def]
  split
  · exact h
  · exact steps_of_nesting_eq_zero rfl
  · rename_i node hFilled
    exact steps_nextLine_of_filled hFilled h.nextLine

theorem steps_position : Steps (position slot (slotDoc slot)) (slotLevels slot) := by
  rw [position.eq_def]
  split
  · exact h
  · exact (steps_text "[").cons_flat (h.cons_end (steps_text "]").single)

theorem steps_consequent (other : Option Node) :
    Steps (consequent slot other (slotDoc slot))
      (deeper (isGuarded slot other || slot.any (! isBlock ·)) (slotLevels slot)) := by
  rw [consequent]
  change Steps (if isGuarded slot other then _ else _) _
  cases isGuarded slot other with
  | true =>
    exact (steps_text " begin").cons_flat (h.nextLine.cons_end (steps_hardLine.cons_flat
      (steps_text "end").single))
  | false => exact steps_body h

theorem steps_otherwise :
    Steps (otherwise slot (slotDoc slot))
      (deeper (slot.any fun branch => ! isBlock branch && ! isConditional branch)
        (slotLevels slot)) := by
  rw [otherwise.eq_def]
  split
  · exact h
  · exact steps_hardLine.cons_flat ((steps_text "else").cons_flat
      ((steps_text " ").cons_flat h.single).single)
  · rename_i node hBranch
    have hConditional : isConditional node = false := by
      cases node with
      | conditional condition consequent otherwise =>
        exact absurd rfl (hBranch condition consequent otherwise)
      | _ => rfl
    rw [Option.any_some, hConditional, Bool.not_false, Bool.and_true]
    exact steps_hardLine.cons_flat ((steps_text "else").cons_flat (steps_body h).single)

theorem steps_call (routine : Routine) :
    Steps (call routine (slotDoc slot)) (slotLevels slot + 1) := by
  constructor
  · simp [call, Doc.nesting, maxNesting, h.nesting]
  · exact fun hPlain => absurd hPlain Bool.false_ne_true

theorem steps_unary (form : UnaryForm) : Steps (unary form (slotDoc slot)) (slotLevels slot) := by
  cases form with
  | not => exact (steps_text "not ").cons_flat h.single
  | negate => exact (steps_text "- ").cons_flat h.single
  | group => exact (steps_text "(").cons_flat (h.cons_end (steps_text ")").single)

end

theorem steps_type {lower upper element : Option Node}
    (hLower : Steps (slotDoc lower) (slotLevels lower))
    (hUpper : Steps (slotDoc upper) (slotLevels upper))
    (hElement : Steps (slotDoc element) (slotLevels element)) :
    Steps (type lower (slotDoc lower) (slotDoc upper) (slotDoc element))
      (levels (.type lower upper element)) := by
  rw [type.eq_def, levels]
  split
  · exact hElement
  · exact (steps_text "array [").cons_flat (hLower.cons ((steps_text "..").cons_flat
      (hUpper.cons ((steps_text "] of ").cons_flat hElement.single))))

theorem steps_list {kind : ListKind} {items : List Node}
    (h : ∀ item ∈ items, Steps item.doc item.levels) :
    Steps (list kind (itemDocs items)) (itemLevels items) := by
  have hItems : List.Forall₂ Steps (items.map Node.doc) (items.map levels) := by
    rwa [List.forall₂_map_left_iff, List.forall₂_map_right_iff, List.forall₂_same]
  rw [itemLevels_eq, itemDocs_eq]
  cases kind with
  | varSection =>
    refine Steps.join rfl ?_
    rw [List.forall₂_map_left_iff]
    exact hItems.imp fun _ _ hItem => hItem.cons_end (steps_text ";").single
  | identifierList => exact .join rfl hItems
  | statementList => exact .join rfl hItems
  | expressionList => exact .join rfl hItems

end Source

namespace Node

open Doc

/-- The levels of a tree are those that its document is nested deep. -/
theorem steps_doc (node : Node) : Steps node.doc node.levels := by
  induction node using inductionOn with
  | step node ih =>
    have hSlot : ∀ slot ∈ node.slots, Steps (slotDoc slot) (slotLevels slot) := by
      rintro (_ | child) hMem
      · exact steps_of_nesting_eq_zero rfl
      · exact ih child (mem_children_iff.mpr (.inl hMem))
    cases node with
    | leaf payload => exact Source.steps_leaf payload
    | list kind items =>
      exact Source.steps_list fun item hItem => ih item (mem_children_iff.mpr (.inr hItem))
    | program declarations body =>
      simp only [slots, List.forall_mem_cons] at hSlot
      obtain ⟨hDeclarations, hBody, -⟩ := hSlot
      exact (steps_text _).cons_flat ((steps_text _).cons_flat ((steps_text _).cons_flat
        (steps_hardLine.cons_flat ((Source.steps_declarations hDeclarations).cons
          (hBody.cons_end ((steps_text _).cons_flat steps_hardLine.single))))))
    | declaration identifiers typing =>
      simp only [slots, List.forall_mem_cons] at hSlot
      obtain ⟨hIdentifiers, hTyping, -⟩ := hSlot
      exact hIdentifiers.cons ((steps_text _).cons_flat hTyping.single)
    | type lower upper element =>
      simp only [slots, List.forall_mem_cons] at hSlot
      obtain ⟨hLower, hUpper, hElement, -⟩ := hSlot
      exact Source.steps_type hLower hUpper hElement
    | compound statements => exact Source.steps_block (hSlot statements List.mem_cons_self)
    | call routine argument =>
      exact Source.steps_call (hSlot argument List.mem_cons_self) routine
    | assign target position value =>
      simp only [slots, List.forall_mem_cons] at hSlot
      obtain ⟨hTarget, hPosition, hValue, -⟩ := hSlot
      exact hTarget.cons ((Source.steps_position hPosition).cons
        ((steps_text _).cons_flat hValue.single))
    | conditional condition consequent otherwise =>
      simp only [slots, List.forall_mem_cons] at hSlot
      obtain ⟨hCondition, hConsequent, hOtherwise, -⟩ := hSlot
      exact ((steps_text _).cons_flat (hCondition.cons_end (steps_text _).single)).cons
        ((Source.steps_consequent hConsequent otherwise).cons
          (Source.steps_otherwise hOtherwise).single)
    | whileLoop condition body =>
      simp only [slots, List.forall_mem_cons] at hSlot
      obtain ⟨hCondition, hBody, -⟩ := hSlot
      exact (steps_text _).cons_flat (hCondition.cons ((steps_text _).cons_flat
        (Source.steps_body hBody).single))
    | forLoop counter start direction stop body =>
      simp only [slots, List.forall_mem_cons] at hSlot
      obtain ⟨hCounter, hStart, hDirection, hStop, hBody, -⟩ := hSlot
      exact (steps_text _).cons_flat (hCounter.cons ((steps_text _).cons_flat (hStart.cons
        (hDirection.cons (hStop.cons ((steps_text _).cons_flat
          (Source.steps_body hBody).single))))))
    | expression left operator right =>
      simp only [slots, List.forall_mem_cons] at hSlot
      obtain ⟨hLeft, hOperator, hRight, -⟩ := hSlot
      exact hLeft.cons (hOperator.cons hRight.single)
    | subscript identifier index =>
      simp only [slots, List.forall_mem_cons] at hSlot
      obtain ⟨hIdentifier, hIndex, -⟩ := hSlot
      exact hIdentifier.cons ((steps_text _).cons_flat (hIndex.cons_end (steps_text _).single))
    | unary form operand => exact Source.steps_unary (hSlot operand List.mem_cons_self) form

theorem nesting_doc (node : Node) : node.doc.nesting = node.levels := node.steps_doc.nesting

end Node

theorem exists_source_iff (style : Style) (tree : Node) :
    (∃ source, render style (some tree) = .ok source) ↔ tree.levels ≤ depthLimit ∧
      ∀ depth, Piece.newline depth ∈ tree.doc.layout style 0 0 true →
        style.indentation.isPrintable depth := by
  simp only [render_eq_ok_iff, Node.slotDoc, tree.nesting_doc, List.all_eq_true]
  constructor
  · rintro ⟨source, hLevels, hPrintable, -⟩
    exact ⟨hLevels, fun depth hDepth => hPrintable (.newline depth) hDepth⟩
  · rintro ⟨hLevels, hPrintable⟩
    refine ⟨_, hLevels, ?_, rfl⟩
    rintro (content | depth) hPiece
    · rfl
    · exact hPrintable depth hPiece

theorem exists_fault_iff {outcome : Except Fault String} :
    (∃ fault, outcome = .error fault) ↔ ¬ ∃ source, outcome = .ok source := by
  cases outcome <;> simp

theorem isPrintable_spaces {count : UInt16} {depth bound : Nat}
    (h : count.toNat * bound ≤ Indentation.paddingLimit) (hDepth : depth ≤ bound) :
    (Indentation.spaces count).isPrintable depth :=
  decide_eq_true ((Nat.mul_le_mul_left _ hDepth).trans h)

/-- Every level is printed when there are no calls, so what the deepest one takes is decisive. -/
theorem exists_fault_iff_of_spaces {style : Style} {tree : Node} {count : UInt16}
    (hStyle : style.indentation = .spaces count) (hLevels : tree.levels ≤ depthLimit)
    (hKinds : ∀ label ∈ tree.preorder, label.kind ≠ .read ∧ label.kind ≠ .write) :
    (∃ fault, render style (some tree) = .error fault) ↔
      Indentation.paddingLimit < count.toNat * tree.levels := by
  rw [exists_fault_iff, exists_source_iff, ← Nat.not_le, not_iff_not, hStyle]
  constructor
  · rintro ⟨-, hPrintable⟩
    by_cases hNone : tree.levels = 0
    · rw [hNone]
      exact Nat.zero_le _
    · have hPlain := tree.isPlain_doc fun label hLabel =>
        Kind.isPlain_of_ne (hKinds label hLabel).1 (hKinds label hLabel).2
      have hReaches := tree.steps_doc.reaches hPlain (Nat.pos_of_ne_zero hNone) style 0 0 true
      rw [Nat.zero_add] at hReaches
      exact of_decide_eq_true (hPrintable tree.levels hReaches)
  · intro hPadding
    refine ⟨hLevels, fun depth hDepth => isPrintable_spaces hPadding ?_⟩
    have hNested := Doc.depth_le_of_mem_layout hDepth
    rwa [tree.nesting_doc, Nat.zero_add] at hNested

/-- A tree that is not too high is nested no deeper than it is high, so tabs always print it, and so
do spaces that reach no further than the padding does at its height. Without calls, spaces print it
unless they reach further at the deepest of its levels. -/
theorem render_of_height_le {tree : Node} (hHeight : tree.height ≤ 65535) (style : Style) :
    (∀ depth, Piece.newline depth ∈ tree.doc.layout style 0 0 true → depth ≤ tree.height) ∧
      tree.doc.nesting ≤ depthLimit ∧ render style (some tree) ≠ .error .overflow ∧
      (style.indentation = .tab → ∃ source, render style (some tree) = .ok source) ∧
      ∀ count, style.indentation = .spaces count →
        (count.toNat * tree.height ≤ 65535 → ∃ source, render style (some tree) = .ok source) ∧
        ((∀ label ∈ tree.preorder, label.kind ≠ .read ∧ label.kind ≠ .write) →
          ((∃ fault, render style (some tree) = .error fault) ↔
            65535 < count.toNat * tree.levels)) := by
  have hLevels : tree.levels ≤ depthLimit := tree.levels_le_height.trans hHeight
  have hNesting : tree.doc.nesting ≤ depthLimit := by rwa [tree.nesting_doc]
  have hDepths : ∀ depth, Piece.newline depth ∈ tree.doc.layout style 0 0 true →
      depth ≤ tree.height := by
    intro depth hDepth
    have hNested := Doc.depth_le_of_mem_layout hDepth
    rw [tree.nesting_doc, Nat.zero_add] at hNested
    exact hNested.trans tree.levels_le_height
  refine ⟨hDepths, hNesting, ?_, ?_, ?_⟩
  · rw [render, Node.slotDoc, if_pos hNesting, Layout.write]
    split <;> simp
  · intro hTab
    rw [exists_source_iff, hTab]
    exact ⟨hLevels, fun _ _ => rfl⟩
  · intro count hStyle
    refine ⟨fun hPadding => ?_, exists_fault_iff_of_spaces hStyle hLevels⟩
    rw [exists_source_iff, hStyle]
    exact ⟨hLevels, fun depth hDepth => isPrintable_spaces hPadding (hDepths depth hDepth)⟩

/-- Two loops, one in the other. -/
def Build.nestedLoops : Node :=
  whileLoop (identifier "a") (whileLoop (identifier "b") (assign (identifier "c") none (integer 0)))

/-- Two loops in each other are too much for 32768 spaces a level, and not for one space less. -/
theorem render_of_height_le_loops :
    Build.nestedLoops.height = 4 ∧ Build.nestedLoops.levels = 2 ∧
      (∃ fault,
        render { indentation := .spaces 32768 } (some Build.nestedLoops) = .error fault) ∧
      ¬ ∃ fault,
        render { indentation := .spaces 32767 } (some Build.nestedLoops) = .error fault := by
  have hHeight : Build.nestedLoops.height ≤ 65535 := by decide
  have hWide := ((render_of_height_le hHeight { indentation := .spaces 32768 }).2.2.2.2 _ rfl).2
    (by decide)
  have hNarrow := ((render_of_height_le hHeight { indentation := .spaces 32767 }).2.2.2.2 _ rfl).2
    (by decide)
  exact ⟨rfl, rfl, hWide.mpr (by decide), fun hFault => absurd (hNarrow.mp hFault) (by decide)⟩

end PascalTree

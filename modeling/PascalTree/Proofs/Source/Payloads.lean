import PascalTree.Node.Build
import PascalTree.Proofs.Node.Rewrite
import PascalTree.Proofs.Source.Woven

/-! # Payloads are printed as they are

A page has the payloads of a tree in preorder, each once, with filler between them. The filler does
not depend on what the payloads say but on how long they are.
-/
namespace PascalTree
set_option autoImplicit false

namespace Node

open Doc Source

/-- There is no upper bound without a lower one. -/
def isBounded : Node → Bool
  | type none (some _) _ => false
  | _ => true

section
variable {ι : Type}

/-- All families with the shape of the node are woven. -/
def IsWoven (ι : Type) (node : Node) : Prop :=
  ∀ nodes : ι → Node, (∀ i, (nodes i).shape = node.shape) →
    Woven (fun i => (nodes i).doc) fun i => (nodes i).spellings

theorem wovenSlots {slot : Option Node} {slots : ι → Option Node}
    (h : ∀ node ∈ slot, node.IsWoven ι) (hSlots : ∀ i, (slots i).map shape = slot.map shape) :
    WovenSlots slots := by
  rcases eq_none_or_exists_some hSlots with ⟨rfl, rfl⟩ | ⟨node, nodes, rfl, rfl, hShape⟩
  · exact woven_fixed .empty
  · exact h node rfl nodes hShape

theorem wovenAll_items {items : List Node} {families : ι → List Node}
    (h : ∀ item ∈ items, item.IsWoven ι)
    (hItems : ∀ i, (families i).map shape = items.map shape) :
    WovenAll (fun i => itemDocs (families i)) fun i => (families i).flatMap spellings := by
  induction items generalizing families with
  | nil =>
    obtain rfl : families = fun _ => [] := funext fun i => List.map_eq_nil_iff.mp (hItems i)
    exact .nil
  | cons item rest ih =>
    rw [List.forall_mem_cons] at h
    obtain ⟨nodes, others, rfl, hNodes, hOthers⟩ := exists_cons_of_map_shape_eq hItems
    exact .cons (h.1 nodes hNodes) (ih h.2 hOthers)

theorem isWoven_leaf [Inhabited ι] (payload : Payload) : (leaf payload).IsWoven ι := by
  intro nodes hShape
  obtain ⟨payloads, rfl, hPayloads⟩ := exists_leaf_of_shape_eq hShape
  have hSize : ∀ i j, (payloads i).spelling.utf8ByteSize = (payloads j).spelling.utf8ByteSize :=
    fun i j => (hPayloads i).2.trans (hPayloads j).2.symm
  have hTexts : ∀ i, (leaf (payloads i)).spellings = [(payloads i).spelling] :=
    fun i => spellings_eq _
  simp only [doc, hTexts]
  exact woven_leaf (fun i => (hPayloads i).1) hSize

/-- Every rule prints all that stands in the slots of its node, or all items, in their order. -/
theorem isWoven_of_everywhere [Inhabited ι] {tree : Node}
    (h : tree.Everywhere fun node => node.isBounded) : tree.IsWoven ι := by
  induction h with
  | @intro tree hBounded hChildren ih =>
    clear hChildren
    cases hPayload : tree.payload with
    | some payload =>
      cases tree <;> cases hPayload
      exact isWoven_leaf payload
    | none =>
      intro nodes hShape
      obtain ⟨slots, items, rfl, hSlots, hItems⟩ := exists_parts_of_shape_eq hShape hPayload
      have hWoven : ∀ index, WovenSlots (slots index) := by
        intro index
        refine wovenSlots (fun node hNode => ?_) (hSlots index)
        exact ih node (mem_children_of_child hNode)
      have hAll := wovenAll_items
        (fun item hItem => ih item (mem_children_iff.mpr (.inr hItem))) hItems
      clear ih hShape hItems
      cases tree
      all_goals simp only [withSlots, withItems, doc, spellings_eq, payload, Node.slots,
        Node.items, List.flatMap_cons, List.flatMap_nil, Option.map_none, Option.toList_none,
        List.nil_append, List.append_nil]
      case leaf => cases hPayload
      case list kind contents => exact woven_list kind hAll
      case program declarations body =>
        have hEnd : (concat [.text ".", .hardLine]).Composed (· ∈ fixedTexts) := by
          simp [fixedTexts]
        have hInner := (woven_declarations (hSlots 0) (hWoven 0)).cons ((hWoven 1).cons_end hEnd)
        exact (((hInner.cons_fixed .hardLine).cons_fixed (.text (by decide))).cons_fixed
          (.text (by decide))).cons_fixed (.text (by decide))
      case declaration identifiers typing =>
        exact (hWoven 0).cons ((hWoven 1).single.cons_fixed (.text (by decide)))
      case type lower upper element =>
        refine woven_type (hSlots 0) (hWoven 0) (hWoven 1) (hWoven 2) fun hLower i => ?_
        obtain rfl : lower = none := hLower
        cases upper with
        | none => exact Option.map_eq_none_iff.mp (hSlots 1 i)
        | some => cases hBounded
      case compound statements =>
        exact woven_block (woven_statements (hSlots 0) (hWoven 0))
      case call routine argument => exact woven_call routine (hWoven 0)
      case assign target position value =>
        exact (hWoven 0).cons ((woven_position (hSlots 1) (hWoven 1)).cons
          ((hWoven 2).single.cons_fixed (.text (by decide))))
      case conditional condition consequent otherwise =>
        have hThen : (concat [.text " then"]).Composed (· ∈ fixedTexts) := by simp [fixedTexts]
        exact (((hWoven 0).cons_end hThen).cons_fixed (.text (by decide))).cons
          ((woven_consequent (hSlots 1) (hWoven 1) (hSlots 2)).cons
            (woven_otherwise (hSlots 2) (hWoven 2)).single)
      case whileLoop condition body =>
        exact ((hWoven 0).cons ((woven_body (hSlots 1) (hWoven 1)).single.cons_fixed
          (.text (by decide)))).cons_fixed (.text (by decide))
      case forLoop counter start direction stop body =>
        exact ((hWoven 0).cons (((hWoven 1).cons ((hWoven 2).cons ((hWoven 3).cons
          ((woven_body (hSlots 4) (hWoven 4)).single.cons_fixed (.text (by decide)))))).cons_fixed
            (.text (by decide)))).cons_fixed (.text (by decide))
      case expression left operator right =>
        exact (hWoven 0).cons ((hWoven 1).cons (hWoven 2).single)
      case subscript identifier index =>
        have hBracket : (concat [.text "]"]).Composed (· ∈ fixedTexts) := by simp [fixedTexts]
        exact (hWoven 0).cons (((hWoven 1).cons_end hBracket).cons_fixed (.text (by decide)))
      case unary form operand => exact woven_unary form (hWoven 0)

end

end Node

/-- The payloads of a tree without lone upper bounds are printed in preorder, with nothing but
filler around them. Every tree of the same shape is printed with the same filler. -/
theorem weave_render {style : Style} {tree : Node} {source : String}
    (hBounds : tree.Everywhere fun node => node.isBounded)
    (hSource : render style (some tree) = .ok source) :
    ∃ (first : String) (gaps : List String), gaps.length = tree.spellings.length ∧
      (∀ gap ∈ first :: gaps, IsMadeOf (Source.IsFiller style) gap) ∧
      source = weave first tree.spellings gaps ∧
      ∀ other : Node, other.shape = tree.shape →
        render style (some other) = .ok (weave first other.spellings gaps) := by
  let Family := { other : Node // other.shape = tree.shape }
  let self : Family := ⟨tree, rfl⟩
  have : Inhabited Family := ⟨self⟩
  have hWoven := Node.isWoven_of_everywhere hBounds (fun other : Family => other.val)
    fun other => other.property
  obtain ⟨cuts, hCuts, hFills⟩ := hWoven.fills style 0 0 true
  obtain ⟨hFirst, hGaps⟩ := Cut.isMadeOf_gaps hCuts
  obtain ⟨hNesting, hPrintable, rfl⟩ := (render_eq_ok_iff _ _ _).mp hSource
  refine ⟨_, _, (hFills self).length_gaps style, List.forall_mem_cons.mpr ⟨hFirst, hGaps⟩,
    (hFills self).print_eq style, fun other hShape => ?_⟩
  have hOther := hFills ⟨other, hShape⟩
  rw [render_eq_ok_iff]
  refine ⟨?_, ?_, hOther.print_eq style⟩
  · have hSame := hWoven.nesting ⟨other, hShape⟩ self
    rwa [Node.slotDoc, hSame]
  · have hSame := hOther.all_isPrintable_eq (hFills self) style
    rwa [Node.slotDoc, hSame]

namespace Build

/-- A program with an array that is never used. -/
def arrayProgram (name : String) (lower upper : Int64) (printed : String) : Node :=
  program (some (declaration (identifierList [name])
    (arrayType (integer lower) (integer upper) .real))) (compound [write (identifier printed)])

theorem everywhere_arrayProgram (name : String) (lower upper : Int64) (printed : String) :
    (arrayProgram name lower upper printed).Everywhere fun node => node.isBounded := by
  have hLeaf (payload : Payload) : (Node.leaf payload).Everywhere fun node => node.isBounded :=
    .intro rfl (List.forall_mem_nil _)
  have hNames : (identifierList [name]).Everywhere fun node => node.isBounded :=
    .intro rfl (List.forall_mem_singleton.mpr (hLeaf _))
  have hType : (arrayType (integer lower) (integer upper) .real).Everywhere
      fun node => node.isBounded :=
    .intro rfl (List.forall_mem_cons.mpr ⟨hLeaf _, List.forall_mem_cons.mpr
      ⟨hLeaf _, List.forall_mem_singleton.mpr (hLeaf _)⟩⟩)
  have hDeclaration : (declaration (identifierList [name])
      (arrayType (integer lower) (integer upper) .real)).Everywhere fun node => node.isBounded :=
    .intro rfl (List.forall_mem_cons.mpr ⟨hNames, List.forall_mem_singleton.mpr hType⟩)
  have hCall : (write (identifier printed)).Everywhere fun node => node.isBounded :=
    .intro rfl (List.forall_mem_singleton.mpr (hLeaf _))
  have hStatements : (statementList [write (identifier printed)]).Everywhere
      fun node => node.isBounded := .intro rfl (List.forall_mem_singleton.mpr hCall)
  have hBody : (compound [write (identifier printed)]).Everywhere fun node => node.isBounded :=
    .intro rfl (List.forall_mem_singleton.mpr hStatements)
  exact .intro rfl (List.forall_mem_cons.mpr ⟨hDeclaration, List.forall_mem_singleton.mpr hBody⟩)

end Build

/-- Names may hold line ends and words of the language. -/
theorem weave_render_program :
    render { width := 12 } (some (Build.arrayProgram "total" 1 9 "total")) =
      .ok ("program parsed_prog;\nvar\n  total : array [1..9] of real;\nbegin\n  write(\n" ++
        "    total\n  )\nend.\n") ∧
    ∃ (first : String) (gaps : List String), gaps.length = 5 ∧
      (∀ gap ∈ first :: gaps, IsMadeOf (Source.IsFiller { width := 12 }) gap) ∧
      "program parsed_prog;\nvar\n  total : array [1..9] of real;\nbegin\n  write(\n" ++
        "    total\n  )\nend.\n" = weave first ["total", "1", "9", "real", "total"] gaps ∧
      render { width := 12 } (some (Build.arrayProgram "a\n(b)" 2 8 "end;x")) =
        .ok (weave first ["a\n(b)", "2", "8", "real", "end;x"] gaps) := by
  refine ⟨rfl, ?_⟩
  obtain ⟨first, gaps, hLength, hGaps, hSource, hOthers⟩ :=
    @weave_render { width := 12 } _ _ (Build.everywhere_arrayProgram "total" 1 9 "total") rfl
  exact ⟨first, gaps, hLength, hGaps, hSource, hOthers _ rfl⟩

end PascalTree

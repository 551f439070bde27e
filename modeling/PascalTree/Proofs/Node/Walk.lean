import Mathlib.Data.List.Forall2
import Mathlib.Data.List.Nodup
import PascalTree.Node.Diagram
import PascalTree.Proofs.Diagram.Outline
import PascalTree.Proofs.Source.Composed
import PascalTree.Proofs.Source.Spelling

/-! # Walking through a tree

The walk visits a node before its children, and these in the order of the slots and then of the
items. Every line of the tree view shows one visit: there are as many rails as the node has
ancestors, and the caption names the slot and describes the node.
-/
namespace PascalTree
set_option autoImplicit false

theorem forall₂_of_map_eq {α β γ : Type} {f : α → γ} {g : β → γ} {r : α → β → Prop}
    {first : List α} {second : List β} (h : first.map f = second.map g)
    (hRelated : ∀ a ∈ first, ∀ b ∈ second, f a = g b → r a b) : List.Forall₂ r first second := by
  induction first generalizing second with
  | nil =>
    rw [List.map_eq_nil_iff.mp h.symm]
    exact .nil
  | cons a first ih =>
    obtain ⟨b, second, rfl, hHead, hRest⟩ := List.map_eq_cons_iff.mp h.symm
    refine .cons (hRelated a List.mem_cons_self b List.mem_cons_self hHead.symm) ?_
    exact ih hRest.symm fun a hA b hB =>
      hRelated a (List.mem_cons_of_mem _ hA) b (List.mem_cons_of_mem _ hB)

namespace Kind

theorem isAlpha_of_mem_slotName (kind : Kind) :
    ∀ name ∈ kind.slotNames, ∀ char ∈ name.toList, char.isAlpha := by
  have hAll : kind.slotNames.all (·.toList.all Char.isAlpha) := by cases kind <;> rfl
  simpa only [List.all_eq_true] using hAll

theorem isAlpha_or_eq_of_mem_name (kind : Kind) :
    ∀ char ∈ kind.name.toList, char.isAlpha ∨ char = ' ' := by
  have hAll : kind.name.toList.all fun char => char.isAlpha || char == ' ' := by
    cases kind <;> rfl
  simpa only [List.all_eq_true, Bool.or_eq_true, beq_iff_eq] using hAll

end Kind

section
universe u v
variable {α : Type u} {β : Type v}

def namedSlots (names : List String) (slots : List (Option α)) : List (String × α) :=
  (names.zip slots).filterMap fun (name, slot) => slot.map fun child => (name, child)

/-- The contents of the slots with their names, and then the items without a name. -/
def Kind.named (kind : Kind) (slots : List (Option α)) (items : List α) :
    List (Option String × α) :=
  (namedSlots kind.slotNames slots).map (fun (name, child) => (some name, child)) ++
    items.map fun item => (none, item)

theorem namedSlots_map (names : List String) (slots : List (Option α)) (f : α → β) :
    namedSlots names (slots.map (·.map f)) =
      (namedSlots names slots).map fun (name, child) => (name, f child) := by
  induction names generalizing slots with
  | nil => rfl
  | cons name names ih =>
    cases slots with
    | nil => rfl
    | cons slot slots =>
      have hRest := ih slots
      cases slot <;> simp_all [namedSlots]

theorem Kind.named_map (kind : Kind) (slots : List (Option α)) (items : List α) (f : α → β) :
    kind.named (slots.map (·.map f)) (items.map f) =
      (kind.named slots items).map fun (slot, child) => (slot, f child) := by
  rw [named, named, namedSlots_map, List.map_append, List.map_map, List.map_map, List.map_map,
    List.map_map]
  rfl

theorem mem_names_of_mem_namedSlots {names : List String} {slots : List (Option α)} {name : String}
    {child : α} (h : (name, child) ∈ namedSlots names slots) : name ∈ names := by
  obtain ⟨⟨other, slot⟩, hZip, hSlot⟩ := List.mem_filterMap.mp h
  obtain ⟨_, -, hPair⟩ := Option.map_eq_some_iff.mp hSlot
  obtain ⟨rfl, -⟩ := Prod.mk.inj hPair
  exact (List.of_mem_zip hZip).1

theorem map_snd_namedSlots {names : List String} {slots : List (Option α)}
    (h : slots.length = names.length) :
    (namedSlots names slots).map Prod.snd = slots.filterMap id := by
  induction names generalizing slots with
  | nil =>
    rw [List.length_nil, List.length_eq_zero_iff] at h
    rw [h]
    rfl
  | cons name names ih =>
    cases slots with
    | nil => rfl
    | cons slot slots =>
      have hRest := ih (Nat.succ.inj h)
      cases slot <;> simp_all [namedSlots]

end

namespace Node

def named (node : Node) : List (Option String × Node) := node.kind.named node.slots node.items

theorem map_snd_named (node : Node) : node.named.map Prod.snd = node.children := by
  rw [named, Kind.named, List.map_append, List.map_map, List.map_map, children]
  congr 1
  · exact map_snd_namedSlots node.length_slots
  · exact List.map_id _

theorem mem_children_of_mem_named {node child : Node} {slot : Option String}
    (h : (slot, child) ∈ node.named) : child ∈ node.children := by
  rw [← map_snd_named]
  exact List.mem_map_of_mem h

end Node

structure Visit where
  /-- The number of nodes above. -/
  level : Nat
  /-- The name of the slot that holds the node. The root and items stand in none. -/
  slot : Option String
  label : Label

/-- How a slot is named before the description of what it holds. -/
def slotTag (slot : Option String) : String := (slot.map (· ++ ": ")).getD ""

namespace Node

section
variable (level : Nat) (slot : Option String)

def walk (node : Node) : List Visit :=
  visits node level slot
where
  visits : Node → Nat → Option String → List Visit :=
    fold fun label slots items level slot =>
      ⟨level, slot, label⟩ ::
        (label.kind.named slots items).flatMap fun (slot, visits) => visits (level + 1) slot

theorem walk_eq (node : Node) :
    node.walk level slot =
      ⟨level, slot, node.label⟩ ::
        node.named.flatMap fun (slot, child) => child.walk (level + 1) slot := by
  rw [walk, walk.visits, fold_eq, Kind.named_map, List.flatMap_map]
  rfl

theorem map_label_walk (node : Node) : (node.walk level slot).map Visit.label = node.preorder := by
  induction node using inductionOn generalizing level slot with
  | step node ih =>
    rw [walk_eq, preorder_eq, List.map_cons, List.map_flatMap, ← map_snd_named, List.flatMap_map]
    congr 1
    apply List.flatMap_congr
    rintro ⟨childSlot, child⟩ hChild
    exact ih child (mem_children_of_mem_named hChild) (level + 1) childSlot

end
end Node

namespace Diagram

/-- The diagram with the name of a slot before its caption, if there is one. -/
def inSlot (slot : Option String) : Diagram → Diagram
  | entry caption branches => entry (slotTag slot ++ caption) branches

theorem inSlot_none (diagram : Diagram) : diagram.inSlot none = diagram := by
  cases diagram with
  | entry caption branches => exact congrArg (entry · branches) (String.empty_append)

theorem inSlot_some (name : String) (diagram : Diagram) :
    diagram.inSlot (some name) = diagram.labelled name := by
  cases diagram
  rfl

theorem branchOutline_eq (level : Nat) (branches : List Diagram) :
    branchOutline level branches = branches.flatMap (outline level) := by
  induction branches with
  | nil => rfl
  | cons branch rest ih => rw [branchOutline, ih, List.flatMap_cons]

end Diagram

namespace Node

/-- The branches are the diagrams of the children, each with the name of its slot. -/
theorem diagram_eq_entry (node : Node) :
    node.diagram = .entry node.label.caption
      ((node.kind.named (node.slots.map (·.map diagram)) (node.items.map diagram)).map
        fun named => named.2.inSlot named.1) := by
  rw [diagram, fold_eq, Kind.named, List.map_append, List.map_map, List.map_map, namedSlots,
    List.map_filterMap]
  congr 2
  · apply List.filterMap_congr
    rintro ⟨name, slot⟩ -
    simp only [Option.map_map, Function.comp_def, Diagram.inSlot_some]
  · simp only [Function.comp_def, Diagram.inSlot_none, List.map_id']
    rfl

theorem outline_diagram (level : Nat) (slot : Option String) (node : Node) :
    (node.diagram.inSlot slot).outline level =
      (node.walk level slot).map fun visit =>
        (visit.level, slotTag visit.slot ++ visit.label.caption) := by
  induction node using inductionOn generalizing level slot with
  | step node ih =>
    rw [walk_eq, diagram_eq_entry, Kind.named_map, List.map_map, Diagram.inSlot, Diagram.outline,
      Diagram.branchOutline_eq, List.map_cons, List.map_flatMap, List.flatMap_map]
    congr 1
    apply List.flatMap_congr
    rintro ⟨childSlot, child⟩ hChild
    exact ih child (mem_children_of_mem_named hChild) (level + 1) childSlot

theorem not_mem_slotTag_of_mem_named {node child : Node} {slot : Option String}
    (h : (slot, child) ∈ node.named) : '\n' ∉ (slotTag slot).toList := by
  rw [named, Kind.named, List.mem_append, List.mem_map, List.mem_map] at h
  rcases h with ⟨⟨name, other⟩, hName, hPair⟩ | ⟨item, -, hPair⟩
  · obtain ⟨rfl, -⟩ := Prod.mk.inj hPair
    have hAlpha := node.kind.isAlpha_of_mem_slotName name (mem_names_of_mem_namedSlots hName)
    have hFeed : '\n' ∉ name.toList := fun hMem => absurd (hAlpha '\n' hMem) (by decide)
    simpa [slotTag] using hFeed
  · obtain ⟨rfl, -⟩ := Prod.mk.inj hPair
    decide

theorem not_mem_slotTag_of_mem_walk {level : Nat} {slot : Option String} {node : Node}
    {visit : Visit} (hSlot : '\n' ∉ (slotTag slot).toList) (h : visit ∈ node.walk level slot) :
    '\n' ∉ (slotTag visit.slot).toList := by
  induction node using inductionOn generalizing level slot with
  | step node ih =>
    rw [walk_eq, List.mem_cons, List.mem_flatMap] at h
    rcases h with rfl | ⟨⟨childSlot, child⟩, hChild, hVisit⟩
    · exact hSlot
    · exact ih child (mem_children_of_mem_named hChild) (not_mem_slotTag_of_mem_named hChild) hVisit

end Node

/-- Nothing but the text that a leaf owns can bring a line feed into its description. -/
theorem Label.not_mem_caption {label : Label}
    (h : ∀ payload ∈ label.payload, ∀ text ∈ payload.text, '\n' ∉ text.toList) :
    '\n' ∉ label.caption.toList := by
  have hName (kind : Kind) : '\n' ∉ kind.name.toList := fun hMem =>
    absurd (kind.isAlpha_or_eq_of_mem_name '\n' hMem) (by decide)
  rw [Label.caption]
  split
  · rename_i payload hPayload
    have hSpelling := Payload.not_mem_spelling (by decide) (h payload hPayload)
    rw [Payload.caption.eq_def]
    split <;> simp_all [Payload.spelling]
  · exact hName label.kind

namespace Node

theorem not_mem_outline_diagram {node : Node}
    (h : ∀ payload ∈ node.payloads, ∀ text ∈ payload.text, '\n' ∉ text.toList) :
    ∀ entry ∈ node.diagram.outline 0, '\n' ∉ entry.2.toList := by
  have hOutline := outline_diagram 0 none node
  rw [Diagram.inSlot_none] at hOutline
  rw [hOutline]
  intro entry hEntry
  obtain ⟨visit, hVisit, rfl⟩ := List.mem_map.mp hEntry
  rw [String.toList_append, List.mem_append, not_or]
  refine ⟨not_mem_slotTag_of_mem_walk (by decide) hVisit, Label.not_mem_caption ?_⟩
  intro payload hPayload
  refine h payload (List.mem_filterMap.mpr ⟨visit.label, ?_, hPayload⟩)
  rw [← map_label_walk 0 none]
  exact List.mem_map_of_mem hVisit

end Node
end PascalTree

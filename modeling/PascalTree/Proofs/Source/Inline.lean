import Mathlib.Data.List.Forall2
import PascalTree.Proofs.Layout.Runs

/-! # Trees that stay on one line

A tree without calls, lists of expressions and hard lines leaves no place for a break. It is printed
as one text, in every style, from every column and at every depth, and a list of such trees is
printed as their texts with separators between them.
-/
namespace PascalTree
set_option autoImplicit false

namespace Doc

/-- There are texts and hard lines, and indentation starts with a hard line. -/
inductive Stiff : Doc → Prop
  | empty : Stiff .empty
  | text (content : String) : Stiff (.text content)
  | hardLine : Stiff .hardLine
  | concat {parts : List Doc} (h : ∀ part ∈ parts, Stiff part) : Stiff (.concat parts)
  | nextLine {printed : Doc} (h : Stiff printed) : Stiff (.indent (.concat [.hardLine, printed]))

attribute [simp] Stiff.empty Stiff.text Stiff.hardLine Stiff.nextLine

@[simp] theorem stiff_concat_iff {parts : List Doc} :
    Stiff (.concat parts) ↔ ∀ part ∈ parts, Stiff part :=
  ⟨fun | .concat h => h, .concat⟩

theorem stiff_join {separator : Doc} {parts : List Doc} (hSeparator : Stiff separator)
    (hParts : ∀ part ∈ parts, Stiff part) : Stiff (Doc.join separator parts) := by
  cases parts with
  | nil => simp [Doc.join]
  | cons first rest =>
    rw [List.forall_mem_cons] at hParts
    simpa [Doc.join, hSeparator, hParts.1] using hParts.2

section
variable {doc : Doc} (h : Stiff doc) (hForces : doc.forcesBreak = false)
include h hForces

/-- Without a hard line there is nothing to decide. -/
theorem Stiff.layout_eq (style : Style) (column depth : Nat) (flat : Bool) :
    doc.layout style column depth flat = doc.texts.map .text := by
  induction h generalizing column with
  | empty | text => rfl
  | hardLine => cases hForces
  | @concat parts hParts ih =>
    clear hParts
    rw [forcesBreak_concat_eq_false] at hForces
    rw [texts]
    induction parts generalizing column with
    | nil => rfl
    | cons part rest ihRest =>
      rw [List.forall_mem_cons] at ih hForces
      rw [layout_concat_cons, ih.1 hForces.1, ihRest ih.2 hForces.2, allTexts, List.map_append]
  | nextLine => cases hForces

theorem Stiff.isPlain : doc.isPlain false := by
  induction h with
  | empty | text => rfl
  | hardLine => cases hForces
  | concat _ ih =>
    rw [forcesBreak_concat_eq_false] at hForces
    rw [isPlain_concat_iff]
    exact fun part hPart => ih part hPart (hForces part hPart)
  | nextLine => cases hForces

theorem Stiff.nesting_eq_zero : doc.nesting = 0 := by
  induction h with
  | empty | text => rfl
  | hardLine => cases hForces
  | @concat parts hParts ih =>
    clear hParts
    rw [forcesBreak_concat_eq_false] at hForces
    rw [nesting]
    induction parts with
    | nil => rfl
    | cons part rest ihRest =>
      rw [List.forall_mem_cons] at ih hForces
      rw [maxNesting, ih.1 hForces.1, ihRest ih.2 hForces.2, Nat.max_self]
  | nextLine => cases hForces

end

end Doc

/-- Nodes of the kind have no breaks of their own but hard lines. -/
def Kind.isStiff : Kind → Bool
  | read | write | expressionList => false
  | _ => true

namespace Source

open Doc

section
variable {printed : Doc} (h : Stiff printed)

theorem stiff_leaf (payload : Payload) : Stiff (leaf payload) := by
  cases payload <;> simp [leaf]

include h

theorem stiff_body (slot : Option Node) : Stiff (body slot printed) := by
  rw [body.eq_def]
  split <;> simp [h]

theorem stiff_declarations (slot : Option Node) : Stiff (declarations slot printed) := by
  rw [declarations.eq_def]
  split <;> simp [declarations.underVar, h]

theorem stiff_statements (slot : Option Node) : Stiff (statements slot printed) := by
  rw [statements.eq_def]
  split <;> simp [h]

theorem stiff_consequent (slot other : Option Node) : Stiff (consequent slot other printed) := by
  rw [consequent]
  split
  · simp [h]
  · exact stiff_body h slot

theorem stiff_otherwise (slot : Option Node) : Stiff (otherwise slot printed) := by
  rw [otherwise.eq_def]
  split
  · exact .empty
  · simp [h]
  · simp [stiff_body h]

theorem stiff_position (slot : Option Node) : Stiff (position slot printed) := by
  rw [position.eq_def]
  split <;> simp [h]

theorem stiff_type {lowerBound upperBound : Doc} (lower : Option Node)
    (hLower : Stiff lowerBound) (hUpper : Stiff upperBound) :
    Stiff (type lower lowerBound upperBound printed) := by
  rw [type.eq_def]
  split <;> simp [hLower, hUpper, h]

theorem stiff_unary (form : UnaryForm) : Stiff (unary form printed) := by
  cases form <;> simp [unary, h]

end

theorem stiff_list {kind : ListKind} {items : List Doc} (hKind : kind.kind.isStiff)
    (h : ∀ item ∈ items, Stiff item) : Stiff (list kind items) := by
  cases kind with
  | varSection =>
    refine stiff_join .hardLine fun part hPart => ?_
    obtain ⟨item, hItem, rfl⟩ := List.mem_map.mp hPart
    simp [h item hItem]
  | identifierList => exact stiff_join (.text _) h
  | statementList => exact stiff_join (by simp) h
  | expressionList => cases hKind

end Source

namespace Node

theorem stiff_doc (node : Node) (h : ∀ label ∈ node.preorder, label.kind.isStiff) :
    node.doc.Stiff := by
  induction node using inductionOn with
  | step node ih =>
    rw [preorder_eq, List.forall_mem_cons] at h
    obtain ⟨hKind, hBelow⟩ := h
    have hChild : ∀ child ∈ node.children, child.doc.Stiff := by
      intro child hMem
      apply ih child hMem
      intro label hLabel
      exact hBelow label (List.mem_flatMap.mpr ⟨child, hMem, hLabel⟩)
    have hSlot : ∀ slot ∈ node.slots, (slotDoc slot).Stiff := by
      rintro (_ | child) hMem
      · exact .empty
      · exact hChild child (mem_children_iff.mpr (.inl hMem))
    clear ih hBelow
    cases node with
    | leaf payload => exact Source.stiff_leaf payload
    | list kind items =>
      apply Source.stiff_list hKind
      apply forall_mem_itemDocs
      intro child hMem
      exact hChild child (mem_children_iff.mpr (.inr hMem))
    | call routine argument => cases routine <;> cases hKind
    | _ =>
      simp only [slots, List.forall_mem_cons] at hSlot
      simp [doc, Source.program, Source.block, Source.stiff_declarations, Source.stiff_statements,
        Source.stiff_consequent, Source.stiff_otherwise, Source.stiff_body, Source.stiff_position,
        Source.stiff_type, Source.stiff_unary, hSlot]

end Node

namespace Layout

theorem print_map_text (style : Style) (texts : List String) :
    Layout.print style (texts.map .text) = String.join texts := by
  induction texts with
  | nil => rfl
  | cons text rest ih => rw [List.map_cons, print_cons, ih, Piece.print, String.join_cons]

theorem Line.isWhole_join {texts : List String} (h : ∀ text ∈ texts, IsWhole text) :
    IsWhole (String.join texts) := by
  induction texts with
  | nil => decide
  | cons text rest ih =>
    rw [List.forall_mem_cons] at h
    rw [String.join_cons]
    exact isWhole_append.mpr ⟨h.1, ih h.2⟩

theorem Line.isWhole_intercalate {separator : String} {texts : List String}
    (hSeparator : IsWhole separator) (h : ∀ text ∈ texts, IsWhole text) :
    IsWhole (separator.intercalate texts) := by
  induction texts with
  | nil =>
    rw [String.intercalate_nil]
    decide
  | cons text rest ih =>
    rw [List.forall_mem_cons] at h
    cases rest with
    | nil =>
      rw [String.intercalate_singleton]
      exact h.1
    | cons second others =>
      rw [String.intercalate_cons_cons]
      exact isWhole_append.mpr ⟨isWhole_append.mpr ⟨h.1, hSeparator⟩, ih h.2⟩

/-- On a page that is not as wide as columns are told apart, what stands on one line is measured as
it is printed. -/
theorem fits_iff_of_not_breaks {style : Style} (hWidth : style.width ≤ 65534) {layout : Layout}
    (h : layout.breaks = false) (column : Nat) :
    layout.fits style column ↔
      column + (layout.print style).utf8ByteSize ≤ style.width.toNat := by
  rw [UInt16.le_iff_toNat_le] at hWidth
  change style.width.toNat ≤ 65534 at hWidth
  rw [utf8ByteSize_print style h, fits, firstLineWidth_eq_saturate, decide_eq_true_iff]
  simp only [Column.saturate, Column.limit]
  omega

end Layout

/-- The end of a line and the indentation of the next one. -/
def Style.lineBreak (style : Style) (depth : Nat) : String :=
  style.lineEnding.text ++ style.indentation.text depth

namespace Doc

/-- Items and separators that are printed alike in every column are printed one after another. -/
theorem print_join {style : Style} {depth : Nat} {flat : Bool} {separator : Doc} {mark : String}
    (hSeparator : ∀ column, (separator.layout style column depth flat).print style = mark)
    {items : List Doc} {texts : List String}
    (h : List.Forall₂ (fun item text =>
      ∀ column, (item.layout style column depth flat).print style = text) items texts)
    (column : Nat) :
    ((Doc.join separator items).layout style column depth flat).print style =
      mark.intercalate texts := by
  cases h with
  | nil =>
    rw [Doc.join, layout_concat_nil, String.intercalate_nil, Layout.print_nil]
  | @cons first text rest texts hFirst hRest =>
    rw [Doc.join, layout_concat_cons, Layout.print_append, hFirst]
    generalize Layout.endColumn style column _ = next
    clear hFirst
    induction hRest generalizing text next with
    | nil => simp
    | @cons item other rest texts hItem _ ih =>
      rw [List.map_cons, layout_concat_splice, List.cons_append, List.cons_append, List.nil_append,
        layout_concat_cons, layout_concat_cons, Layout.print_append, Layout.print_append,
        hSeparator, hItem, ih, String.intercalate_cons_cons, String.append_assoc]

end Doc

namespace Node

/-- There are no calls and no lists of expressions in the tree, no hard line in its document, and
no line ends in its texts. -/
structure IsInline (node : Node) : Prop where
  kinds : ∀ label ∈ node.preorder, label.kind.isStiff
  forcesBreak : node.doc.forcesBreak = false
  texts : ∀ payload ∈ node.payloads, ∀ text ∈ payload.text, Layout.Line.IsWhole text

instance (node : Node) : Decidable node.IsInline :=
  decidable_of_iff ((∀ label ∈ node.preorder, label.kind.isStiff) ∧ node.doc.forcesBreak = false ∧
      ∀ payload ∈ node.payloads, ∀ text ∈ payload.text, Layout.Line.IsWhole text)
    ⟨fun ⟨hKinds, hForces, hTexts⟩ => ⟨hKinds, hForces, hTexts⟩,
      fun h => ⟨h.kinds, h.forcesBreak, h.texts⟩⟩

/-- What is printed of a node on one line. -/
def inline (node : Node) : String := String.join node.doc.texts

/-- The arguments of a call that has the node in its slot. -/
def arguments : Node → List Node
  | list .expressionList items => items
  | node => [node]

section
variable {node : Node} (h : node.IsInline)
include h

theorem IsInline.layout_doc (style : Style) (column depth : Nat) (flat : Bool) :
    node.doc.layout style column depth flat = node.doc.texts.map .text :=
  (node.stiff_doc h.kinds).layout_eq h.forcesBreak style column depth flat

theorem IsInline.print_layout (style : Style) (column depth : Nat) (flat : Bool) :
    (node.doc.layout style column depth flat).print style = node.inline := by
  rw [h.layout_doc, Layout.print_map_text, inline]

theorem IsInline.isPlain_doc : node.doc.isPlain false :=
  (node.stiff_doc h.kinds).isPlain h.forcesBreak

theorem IsInline.isWhole_inline : Layout.Line.IsWhole node.inline := by
  apply Layout.Line.isWhole_join
  intro text hText
  apply isWhole_layout h.texts {}
  rw [h.layout_doc]
  exact List.mem_map_of_mem hText

theorem IsInline.render_eq (style : Style) : render style (some node) = .ok node.inline := by
  rw [render_eq_ok_iff, slotDoc, (node.stiff_doc h.kinds).nesting_eq_zero h.forcesBreak,
    h.print_layout, h.layout_doc]
  refine ⟨Nat.zero_le _, ?_, rfl⟩
  rw [List.all_map, List.all_eq_true]
  exact fun _ _ => rfl

end

section
variable {argument : Node} (h : ∀ item ∈ argument.arguments, item.IsInline)
include h

theorem isPlain_argument : argument.doc.isPlain false := by
  rw [arguments.eq_def] at h
  split at h
  · rw [doc]
    apply Source.isPlain_list rfl
    apply forall_mem_itemDocs
    exact fun item hItem => (h item hItem).isPlain_doc
  · exact (h _ List.mem_cons_self).isPlain_doc

theorem print_argument (style : Style) (column depth : Nat) (flat : Bool) :
    (argument.doc.layout style column depth flat).print style =
      (if flat then ", " else "," ++ style.lineBreak depth).intercalate
        (argument.arguments.map inline) := by
  rw [arguments.eq_def] at h ⊢
  split at h
  · rename_i items
    have hSeparator : ∀ column, ((Doc.concat [.text ",", .spaceLine]).layout style column depth
        flat).print style = if flat then ", " else "," ++ style.lineBreak depth := by
      intro column
      rw [Doc.layout_concat_cons, Doc.layout_concat_cons, Doc.layout_concat_nil, Doc.layout,
        Doc.layout]
      cases flat <;> simp [Layout.print, Piece.print, Style.lineBreak]
    rw [doc, itemDocs_eq]
    apply Doc.print_join hSeparator
    rw [List.forall₂_map_left_iff, List.forall₂_map_right_iff, List.forall₂_same]
    exact fun item hItem column => (h item hItem).print_layout style column depth flat
  · rw [List.map_singleton, String.intercalate_singleton]
    exact (h _ List.mem_cons_self).print_layout style column depth flat

end

end Node

end PascalTree

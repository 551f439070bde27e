import PascalTree.Proofs.Layout.Cuts
import PascalTree.Proofs.Layout.Nesting
import PascalTree.Proofs.Node.Shape
import PascalTree.Proofs.Source.Interchange

/-! # Texts woven into a page

A family of documents is woven from texts when all its layouts are cut alike, with the texts of each
document in the holes. Documents of trees of the same shape are such families: what a rule prints
besides the payloads is the same for all of them.
-/
namespace PascalTree
set_option autoImplicit false

/-- A fixed text, the end of a line or the indentation of one. -/
def Source.IsFiller (style : Style) (text : String) : Prop :=
  text ∈ fixedTexts ∨ text = style.lineEnding.text ∨
    ∃ depth, text = style.indentation.text depth

namespace Doc

variable {ι : Type}

/-- Wherever the documents start, their layouts are cut alike, and nothing but filler stands between
the texts. -/
structure Woven (docs : ι → Doc) (texts : ι → List String) : Prop where
  nesting : ∀ i j, (docs i).nesting = (docs j).nesting
  forcesBreak : ∀ i j, (docs i).forcesBreak = (docs j).forcesBreak
  fills : ∀ (style : Style) (column depth : Nat) (flat : Bool), ∃ cuts : List Cut,
    (∀ cut ∈ cuts, cut.Keeps style (Source.IsFiller style)) ∧
      ∀ i, Layout.Fills cuts (texts i) ((docs i).layout style column depth flat)

theorem woven_fixed {doc : Doc} (h : doc.Composed (· ∈ Source.fixedTexts)) :
    Woven (fun _ : ι => doc) fun _ => [] where
  nesting _ _ := rfl
  forcesBreak _ _ := rfl
  fills style column depth flat := by
    refine ⟨_, ?_, fun _ => .pieces _⟩
    rw [List.forall_mem_map]
    rintro (content | depth) hPiece
    · have hFixed := fine_of_mem_layout (by decide) h style column _ flat hPiece
      exact isMadeOf_part (.inl hFixed)
    · exact (isMadeOf_part (.inr (.inl rfl))).append (isMadeOf_part (.inr (.inr ⟨depth, rfl⟩)))

theorem woven_text [Inhabited ι] {before after : String} {texts : ι → String}
    (hBefore : before = "" ∨ before ∈ Source.fixedTexts)
    (hAfter : after = "" ∨ after ∈ Source.fixedTexts)
    (hSize : ∀ i j, (texts i).utf8ByteSize = (texts j).utf8ByteSize) :
    Woven (fun i => text (before ++ texts i ++ after)) fun i => [texts i] where
  nesting _ _ := rfl
  forcesBreak _ _ := rfl
  fills style column depth flat := by
    have hFiller : ∀ word, word = "" ∨ word ∈ Source.fixedTexts →
        IsMadeOf (Source.IsFiller style) word := by
      rintro word (rfl | hWord)
      · exact isMadeOf_empty
      · exact isMadeOf_part (.inl hWord)
    refine ⟨[.hole before after (texts default).utf8ByteSize], ?_, fun i => ?_⟩
    · rw [List.forall_mem_singleton]
      exact ⟨hFiller before hBefore, hFiller after hAfter⟩
    · exact .hole before after (hSize i default) .nil

section
variable {docs printed : ι → Doc} {rest : ι → List Doc} {texts more : ι → List String}

theorem Woven.cons [Inhabited ι] (h : Woven docs texts)
    (hRest : Woven (fun i => concat (rest i)) more) :
    Woven (fun i => concat (docs i :: rest i)) fun i => texts i ++ more i where
  nesting i j := by
    have hNesting := hRest.nesting i j
    simp only [Doc.nesting, maxNesting] at hNesting ⊢
    rw [h.nesting i j, hNesting]
  forcesBreak i j := by
    have hForces := hRest.forcesBreak i j
    simp only [Doc.forcesBreak, anyForcesBreak] at hForces ⊢
    rw [h.forcesBreak i j, hForces]
  fills style column depth flat := by
    obtain ⟨cuts, hCuts, hFills⟩ := h.fills style column depth flat
    obtain ⟨others, hOthers, hRestFills⟩ := hRest.fills style
      (((docs default).layout style column depth flat).endColumn style column) depth flat
    refine ⟨cuts ++ others, List.forall_mem_append.mpr ⟨hCuts, hOthers⟩, fun i => ?_⟩
    rw [layout_concat_cons, (hFills i).endColumn_eq (hFills default)]
    exact (hFills i).append (hRestFills i)

theorem woven_nil : Woven (fun _ : ι => concat []) fun _ => [] := woven_fixed composed_concat_nil

theorem Woven.cons_fixed [Inhabited ι] {doc : Doc} (h : doc.Composed (· ∈ Source.fixedTexts))
    (hRest : Woven (fun i => concat (rest i)) more) :
    Woven (fun i => concat (doc :: rest i)) more :=
  (woven_fixed h).cons hRest

/-- What follows in every document of the family has no texts. -/
theorem Woven.cons_end [Inhabited ι] {others : List Doc} (h : Woven docs texts)
    (hEnd : (concat others).Composed (· ∈ Source.fixedTexts)) :
    Woven (fun i => concat (docs i :: others)) texts := by
  simpa only [List.append_nil] using h.cons (woven_fixed hEnd)

theorem Woven.single [Inhabited ι] (h : Woven docs texts) :
    Woven (fun i => concat [docs i]) texts :=
  h.cons_end composed_concat_nil

theorem Woven.indent (h : Woven docs texts) : Woven (fun i => .indent (docs i)) texts where
  nesting i j := by rw [Doc.nesting, Doc.nesting, h.nesting i j]
  forcesBreak := h.forcesBreak
  fills style column depth flat := by
    simpa only [layout_indent] using h.fills style column (depth + 1) flat

/-- All documents of the family are flat or none is, since they fit alike. -/
theorem Woven.group [Inhabited ι] (h : Woven docs texts) :
    Woven (fun i => .group (docs i)) texts where
  nesting := h.nesting
  forcesBreak := h.forcesBreak
  fills style column depth flat := by
    obtain ⟨cuts, hCuts, hFills⟩ := h.fills style column depth true
    by_cases hFlat : (docs default).forcesBreak = false ∧
        ((docs default).layout style column depth true).fits style column
    · refine ⟨cuts, hCuts, fun i => ?_⟩
      rw [layout_group, if_pos]
      · exact hFills i
      · rw [h.forcesBreak i default, (hFills i).fits_eq (hFills default)]
        simpa using hFlat
    · obtain ⟨others, hOthers, hBroken⟩ := h.fills style column depth false
      refine ⟨others, hOthers, fun i => ?_⟩
      rw [layout_group, if_neg]
      · exact hBroken i
      · rw [h.forcesBreak i default, (hFills i).fits_eq (hFills default)]
        simpa using hFlat

end

/-- The lists of the family have the same length, and what stands in the same place of them is
woven. -/
inductive WovenAll : (ι → List Doc) → (ι → List String) → Prop
  | nil : WovenAll (fun _ => []) fun _ => []
  | cons {docs : ι → Doc} {rest : ι → List Doc} {texts more : ι → List String}
    (h : Woven docs texts) (hRest : WovenAll rest more) :
    WovenAll (fun i => docs i :: rest i) fun i => texts i ++ more i

theorem WovenAll.join [Inhabited ι] {separator : Doc} {docs : ι → List Doc}
    {texts : ι → List String} (hSeparator : separator.Composed (· ∈ Source.fixedTexts))
    (h : WovenAll docs texts) : Woven (fun i => Doc.join separator (docs i)) texts := by
  have hSeparated : ∀ {rest : ι → List Doc} {more : ι → List String}, WovenAll rest more →
      Woven (fun i => concat ((rest i).map fun part => concat [separator, part])) more := by
    intro rest more hRest
    induction hRest with
    | nil => exact woven_nil
    | cons hDoc _ ih => exact (hDoc.single.cons_fixed hSeparator).cons ih
  cases h with
  | nil => exact woven_nil
  | cons hDoc hRest => exact hDoc.cons (hSeparated hRest)

theorem WovenAll.ended [Inhabited ι] {docs : ι → List Doc} {texts : ι → List String}
    (h : WovenAll docs texts) :
    WovenAll (fun i => (docs i).map fun doc => concat [doc, text ";"]) texts := by
  induction h with
  | nil => exact .nil
  | cons hDoc _ ih =>
    have hSemicolon : (concat [text ";"]).Composed (· ∈ Source.fixedTexts) := by
      simp [Source.fixedTexts]
    exact .cons (hDoc.cons_end hSemicolon) ih

end Doc

namespace Source

open Doc Node

variable {ι : Type} [Inhabited ι]

/-- The documents in the slots of a family. -/
abbrev WovenSlots (slots : ι → Option Node) : Prop :=
  Woven (fun i => slotDoc (slots i)) fun i => slotSpellings (slots i)

/-- Signs and directions have spaces around them. -/
theorem leaf_eq (payload : Payload) :
    leaf payload =
      if payload.kind = .direction then text (" " ++ payload.spelling ++ " ")
      else if payload.kind = .operator then
        concat [text " ", text ("" ++ payload.spelling ++ ""), text " "]
      else text ("" ++ payload.spelling ++ "") := by
  cases payload <;> simp [leaf, Payload.kind, Payload.spelling]

theorem woven_leaf {payload : Payload} {payloads : ι → Payload}
    (hKind : ∀ i, (payloads i).kind = payload.kind)
    (hSize : ∀ i j, (payloads i).spelling.utf8ByteSize = (payloads j).spelling.utf8ByteSize) :
    Woven (fun i => leaf (payloads i)) fun i => [(payloads i).spelling] := by
  have hSpace : (concat [text " "]).Composed (· ∈ fixedTexts) := by simp [fixedTexts]
  have hPlain : Woven (fun i => text ("" ++ (payloads i).spelling ++ ""))
      fun i => [(payloads i).spelling] := woven_text (.inl rfl) (.inl rfl) hSize
  simp only [leaf_eq, hKind]
  by_cases hDirection : payload.kind = .direction
  · simp only [if_pos hDirection]
    exact woven_text (.inr (by decide)) (.inr (by decide)) hSize
  · by_cases hOperator : payload.kind = .operator
    · simp only [if_neg hDirection, if_pos hOperator]
      exact (hPlain.cons_end hSpace).cons_fixed (.text (by decide))
    · simp only [if_neg hDirection, if_neg hOperator]
      exact hPlain

theorem woven_underVar {printed : ι → Doc} {texts : ι → List String} (h : Woven printed texts) :
    Woven (fun i => declarations.underVar (printed i)) texts := by
  have hLine : (concat [hardLine]).Composed (· ∈ fixedTexts) := by simp
  exact ((h.single.cons_fixed .hardLine).indent.cons_end hLine).cons_fixed (.text (by decide))

theorem woven_block {printed : ι → Doc} {texts : ι → List String} (h : Woven printed texts) :
    Woven (fun i => block (printed i)) texts := by
  have hEnd : (concat [hardLine, text "end"]).Composed (· ∈ fixedTexts) := by simp [fixedTexts]
  exact (h.cons_end hEnd).cons_fixed (.text (by decide))

theorem woven_call (routine : Routine) {printed : ι → Doc} {texts : ι → List String}
    (h : Woven printed texts) : Woven (fun i => call routine (printed i)) texts := by
  have hName : (text routine.keyword).Composed (· ∈ fixedTexts) := by
    cases routine <;> exact .text (by decide)
  have hEnd : (concat [softLine, text ")"]).Composed (· ∈ fixedTexts) := by
    simp [fixedTexts, Composed.softLine]
  exact ((((h.single.cons_fixed .softLine).indent.cons_end hEnd).cons_fixed
    (.text (by decide))).cons_fixed hName).group

theorem woven_unary (form : UnaryForm) {printed : ι → Doc} {texts : ι → List String}
    (h : Woven printed texts) : Woven (fun i => unary form (printed i)) texts := by
  have hClose : (concat [text ")"]).Composed (· ∈ fixedTexts) := by simp [fixedTexts]
  cases form with
  | not => exact h.single.cons_fixed (.text (by decide))
  | negate => exact h.single.cons_fixed (.text (by decide))
  | group => exact (h.cons_end hClose).cons_fixed (.text (by decide))

theorem woven_list (kind : ListKind) {items : ι → List Doc} {texts : ι → List String}
    (h : WovenAll items texts) : Woven (fun i => list kind (items i)) texts := by
  have hStatements : (concat [text ";", hardLine]).Composed (· ∈ fixedTexts) := by
    simp [fixedTexts]
  have hExpressions : (concat [text ",", spaceLine]).Composed (· ∈ fixedTexts) := by
    simp [fixedTexts]
  cases kind with
  | varSection => exact h.ended.join .hardLine
  | identifierList => exact h.join (.text (by decide))
  | statementList => exact h.join hStatements
  | expressionList => exact h.join hExpressions

section
variable {slot other : Option Node} {slots others : ι → Option Node}
  (hSlots : ∀ i, (slots i).map shape = slot.map shape) (h : WovenSlots slots)
include hSlots h

theorem woven_body :
    Woven (fun i => body (slots i) (slotDoc (slots i))) fun i => slotSpellings (slots i) := by
  rcases eq_none_or_exists_some hSlots with ⟨rfl, rfl⟩ | ⟨node, nodes, rfl, rfl, hShape⟩
  · exact h
  · have hKind := fun i => kind_of_shape_eq (hShape i)
    simp only [body_some, hKind]
    by_cases hBlock : node.kind = .compound
    · simp only [if_pos hBlock]
      exact h.single.cons_fixed (.text (by decide))
    · simp only [if_neg hBlock]
      exact (h.single.cons_fixed .hardLine).indent

theorem woven_consequent (hOthers : ∀ i, (others i).map shape = other.map shape) :
    Woven (fun i => consequent (slots i) (others i) (slotDoc (slots i)))
      fun i => slotSpellings (slots i) := by
  have hSome : ∀ i, (others i).isSome = other.isSome := by
    intro i
    simpa only [Option.isSome_map] using congrArg Option.isSome (hOthers i)
  have hOpen : ∀ i, (slots i).any Node.endsWithOpenIf = slot.any Node.endsWithOpenIf := by
    intro i
    rcases eq_none_or_exists_some hSlots with ⟨rfl, rfl⟩ | ⟨node, nodes, rfl, rfl, hShape⟩
    · rfl
    · exact endsWithOpenIf_of_shape_eq (hShape i)
  have hEnd : (concat [hardLine, text "end"]).Composed (· ∈ fixedTexts) := by
    simp [fixedTexts]
  simp only [consequent, hSome, hOpen]
  by_cases hBlock : (other.isSome && slot.any Node.endsWithOpenIf) = true
  · simp only [if_pos hBlock]
    exact ((h.single.cons_fixed .hardLine).indent.cons_end hEnd).cons_fixed (.text (by decide))
  · simp only [if_neg hBlock]
    exact woven_body hSlots h

theorem woven_otherwise :
    Woven (fun i => otherwise (slots i) (slotDoc (slots i))) fun i => slotSpellings (slots i) := by
  have hBody := woven_body hSlots h
  rcases eq_none_or_exists_some hSlots with ⟨rfl, rfl⟩ | ⟨node, nodes, rfl, rfl, hShape⟩
  · exact h
  · have hKind := fun i => kind_of_shape_eq (hShape i)
    have hElse : (text "else").Composed (· ∈ fixedTexts) := .text (by decide)
    simp only [otherwise_some, hKind]
    by_cases hChain : node.kind = .conditional
    · simp only [if_pos hChain]
      exact ((h.single.cons_fixed (.text (by decide))).single.cons_fixed hElse).cons_fixed .hardLine
    · simp only [if_neg hChain]
      exact (hBody.single.cons_fixed hElse).cons_fixed .hardLine

theorem woven_statements :
    Woven (fun i => statements (slots i) (slotDoc (slots i))) fun i => slotSpellings (slots i) := by
  rcases eq_none_or_exists_some hSlots with ⟨rfl, rfl⟩ | ⟨node, nodes, rfl, rfl, hShape⟩
  · exact h
  · have hKind := fun i => kind_of_shape_eq (hShape i)
    have hItems := fun i => isEmpty_of_shape_eq (hShape i)
    simp only [statements_some, hKind, hItems]
    by_cases hEmpty : node.kind = .statementList ∧ node.items.isEmpty
    · simp only [if_pos hEmpty]
      have hNone : ∀ i, slotSpellings (some (nodes i)) = [] := fun i =>
        spellings_eq_nil (by rw [hKind, hEmpty.1]; rfl) (by rw [hItems, hEmpty.2])
      simp only [hNone]
      exact woven_fixed .empty
    · simp only [if_neg hEmpty]
      exact (h.single.cons_fixed .hardLine).indent

theorem woven_position :
    Woven (fun i => position (slots i) (slotDoc (slots i))) fun i => slotSpellings (slots i) := by
  rcases eq_none_or_exists_some hSlots with ⟨rfl, rfl⟩ | ⟨node, nodes, rfl, rfl, hShape⟩
  · exact h
  · have hBracket : (concat [text "]"]).Composed (· ∈ fixedTexts) := by simp [fixedTexts]
    exact (h.cons_end hBracket).cons_fixed (.text (by decide))

theorem woven_declarations :
    Woven (fun i => declarations (slots i) (slotDoc (slots i)))
      fun i => slotSpellings (slots i) := by
  rcases eq_none_or_exists_some hSlots with ⟨rfl, rfl⟩ | ⟨node, nodes, rfl, rfl, hShape⟩
  · exact h
  · have hKind := fun i => kind_of_shape_eq (hShape i)
    have hItems := fun i => isEmpty_of_shape_eq (hShape i)
    have hSemicolon : (concat [text ";"]).Composed (· ∈ fixedTexts) := by simp [fixedTexts]
    simp only [declarations_some, hKind, hItems]
    by_cases hSection : node.kind = .varSection
    · simp only [if_pos hSection]
      by_cases hEmpty : node.items.isEmpty
      · simp only [if_pos hEmpty]
        have hNone : ∀ i, slotSpellings (some (nodes i)) = [] := fun i =>
          spellings_eq_nil (by rw [hKind, hSection]; rfl) (by rw [hItems, hEmpty])
        simp only [hNone]
        exact woven_fixed .empty
      · simp only [if_neg hEmpty]
        exact woven_underVar h
    · simp only [if_neg hSection]
      exact woven_underVar (h.cons_end hSemicolon)

/-- An upper bound is printed with the lower one. -/
theorem woven_type {uppers elements : ι → Option Node} (hUpper : WovenSlots uppers)
    (hElement : WovenSlots elements) (hBounds : slot = none → ∀ i, uppers i = none) :
    Woven (fun i => type (slots i) (slotDoc (slots i)) (slotDoc (uppers i)) (slotDoc (elements i)))
      fun i => slotSpellings (slots i) ++
        (slotSpellings (uppers i) ++ slotSpellings (elements i)) := by
  rcases eq_none_or_exists_some hSlots with ⟨rfl, rfl⟩ | ⟨node, nodes, rfl, rfl, hShape⟩
  · obtain rfl : uppers = fun _ => none := funext (hBounds rfl)
    exact hElement
  · exact (h.cons ((hUpper.cons (hElement.single.cons_fixed (.text (by decide)))).cons_fixed
      (.text (by decide)))).cons_fixed (.text (by decide))

end

end Source

end PascalTree

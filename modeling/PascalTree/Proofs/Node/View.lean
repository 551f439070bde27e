import PascalTree.Node.Build
import PascalTree.Proofs.Node.Rewrite
import PascalTree.Proofs.Node.Walk

/-! # The tree view determines the tree

A drawing gives back its diagram, and a diagram gives back its tree: the caption of an entry tells
the label of the node, and the names before the captions tell which slots are filled. Only reals
that are spelled alike cannot be told apart.
-/
namespace PascalTree
set_option autoImplicit false

theorem Kind.name_inj {first second : Kind} (h : first.name = second.name) : first = second := by
  have hNames : (Kind.all.map Kind.name).Nodup := by decide
  exact List.inj_on_of_nodup_map hNames first.mem_all second.mem_all h

/-- The sign is no digit, and digits are read back by their value. -/
theorem toString_int_inj {first second : Int} (h : toString first = toString second) :
    first = second := by
  have hDigits {m n : Nat} (h : Nat.toDigits 10 m = Nat.toDigits 10 n) : m = n := by
    have hValue := congrArg (Nat.ofDigitChars 10 · 0) h
    simpa only [Nat.ofDigitChars_ten_toDigits] using hValue
  have hSign (m n : Nat) : '-' :: Nat.toDigits 10 m ≠ Nat.toDigits 10 n := by
    intro hEq
    have hDigit := Nat.isDigit_of_mem_toDigits (by decide) (by decide) (hEq ▸ List.mem_cons_self)
    exact absurd hDigit (by decide)
  rw [Int.toString_eq_repr, Int.toString_eq_repr, ← String.toList_inj] at h
  cases first <;> cases second <;>
    simp only [Int.repr, String.toList_append, Nat.toList_repr] at h
  case ofNat.ofNat => exact congrArg Int.ofNat (hDigits h)
  case negSucc.negSucc => exact congrArg Int.negSucc (Nat.succ.inj (hDigits (List.cons.inj h).2))
  case ofNat.negSucc => exact absurd h.symm (hSign _ _)
  case negSucc.ofNat => exact absurd h (hSign _ _)

namespace Payload

/-- The same payload, or reals that are spelled alike. -/
inductive Agrees : Payload → Payload → Prop
  | refl (payload : Payload) : Agrees payload payload
  | real {first second : Binary64} (h : first.literal = second.literal) :
    Agrees (.real first) (.real second)

theorem agrees_of_spelling_eq {first second : Payload} (hKind : first.kind = second.kind)
    (hSpelling : first.spelling = second.spelling) : Agrees first second := by
  cases first <;> cases second <;> cases hKind
  case identifier.identifier.refl name name' =>
    exact (show name = name' from hSpelling) ▸ .refl _
  case string.string.refl text text' => exact (show text = text' from hSpelling) ▸ .refl _
  case simpleType.simpleType.refl => exact TypeName.keyword_inj hSpelling ▸ .refl _
  case direction.direction.refl => exact Direction.keyword_inj hSpelling ▸ .refl _
  case operator.operator.refl => exact Operator.symbol_inj hSpelling ▸ .refl _
  case integer.integer.refl =>
    exact Int64.toInt_inj.mp (toString_int_inj hSpelling) ▸ .refl _
  case real.real.refl => exact .real hSpelling
  case boolean.boolean.refl value value' =>
    have hValue : value = value' := by
      revert hSpelling
      cases value <;> cases value' <;> decide
    exact hValue ▸ .refl _

theorem eq_of_rel_agrees {first second : Option Payload} (h : Option.Rel Agrees first second)
    (hReal : ∀ payload ∈ first, payload.kind ≠ .real) : first = second := by
  cases h with
  | none => rfl
  | some hAgrees =>
    cases hAgrees with
    | refl => rfl
    | real => exact absurd rfl (hReal _ rfl)

theorem caption_eq_of_ne {payload : Payload} (h : payload.kind ≠ .string) :
    payload.caption = payload.kind.name ++ " (" ++ payload.spelling ++ ")" := by
  cases payload with
  | string text => exact absurd rfl h
  | _ => rfl

/-- A bracket comes behind the name of a kind and never within it. -/
theorem toList_caption_of_ne {payload : Payload} (h : payload.kind ≠ .string) :
    payload.caption.toList =
      (payload.kind.name.toList ++ [' ']) ++ '(' :: (payload.spelling.toList ++ [')']) ∧
        '(' ∉ payload.kind.name.toList ++ [' '] := by
  constructor
  · rw [caption_eq_of_ne h]
    simp
  · have hName : '(' ∉ payload.kind.name.toList := fun hMem =>
      absurd (payload.kind.isAlpha_or_eq_of_mem_name '(' hMem) (by decide)
    simpa using hName

theorem exists_eq_string {payload : Payload} (h : payload.kind = .string) :
    ∃ text, payload = string text := by
  cases payload with
  | string text => exact ⟨text, rfl⟩
  | _ => cases h

theorem caption_string_ne (text : String) {payload : Payload} (h : payload.kind ≠ .string) :
    (string text).caption ≠ payload.caption := by
  rw [caption_eq_of_ne h, ne_eq, ← String.toList_inj]
  cases payload <;> simp [caption, kind, Kind.name] at h ⊢

theorem spelling_of_caption_eq {first second : Payload} (h : first.caption = second.caption) :
    first.kind = second.kind ∧ first.spelling = second.spelling := by
  by_cases hFirst : first.kind = .string
  · obtain ⟨text, rfl⟩ := exists_eq_string hFirst
    by_cases hSecond : second.kind = .string
    · obtain ⟨text', rfl⟩ := exists_eq_string hSecond
      have hText : text = text' := by simpa [caption, kind] using h
      exact ⟨rfl, hText⟩
    · exact absurd h (caption_string_ne text hSecond)
  · by_cases hSecond : second.kind = .string
    · obtain ⟨text', rfl⟩ := exists_eq_string hSecond
      exact absurd h.symm (caption_string_ne text' hFirst)
    · obtain ⟨hLeft, hLeftName⟩ := toList_caption_of_ne hFirst
      obtain ⟨hRight, hRightName⟩ := toList_caption_of_ne hSecond
      rw [← String.toList_inj, hLeft, hRight] at h
      obtain ⟨hName, hRest⟩ := append_cons_inj_of_not_mem hLeftName hRightName h
      refine ⟨Kind.name_inj (String.toList_inj.mp ?_), String.toList_inj.mp ?_⟩
      · exact List.append_cancel_right hName
      · exact List.append_cancel_right hRest

theorem caption_ne_name (payload : Payload) (kind : Kind) : payload.caption ≠ kind.name := by
  intro h
  by_cases hString : payload.kind = .string
  · obtain ⟨text, rfl⟩ := exists_eq_string hString
    rw [← String.toList_inj] at h
    cases kind <;> simp [caption, Payload.kind, Kind.name] at h
  · have hBracket : '(' ∈ kind.name.toList := by
      rw [← h, (toList_caption_of_ne hString).1]
      simp
    exact absurd (kind.isAlpha_or_eq_of_mem_name '(' hBracket) (by decide)

end Payload

theorem Kind.nodup_slotNames (kind : Kind) : kind.slotNames.Nodup := by
  cases kind <;> decide

theorem Diagram.labelled_inj {name name' : String} {first second : Diagram}
    (hName : ':' ∉ name.toList) (hName' : ':' ∉ name'.toList)
    (h : first.labelled name = second.labelled name') : name = name' ∧ first = second := by
  obtain ⟨caption, branches⟩ := first
  obtain ⟨caption', branches'⟩ := second
  obtain ⟨hCaption, rfl⟩ := Diagram.entry.inj h
  rw [← String.toList_inj] at hCaption
  simp only [String.toList_append, List.append_assoc] at hCaption
  obtain ⟨hNames, hRest⟩ := append_cons_inj_of_not_mem hName hName' hCaption
  obtain ⟨-, hCaption⟩ := List.cons.inj hRest
  rw [String.toList_inj.mp hNames, String.toList_inj.mp hCaption]
  exact ⟨rfl, rfl⟩

/-- The names of the filled slots tell which slots are filled. -/
theorem namedSlots_inj {α : Type} {names : List String} (hNames : names.Nodup)
    {first second : List (Option α)} (hFirst : first.length = names.length)
    (hSecond : second.length = names.length)
    (h : namedSlots names first = namedSlots names second) : first = second := by
  induction names generalizing first second with
  | nil =>
    rw [List.length_eq_zero_iff.mp hFirst, List.length_eq_zero_iff.mp hSecond]
  | cons name names ih =>
    obtain ⟨slot, first, rfl⟩ := List.exists_cons_of_length_eq_add_one hFirst
    obtain ⟨slot', second, rfl⟩ := List.exists_cons_of_length_eq_add_one hSecond
    rw [List.nodup_cons] at hNames
    have hRest := ih hNames.2 (Nat.succ.inj hFirst) (Nat.succ.inj hSecond)
    -- a slot that is filled on one side only would have its name once more among the others
    match slot, slot' with
    | none, none => rw [hRest h]
    | some child, some child' =>
      obtain ⟨hChild, hOthers⟩ := List.cons.inj h
      rw [(Prod.mk.inj hChild).2, hRest hOthers]
    | none, some child' =>
      have hHead : namedSlots names first = (name, child') :: namedSlots names second := h
      have hMem : (name, child') ∈ namedSlots names first := hHead ▸ List.mem_cons_self
      exact absurd (mem_names_of_mem_namedSlots hMem) hNames.1
    | some child, none =>
      have hHead : (name, child) :: namedSlots names first = namedSlots names second := h
      have hMem : (name, child) ∈ namedSlots names second := hHead ▸ List.mem_cons_self
      exact absurd (mem_names_of_mem_namedSlots hMem) hNames.1

/-- The branches of an entry tell the slots and the items apart and give them back. -/
theorem Kind.named_inj {kind : Kind} {slots slots' : List (Option Diagram)}
    {items items' : List Diagram} (hSlots : slots.length = kind.arity)
    (hSlots' : slots'.length = kind.arity) (hItems : ¬ kind.isList → items = [])
    (hItems' : ¬ kind.isList → items' = [])
    (h : (kind.named slots items).map (fun named => named.2.inSlot named.1) =
      (kind.named slots' items').map fun named => named.2.inSlot named.1) :
    slots = slots' ∧ items = items' := by
  by_cases hList : kind.isList
  · have hArity := Kind.arity_eq_zero_of_isList hList
    obtain rfl : slots = [] := List.length_eq_zero_iff.mp (hSlots.trans hArity)
    obtain rfl : slots' = [] := List.length_eq_zero_iff.mp (hSlots'.trans hArity)
    have hBranches (items : List Diagram) :
        (kind.named [] items).map (fun named => named.2.inSlot named.1) = items := by
      simp [named, namedSlots, Diagram.inSlot_none, Function.comp_def]
    rw [hBranches, hBranches] at h
    exact ⟨rfl, h⟩
  · obtain rfl := hItems hList
    obtain rfl := hItems' hList
    have hBranches (slots : List (Option Diagram)) :
        (kind.named slots []).map (fun named => named.2.inSlot named.1) =
          (namedSlots kind.slotNames slots).map fun named => named.2.labelled named.1 := by
      simp [named, Diagram.inSlot_some, Function.comp_def]
    have hColon (slots : List (Option Diagram)) :
        ∀ named ∈ namedSlots kind.slotNames slots, ':' ∉ named.1.toList := by
      intro named hNamed hMem
      have hName := mem_names_of_mem_namedSlots hNamed
      exact absurd (kind.isAlpha_of_mem_slotName named.1 hName ':' hMem) (by decide)
    rw [hBranches, hBranches] at h
    have hNamed := forall₂_of_map_eq h fun named hMem named' hMem' hEq =>
      Prod.ext_iff.mpr (Diagram.labelled_inj (hColon slots named hMem)
        (hColon slots' named' hMem') hEq)
    rw [List.forall₂_eq_eq_eq] at hNamed
    exact ⟨namedSlots_inj kind.nodup_slotNames hSlots hSlots' hNamed, rfl⟩

namespace Node

/-- The same kinds, the same filled slots, the same items in the same order, and payloads that
agree, from the root down. -/
inductive Agrees : Node → Node → Prop
  | intro {first second : Node} (hKind : first.kind = second.kind)
    (hPayload : Option.Rel Payload.Agrees first.payload second.payload)
    (hSlots : List.Forall₂ (Option.Rel Agrees) first.slots second.slots)
    (hItems : List.Forall₂ Agrees first.items second.items) : Agrees first second

theorem kind_eq_of_payload_eq_some {node : Node} {payload : Payload}
    (h : node.payload = some payload) : node.kind = payload.kind := by
  cases node <;> cases h
  rfl

theorem items_eq_nil {node : Node} (h : ¬ node.kind.isList) : node.items = [] := by
  cases node with
  | list kind items => exact absurd (isList_kind _ |>.mpr ⟨kind, items, rfl⟩) h
  | _ => rfl

theorem label_of_caption_eq {first second : Node}
    (h : first.label.caption = second.label.caption) :
    first.kind = second.kind ∧ Option.Rel Payload.Agrees first.payload second.payload := by
  have hSome {node : Node} {payload : Payload} (hPayload : node.payload = some payload) :
      node.label.caption = payload.caption := by
    rw [Label.caption, label, hPayload]
  have hNone {node : Node} (hPayload : node.payload = none) :
      node.label.caption = node.kind.name := by
    rw [Label.caption, label, hPayload]
  cases hFirst : first.payload <;> cases hSecond : second.payload
  case none.none =>
    rw [hNone hFirst, hNone hSecond] at h
    exact ⟨Kind.name_inj h, .none⟩
  case some.some payload payload' =>
    rw [hSome hFirst, hSome hSecond] at h
    obtain ⟨hKind, hSpelling⟩ := Payload.spelling_of_caption_eq h
    refine ⟨?_, .some (Payload.agrees_of_spelling_eq hKind hSpelling)⟩
    rw [kind_eq_of_payload_eq_some hFirst, kind_eq_of_payload_eq_some hSecond, hKind]
  case none.some payload' =>
    rw [hNone hFirst, hSome hSecond] at h
    exact absurd h.symm (payload'.caption_ne_name _)
  case some.none payload =>
    rw [hSome hFirst, hNone hSecond] at h
    exact absurd h (payload.caption_ne_name _)

theorem agrees_of_diagram_eq {first second : Node} (h : first.diagram = second.diagram) :
    first.Agrees second := by
  induction first using inductionOn generalizing second with
  | step first ih =>
    rw [diagram_eq_entry, diagram_eq_entry] at h
    obtain ⟨hCaption, hBranches⟩ := Diagram.entry.inj h
    obtain ⟨hKind, hPayload⟩ := label_of_caption_eq hCaption
    rw [hKind] at hBranches
    obtain ⟨hSlots, hItems⟩ := Kind.named_inj (by rw [List.length_map, length_slots, hKind])
      (by rw [List.length_map, length_slots])
      (fun hList => by rw [items_eq_nil (hKind ▸ hList), List.map_nil])
      (fun hList => by rw [items_eq_nil hList, List.map_nil]) hBranches
    refine .intro hKind hPayload ?_ ?_
    · refine forall₂_of_map_eq hSlots fun slot hSlot slot' _ hEq => ?_
      match slot, slot', hEq with
      | none, none, _ => exact .none
      | some child, some child', hEq =>
        exact .some (ih child (mem_children_iff.mpr (.inl hSlot)) (Option.some.inj hEq))
    · exact forall₂_of_map_eq hItems fun item hItem item' _ hEq =>
        ih item (mem_children_iff.mpr (.inr hItem)) hEq

theorem eq_of_parts_eq {first second : Node} (hLabel : first.label = second.label)
    (hSlots : first.slots = second.slots) (hItems : first.items = second.items) :
    first = second := by
  have hParts (node : Node) : ofParts node.label node.slots node.items = node := by
    have hSelf := mapChildren_eq_self_iff.mpr fun (child : Node) (_ : child ∈ node.children) => rfl
    simpa using (ofParts_map id node).trans hSelf
  rw [← hParts first, ← hParts second, hLabel, hSlots, hItems]

theorem eq_of_forall₂ {α : Type} {r : α → α → Prop} {first second : List α}
    (h : List.Forall₂ r first second) (hEq : ∀ a ∈ first, ∀ b, r a b → a = b) : first = second := by
  induction h with
  | nil => rfl
  | @cons a b first second hHead _ ih =>
    rw [hEq a List.mem_cons_self b hHead, ih fun a hA => hEq a (List.mem_cons_of_mem _ hA)]

theorem Agrees.eq {first second : Node} (h : first.Agrees second)
    (hReal : ∀ payload ∈ first.payloads, payload.kind ≠ .real) : first = second := by
  induction first using inductionOn generalizing second with
  | step first ih =>
    obtain ⟨hKind, hPayload, hSlots, hItems⟩ := h
    have hChild := fun child (hMem : child ∈ first.children) other (hAgrees : child.Agrees other) =>
      ih child hMem hAgrees fun payload hPayload =>
        hReal payload (payloads_subset_of_mem_children hMem hPayload)
    have hSame := Payload.eq_of_rel_agrees hPayload fun payload hPayload => hReal payload <| by
      rw [payloads, preorder_eq]
      exact List.mem_filterMap.mpr ⟨first.label, List.mem_cons_self, hPayload⟩
    refine eq_of_parts_eq ?_ (eq_of_forall₂ hSlots ?_) (eq_of_forall₂ hItems ?_)
    · rw [label, label, hKind, hSame]
    · rintro slot hSlot other (hAgrees | _)
      · exact congrArg some (hChild _ (mem_children_iff.mpr (.inl hSlot)) _ hAgrees)
      · rfl
    · exact fun item hItem => hChild item (mem_children_iff.mpr (.inr hItem))

end Node

/-- Trees with the same view agree, so they are the same when no reals are among their leaves. -/
theorem agrees_of_view_eq {first second : Node}
    (hFirst : ∀ payload ∈ first.payloads, ∀ text ∈ payload.text, '\n' ∉ text.toList)
    (hSecond : ∀ payload ∈ second.payloads, ∀ text ∈ payload.text, '\n' ∉ text.toList)
    (h : first.view = second.view) :
    first.Agrees second ∧
      ((∀ payload ∈ first.payloads, payload.kind ≠ .real) → first = second) := by
  have hDiagram : first.diagram = second.diagram :=
    Diagram.text_inj (Node.not_mem_outline_diagram hFirst) (Node.not_mem_outline_diagram hSecond) h
  have hAgrees := Node.agrees_of_diagram_eq hDiagram
  exact ⟨hAgrees, hAgrees.eq⟩

/-- Two values that are not numbers look alike in the view. -/
theorem agrees_of_view_eq_nan :
    (Build.negate (.leaf (.real ⟨0x7ff8000000000000⟩))).view =
        "╰─ Negate\n   ╰─ Operand: Real (NaN)\n" ∧
      (Build.negate (.leaf (.real ⟨0x7ff8000000000000⟩))).Agrees
        (Build.negate (.leaf (.real ⟨0x7ff8000000000001⟩))) :=
  ⟨by decide +kernel, (@agrees_of_view_eq (Build.negate (.leaf (.real ⟨0x7ff8000000000000⟩)))
    (Build.negate (.leaf (.real ⟨0x7ff8000000000001⟩))) (by decide) (by decide)
      (by decide +kernel)).1⟩

end PascalTree

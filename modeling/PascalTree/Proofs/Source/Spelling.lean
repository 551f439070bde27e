import PascalTree.Proofs.Layout.Whitespace

/-! # Spellings without blanks

Numbers, truth values and symbols are spelled without blanks. Blanks in a printed leaf come from the
text it owns or from the spaces around a symbol.
-/
namespace PascalTree
set_option autoImplicit false

def IsUnbroken (text : List Char) : Prop := ∀ char ∈ text, ¬ isBlank char

instance (text : List Char) : Decidable (IsUnbroken text) :=
  List.decidableBAll (fun char => ¬ isBlank char) text

namespace IsUnbroken

theorem append {first second : List Char} (hFirst : IsUnbroken first)
    (hSecond : IsUnbroken second) : IsUnbroken (first ++ second) := by
  intro char hChar
  rcases List.mem_append.mp hChar with h | h
  · exact hFirst char h
  · exact hSecond char h

theorem sublist {first second : List Char} (h : IsUnbroken second) (hSub : first.Sublist second) :
    IsUnbroken first :=
  fun char hChar => h char (hSub.subset hChar)

theorem replicate_zero (count : Nat) : IsUnbroken (List.replicate count '0') := by
  intro char hChar
  rw [(List.mem_replicate.mp hChar).2]
  decide

theorem digits (n : Nat) : IsUnbroken (Nat.toDigits 10 n) := by
  intro char hChar hBlank
  have hDigit := Nat.isDigit_of_mem_toDigits (by decide) (by decide) hChar
  rcases isBlank_iff.mp hBlank with rfl | rfl | rfl | rfl <;> revert hDigit <;> decide

end IsUnbroken

theorem isUnbroken_repr (value : Int) : IsUnbroken (toString value).toList := by
  rw [Int.toString_eq_repr]
  cases value with
  | ofNat n =>
    rw [Int.repr, Nat.toList_repr]
    exact .digits n
  | negSucc n =>
    rw [Int.repr, String.toList_append, Nat.toList_repr]
    exact .append (by decide) (.digits _)

namespace Decimal

theorem isUnbroken_positional (d : Decimal) : IsUnbroken d.positional := by
  have hNumerals : IsUnbroken d.numerals := .digits d.digits
  have hZeros := IsUnbroken.replicate_zero
  unfold positional
  dsimp only
  split
  · exact (hNumerals.append (hZeros _)).append (by decide)
  · split
    · exact (IsUnbroken.append (by decide) (hZeros _)).append hNumerals
    · exact ((hNumerals.sublist (List.take_sublist _ _)).append
        (by decide)).append (hNumerals.sublist (List.drop_sublist _ _))

theorem isUnbroken_scientific (d : Decimal) : IsUnbroken d.scientific := by
  have hNumerals : IsUnbroken d.numerals := .digits d.digits
  unfold scientific
  refine .append (.append ?_ (by decide)) (isUnbroken_repr _)
  split
  · exact fun _ hChar => absurd hChar List.not_mem_nil
  · rename_i hDigits
    rwa [hDigits] at hNumerals
  · rename_i digit rest _ hDigits
    rw [hDigits] at hNumerals
    have hHead : IsUnbroken [digit] := hNumerals.sublist (List.singleton_sublist.mpr (by simp))
    have hTail : IsUnbroken rest := hNumerals.sublist (List.sublist_cons_self _ _)
    have hPoint : IsUnbroken ['.'] := by decide
    exact (hHead.append hPoint).append hTail

end Decimal

theorem Binary64.isUnbroken_literal (x : Binary64) : IsUnbroken x.literal.toList := by
  have hMagnitude : IsUnbroken x.magnitude := by
    unfold magnitude Decimal.literal
    split
    · decide
    · split
      · split
        · exact x.shortest.isUnbroken_positional
        · exact x.shortest.isUnbroken_scientific
      · decide
  unfold literal
  split
  · decide
  · split
    · rw [String.toList_ofList]
      have hSign : IsUnbroken ['-'] := by decide
      exact hSign.append hMagnitude
    · rwa [String.toList_ofList]

/-- Only identifiers and strings can hold blanks. -/
theorem Payload.isUnbroken_spelling {payload : Payload} (h : payload.text = none) :
    IsUnbroken payload.spelling.toList := by
  cases payload with
  | identifier | string => simp [text] at h
  | simpleType name => cases name <;> decide
  | direction way => cases way <;> decide
  | operator sign => cases sign <;> decide
  | integer value => exact isUnbroken_repr value.toInt
  | real value => exact value.isUnbroken_literal
  | boolean value => cases value <;> decide

/-- A spelling holds a blank only if the text that the leaf owns does. -/
theorem Payload.not_mem_spelling {payload : Payload} {blank : Char}
    (hBlank : isBlank blank) (h : ∀ text ∈ payload.text, blank ∉ text.toList) :
    blank ∉ payload.spelling.toList := by
  cases hText : payload.text with
  | some text =>
    have hOwned := h text hText
    cases payload <;> simp_all [Payload.text, Payload.spelling]
  | none => exact fun hMem => Payload.isUnbroken_spelling hText blank hMem hBlank

end PascalTree

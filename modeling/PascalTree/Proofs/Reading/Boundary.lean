import PascalTree.Proofs.Reading.Token

/-! # Where tokens end

A text that is printed on its own is scanned on its own if the text behind it cannot prolong its
last token. Such a boundary stands behind every word, number and string of a printed source.
-/
namespace PascalTree
set_option autoImplicit false

namespace Token

/-- No word, number or string goes on here, and no sign other than a period. -/
def isBoundary : List Char → Bool
  | [] => true
  | '.' :: digit :: _ => ! digit.isDigit
  | char :: _ => ! isWordChar char && char ∉ ['\'', '=', '>', '-']

theorem isWordChar_of_isDigit {char : Char} (h : char.isDigit) : isWordChar char := by
  simp [isWordChar, Char.isAlphanum, h]

theorem isWordChar_of_isAlpha {char : Char} (h : char.isAlpha) : isWordChar char := by
  simp [isWordChar, Char.isAlphanum, h]

section
variable {rest : List Char}

theorem not_isWordChar_of_isBoundary (h : isBoundary rest) :
    ∀ char ∈ rest.head?, ¬ isWordChar char := by
  intro char hChar
  cases rest with
  | nil => cases hChar
  | cons head tail =>
    obtain rfl : head = char := by simpa using hChar
    revert h
    unfold isBoundary
    split
    · rename_i hEq
      cases hEq
    · rename_i hEq
      cases hEq
      intro _
      decide
    · rename_i hEq
      cases hEq
      intro hBoundary
      simp_all

theorem not_isDigit_of_isBoundary (h : isBoundary rest) :
    ∀ char ∈ rest.head?, ¬ char.isDigit := by
  intro char hChar hDigit
  exact not_isWordChar_of_isBoundary h char hChar (isWordChar_of_isDigit hDigit)

theorem takeWhile_append_rest {property : Char → Bool} {text : List Char}
    (hRest : ∀ char ∈ rest.head?, ¬ property char) :
    (text ++ rest).takeWhile property = text.takeWhile property ∧
      (text ++ rest).dropWhile property = text.dropWhile property ++ rest := by
  induction text with
  | nil =>
    cases rest with
    | nil => exact ⟨rfl, rfl⟩
    | cons head tail => simp [hRest head rfl]
  | cons char tail ih =>
    cases hChar : property char with
    | false => simp [hChar]
    | true => simp [hChar, ih]

theorem takeWhile_append_of_head {property : Char → Bool} {text : List Char}
    (hText : ∀ char ∈ text, property char) (hRest : ∀ char ∈ rest.head?, ¬ property char) :
    (text ++ rest).takeWhile property = text ∧ (text ++ rest).dropWhile property = rest := by
  obtain ⟨hTake, hDrop⟩ := @takeWhile_append_rest rest property [] hRest
  rw [List.nil_append] at hTake hDrop
  rw [List.takeWhile_append_of_pos hText, List.dropWhile_append_of_pos hText, hTake, hDrop]
  simp

theorem scanFraction_of_isBoundary (h : isBoundary rest) : scanFraction rest = ([], rest) := by
  unfold scanFraction
  split
  · simp_all [isBoundary]
  · rfl

theorem scanExponent_of_isBoundary (h : isBoundary rest) : scanExponent rest = (none, rest) := by
  have hHead := not_isWordChar_of_isBoundary h
  unfold scanExponent
  split
  · exact absurd rfl (hHead 'e' rfl)
  · exact absurd rfl (hHead 'e' rfl)
  · rfl

/-- A letter, and letters, digits and underscores after it. -/
def isWord (word : String) : Bool :=
  match word.toList with
  | [] => false
  | head :: tail => head.isAlpha && tail.all isWordChar

theorem not_isBlank_of_isWordChar {char : Char} (h : isWordChar char) : ¬ isBlank char := by
  intro hBlank
  rcases isBlank_iff.mp hBlank with rfl | rfl | rfl | rfl <;> revert h <;> decide

theorem scans_word {word : String} (hWord : isWord word) (h : isBoundary rest) :
    Scans (word.toList ++ rest) [ofWord word] rest := by
  unfold isWord at hWord
  split at hWord
  · cases hWord
  · rename_i head tail hChars
    rw [Bool.and_eq_true, List.all_eq_true] at hWord
    obtain ⟨hTake, hDrop⟩ := takeWhile_append_of_head hWord.2
      (not_isWordChar_of_isBoundary h)
    have hBlank := not_isBlank_of_isWordChar (isWordChar_of_isAlpha hWord.1)
    apply Scans.single
    rw [hChars, List.cons_append, next, if_neg hBlank, if_pos hWord.1, hTake, hDrop, ← hChars,
      String.ofList_toList]

/-- No line ends, and quotes only in pairs. -/
def isQuotable : List Char → Bool
  | '\'' :: '\'' :: rest => isQuotable rest
  | char :: rest => char != '\'' && char != '\n' && char != '\r' && isQuotable rest
  | [] => true

theorem scanQuoted_append {text : List Char} (hText : isQuotable text)
    (hRest : rest.head? ≠ some '\'') :
    scanQuoted (text ++ '\'' :: rest) = some (text ++ ['\''], rest) := by
  fun_induction isQuotable text with
  | case1 text ih =>
    rw [List.cons_append, List.cons_append, scanQuoted, ih hText]
    rfl
  | case2 char text hPair ih =>
    simp only [Bool.and_eq_true, bne_iff_ne] at hText
    obtain ⟨⟨⟨hQuote, hFeed⟩, hReturn⟩, hText⟩ := hText
    rw [List.cons_append, scanQuoted, ih hText]
    · rfl
    · intro _ hChar
      exact absurd hChar hQuote
    · exact hQuote
    · exact hFeed
    · exact hReturn
  | case3 =>
    rw [List.nil_append, scanQuoted]
    · rfl
    · intro tail hTail
      rw [hTail] at hRest
      exact hRest rfl

theorem head?_ne_of_isBoundary (h : isBoundary rest) {sign : Char}
    (hSign : sign ∈ ['\'', '=', '>', '-']) : rest.head? ≠ some sign := by
  intro hHead
  obtain ⟨tail, rfl⟩ := List.head?_eq_some_iff.mp hHead
  simp only [List.mem_cons, List.not_mem_nil, or_false] at hSign
  rcases hSign with rfl | rfl | rfl | rfl <;> simp [isBoundary] at h

theorem scans_string {text : List Char} (hText : isQuotable text) (h : isBoundary rest) :
    Scans ('\'' :: text ++ '\'' :: rest)
      [string (String.ofList ('\'' :: text ++ ['\'']))] rest := by
  apply Scans.single
  change (scanQuoted (text ++ '\'' :: rest)).map _ = _
  rw [scanQuoted_append hText (head?_ne_of_isBoundary h (by decide))]
  rfl

end

end Token
end PascalTree

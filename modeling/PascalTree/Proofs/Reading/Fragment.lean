import PascalTree.Proofs.Reading.Boundary
import PascalTree.Proofs.Reading.Pairing

/-! # Reading a text where it stands

Before a boundary, a text is read as it is read on its own: none of its tokens reaches into what
stands behind it. There is one exception. A quote that is left open takes in the text behind it, up
to the next quote on the line, and hides the words there.
-/
namespace PascalTree
set_option autoImplicit false

namespace Token

def isLineEnd (char : Char) : Bool := char == '\n' || char == '\r'

/-- The text ends inside a quote: no other quote stands behind it, and no line end either. -/
def endsInQuote (source : List Char) : Bool :=
  match _hNext : next source with
  | some (_, rest) => endsInQuote rest
  | none =>
    match source with
    | [] => false
    | char :: rest => char == '\'' && ! rest.any isLineEnd || endsInQuote rest
termination_by source.length
decreasing_by
  · exact length_next_lt _hNext
  · exact Nat.lt_succ_self _

/-- Where all characters belong to tokens, no quote is open. -/
theorem Scans.endsInQuote_eq {source rest : List Char} {tokens : List Token}
    (h : Scans source tokens rest) : endsInQuote source = endsInQuote rest := by
  induction h with
  | done => rfl
  | step h _ ih =>
    rw [endsInQuote]
    split
    · simp_all
    · simp_all

def signs : List Char :=
  [':', '.', '<', '>', '=', '+', '-', '*', '/', '(', ')', '[', ']', ',', ';']

theorem scanSign_eq_none {char : Char} {tail : List Char} (h : char ∉ signs) :
    scanSign (char :: tail) = none := by
  simp only [signs, List.mem_cons, List.not_mem_nil, or_false, not_or] at h
  simp [scanSign, h]

section
variable {text rest : List Char}

theorem scanSign_colon (h : ∀ others, text = '=' :: others → False) :
    scanSign (':' :: text) = some (mark .colon, text) := by
  rw [scanSign]
  exact h

theorem scanSign_period (h : ∀ others, text = '.' :: others → False) :
    scanSign ('.' :: text) = some (mark .period, text) := by
  rw [scanSign]
  exact h

theorem scanSign_less (hEqual : ∀ others, text = '=' :: others → False)
    (hGreater : ∀ others, text = '>' :: others → False) :
    scanSign ('<' :: text) = some (operator .lt, text) := by
  rw [scanSign]
  · exact hEqual
  · exact hGreater

theorem scanSign_greater (h : ∀ others, text = '=' :: others → False) :
    scanSign ('>' :: text) = some (operator .gt, text) := by
  rw [scanSign]
  exact h

theorem eq_cons_or (text : List Char) (sign : Char) :
    (∃ others, text = sign :: others) ∨ ∀ others, text = sign :: others → False :=
  (Classical.em _).imp_right not_exists.mp

theorem append_ne_cons {sign : Char} (hRest : text = [] → rest.head? ≠ some sign)
    (h : ∀ others, text = sign :: others → False) (others : List Char) :
    text ++ rest = sign :: others → False := by
  intro hEq
  cases text with
  | nil => exact hRest rfl (congrArg List.head? hEq)
  | cons head tail =>
    obtain ⟨rfl, -⟩ := List.cons.inj hEq
    exact h tail rfl

variable (hRest : isBoundary rest)
include hRest

/-- A boundary is not the second half of a pair of signs. -/
theorem append_ne_sign {sign : Char} (hSign : sign ∈ ['\'', '=', '>', '-'])
    (h : ∀ others, text = sign :: others → False) :
    ∀ others, text ++ rest = sign :: others → False :=
  append_ne_cons (fun _ => head?_ne_of_isBoundary hRest hSign) h

theorem scanFraction_before : scanFraction (text ++ rest) =
    ((scanFraction text).1, (scanFraction text).2 ++ rest) := by
  have hDigits := not_isDigit_of_isBoundary hRest
  fun_cases scanFraction text with
  | case1 digit tail hDigit =>
    obtain ⟨hTake, hDrop⟩ := @takeWhile_append_rest rest _ tail hDigits
    simp [scanFraction, hDigit, hTake, hDrop]
  | case2 digit tail hDigit => simp [scanFraction, hDigit]
  | case3 _ hOther =>
    match text with
    | [] => exact scanFraction_of_isBoundary hRest
    | [head] =>
      cases rest with
      | nil => simp [scanFraction]
      | cons digit others =>
        have hDigit := hDigits digit rfl
        by_cases hHead : head = '.' <;> simp [scanFraction, hHead, hDigit]
    | head :: digit :: others =>
      have hHead : head ≠ '.' := by
        rintro rfl
        exact hOther digit others rfl
      simp [scanFraction, hHead]

theorem scanExponent_before : scanExponent (text ++ rest) =
    ((scanExponent text).1, (scanExponent text).2 ++ rest) := by
  have hDigits := not_isDigit_of_isBoundary hRest
  fun_cases scanExponent text with
  | case1 digit tail hDigit =>
    obtain ⟨hTake, hDrop⟩ := @takeWhile_append_rest rest _ tail hDigits
    simp [scanExponent, hDigit, hTake, hDrop]
  | case2 digit tail hDigit => simp [scanExponent, hDigit]
  | case3 digit tail hSign hDigit =>
    obtain ⟨hTake, hDrop⟩ := @takeWhile_append_rest rest _ tail hDigits
    have hMinus : digit ≠ '-' := by
      rintro rfl
      exact absurd hDigit (by decide)
    simp [scanExponent, hDigit, hTake, hDrop, hMinus]
  | case4 digit tail hSign hDigit =>
    by_cases hMinus : digit = '-'
    · subst hMinus
      obtain rfl : tail = [] := by
        cases tail with
        | nil => rfl
        | cons other others => exact absurd rfl (hSign other others rfl)
      cases rest with
      | nil => rfl
      | cons other others => simp [scanExponent, hDigits other rfl]
    · simp [scanExponent, hMinus, hDigit]
  | case5 _ hSign hOther =>
    match text with
    | [] => exact scanExponent_of_isBoundary hRest
    | [head] =>
      cases rest with
      | nil => simp [scanExponent]
      | cons digit others =>
        have hDigit := hDigits digit rfl
        have hMinus : digit ≠ '-' := by
          rintro rfl
          simp [isBoundary] at hRest
        by_cases hHead : head = 'e' <;> simp [scanExponent, hHead, hDigit, hMinus]
    | head :: digit :: others =>
      have hHead : head ≠ 'e' := by
        rintro rfl
        exact hOther digit others rfl
      simp [scanExponent, hHead]

theorem scanNumber_before {digit : Char} (hDigit : digit.isDigit) :
    scanNumber (digit :: (text ++ rest)) =
      ((scanNumber (digit :: text)).1, (scanNumber (digit :: text)).2 ++ rest) := by
  obtain ⟨hTake, hDrop⟩ := @takeWhile_append_rest rest _ text (not_isDigit_of_isBoundary hRest)
  simp [scanNumber, hDigit, hTake, hDrop, scanFraction_before hRest, scanExponent_before hRest]

theorem scanQuoted_before (hClosed : scanQuoted text = none → ∃ other ∈ text, isLineEnd other) :
    scanQuoted (text ++ rest) = (scanQuoted text).map (Prod.map id (· ++ rest)) := by
  fun_induction scanQuoted text with
  | case1 text ih =>
    have hInner : scanQuoted text = none → ∃ other ∈ text, isLineEnd other := by
      intro hNone
      simpa [hNone, isLineEnd] using hClosed
    rw [List.cons_append, List.cons_append, scanQuoted, ih hInner, Option.map_map, Option.map_map]
    rfl
  | case2 text hOther =>
    rw [List.cons_append, scanQuoted]
    · rfl
    · exact append_ne_sign hRest (by decide) hOther
  | case3 | case4 => rfl
  | case5 => simp at hClosed
  | case6 char text hPair hQuote hFeed hReturn ih =>
    have hInner : scanQuoted text = none → ∃ other ∈ text, isLineEnd other := by
      intro hNone
      have hChar : ¬ isLineEnd char := by simp_all [isLineEnd]
      simpa [hNone, hChar] using hClosed
    rw [List.cons_append, scanQuoted, ih hInner, Option.map_map, Option.map_map]
    · rfl
    · intro _ hChar
      exact absurd hChar hQuote
    · exact hQuote
    · exact hFeed
    · exact hReturn

theorem scanSign_before {char : Char} {tail : List Char}
    (hPeriod : char = '.' → tail = [] → rest.head? ≠ some '.') :
    scanSign (char :: (tail ++ rest)) =
      (scanSign (char :: tail)).map (Prod.map id (· ++ rest)) := by
  by_cases hSign : char ∈ signs
  · rw [signs, List.mem_cons, List.mem_cons, List.mem_cons, List.mem_cons] at hSign
    -- each of the first four may be the first half of a pair
    rcases hSign with rfl | rfl | rfl | rfl | hSign
    · rcases eq_cons_or tail '=' with ⟨others, rfl⟩ | hLone
      · rfl
      · rw [scanSign_colon hLone, scanSign_colon (append_ne_sign hRest (by decide) hLone)]
        rfl
    · rcases eq_cons_or tail '.' with ⟨others, rfl⟩ | hLone
      · rfl
      · rw [scanSign_period hLone, scanSign_period (append_ne_cons (hPeriod rfl) hLone)]
        rfl
    · rcases eq_cons_or tail '=' with ⟨others, rfl⟩ | hEqual
      · rfl
      · rcases eq_cons_or tail '>' with ⟨others, rfl⟩ | hGreater
        · rfl
        · rw [scanSign_less hEqual hGreater, scanSign_less
            (append_ne_sign hRest (by decide) hEqual) (append_ne_sign hRest (by decide) hGreater)]
          rfl
    · rcases eq_cons_or tail '=' with ⟨others, rfl⟩ | hLone
      · rfl
      · rw [scanSign_greater hLone, scanSign_greater (append_ne_sign hRest (by decide) hLone)]
        rfl
    · simp only [List.mem_cons, List.not_mem_nil, or_false] at hSign
      rcases hSign with rfl | rfl | rfl | rfl | rfl | rfl | rfl | rfl | rfl | rfl | rfl <;> rfl
  · rw [scanSign_eq_none hSign, scanSign_eq_none hSign]
    rfl

/-- Before a boundary, a token of the text is what it is without it, unless it is a period that goes
on as a range. -/
theorem next_before {char : Char} {tail : List Char}
    (hClosed : char = '\'' → next (char :: tail) = none → ∃ other ∈ tail, isLineEnd other)
    (hPeriod : char = '.' → tail = [] → rest.head? ≠ some '.') :
    next (char :: tail ++ rest) = (next (char :: tail)).map (Prod.map id (· ++ rest)) := by
  obtain ⟨hTake, hDrop⟩ := @takeWhile_append_rest rest _ tail (not_isWordChar_of_isBoundary hRest)
  rw [List.cons_append, next, next]
  by_cases hBlank : isBlank char
  · rw [if_pos hBlank, if_pos hBlank]
    rfl
  rw [if_neg hBlank, if_neg hBlank]
  by_cases hAlpha : char.isAlpha
  · rw [if_pos hAlpha, if_pos hAlpha, hTake, hDrop]
    rfl
  rw [if_neg hAlpha, if_neg hAlpha]
  by_cases hDigit : char.isDigit
  · rw [if_pos hDigit, if_pos hDigit, scanNumber_before hRest hDigit]
    rfl
  rw [if_neg hDigit, if_neg hDigit]
  by_cases hQuote : char = '\''
  · have hOpen : scanQuoted tail = none → ∃ other ∈ tail, isLineEnd other := by
      intro hNone
      apply hClosed hQuote
      rw [hQuote]
      exact congrArg (Option.map _) hNone
    rw [if_pos (beq_iff_eq.mpr hQuote), if_pos (beq_iff_eq.mpr hQuote),
      scanQuoted_before hRest hOpen, Option.map_map, Option.map_map]
    rfl
  · rw [if_neg (mt beq_iff_eq.mp hQuote), if_neg (mt beq_iff_eq.mp hQuote),
      scanSign_before hRest hPeriod, Option.map_map, Option.map_map]
    rfl

end

end Token

namespace Cue

/-- A period says nothing, even if it goes on as a range. -/
theorem ofChars_period (rest : List Char) : ofChars ('.' :: rest) = ofChars rest := by
  rcases Token.eq_cons_or rest '.' with ⟨others, rfl⟩ | hLone
  · have hScans : Token.Scans ('.' :: '.' :: others) [.mark .range] others := .single rfl
    rw [ofChars_of_scans hScans, ofChars_period others]
    rfl
  · have hNext : Token.next ('.' :: rest) = some ([.mark .period], rest) := by
      change (Token.scanSign ('.' :: rest)).map _ = _
      rw [Token.scanSign_period hLone]
      rfl
    rw [ofChars_of_scans (.single hNext)]
    rfl
termination_by rest.length
decreasing_by simp_all

/-- A text that leaves no quote open has its own cues before any boundary. -/
theorem ofChars_append {text rest : List Char} (hText : ¬ Token.endsInQuote text)
    (hRest : Token.isBoundary rest) : ofChars (text ++ rest) = ofChars text ++ ofChars rest := by
  fun_induction Token.endsInQuote text with
  | case1 source found left hNext ih =>
    cases source with
    | nil => cases hNext
    | cons char tail =>
      -- behind a period at the end, the next token is another one if a period follows
      by_cases hPeriod : char = '.' ∧ tail = []
      · obtain ⟨rfl, rfl⟩ := hPeriod
        rw [List.singleton_append, ofChars_period, ofChars_period, ofChars_nil, List.nil_append]
      · have hBefore := Token.next_before hRest
          (fun _ hNone => absurd (hNext.symm.trans hNone) (Option.some_ne_none _))
          fun hChar hTail => absurd ⟨hChar, hTail⟩ hPeriod
        rw [hNext] at hBefore
        have hScans : Token.Scans (char :: tail) (found ++ []) left := .step hNext .done
        have hAppend : Token.Scans (char :: tail ++ rest) (found ++ []) (left ++ rest) :=
          .step hBefore .done
        rw [ofChars_of_scans hScans, ofChars_of_scans hAppend, ih hText, List.append_assoc]
  | case2 => rw [List.nil_append, ofChars_nil, List.nil_append]
  | case3 char tail hNext ih =>
    rw [Bool.or_eq_true, not_or] at hText
    have hClosed : char = '\'' → Token.next (char :: tail) = none →
        ∃ other ∈ tail, Token.isLineEnd other := by
      rintro rfl -
      simpa using hText.1
    have hPeriod : char = '.' → tail = [] → rest.head? ≠ some '.' := by
      rintro rfl rfl
      cases hNext
    have hBefore := Token.next_before hRest hClosed hPeriod
    rw [hNext, Option.map_none, List.cons_append] at hBefore
    rw [List.cons_append, ofChars_of_next_eq_none hBefore, ofChars_of_next_eq_none hNext,
      ih hText.2]

end Cue
end PascalTree

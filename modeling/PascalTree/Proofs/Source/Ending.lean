import PascalTree.Proofs.Layout.Lines
import PascalTree.Proofs.Reading.Number
import PascalTree.Proofs.Source.Spelling

/-! # How texts end

A text ends visibly when its last character is no whitespace. Whatever stands before it, the text
keeps its end, so a line ends as the last text on it does. Numbers end with a digit, and the names
of symbols with a letter or a mark.
-/
namespace PascalTree
set_option autoImplicit false

/-- The characters with the Unicode property `White_Space`. -/
def isWhitespace (char : Char) : Bool :=
  (0x9 ≤ char.toNat && char.toNat ≤ 0xD) || (0x2000 ≤ char.toNat && char.toNat ≤ 0x200A) ||
    [0x20, 0x85, 0xA0, 0x1680, 0x2028, 0x2029, 0x202F, 0x205F, 0x3000].contains char.toNat

theorem not_isWhitespace_of_isDigit {char : Char} (h : char.isDigit) : ¬ isWhitespace char := by
  simp only [Char.isDigit, Bool.and_eq_true, decide_eq_true_eq, UInt32.le_iff_toNat_le] at h
  simp only [isWhitespace, List.contains_cons, List.contains_nil, Bool.or_eq_true,
    Bool.and_eq_true, decide_eq_true_eq, beq_iff_eq, Char.toNat] at h ⊢
  simp at h ⊢
  omega

/-- There is a last character, and it is no whitespace. -/
def endsVisibly (text : List Char) : Bool := text.getLast?.any (! isWhitespace ·)

theorem endsVisibly_iff {text : List Char} :
    endsVisibly text ↔ ∃ char ∈ text.getLast?, ¬ isWhitespace char := by
  rw [endsVisibly]
  cases text.getLast? <;> simp

theorem endsVisibly_append (first : List Char) {second : List Char} (h : endsVisibly second) :
    endsVisibly (first ++ second) := by
  obtain ⟨char, hLast, hChar⟩ := endsVisibly_iff.mp h
  rw [endsVisibly_iff, List.getLast?_append, hLast]
  exact ⟨char, rfl, hChar⟩

theorem endsVisibly_digits {text : List Char} (hDigits : Token.IsDigits text)
    (hFilled : text ≠ []) : endsVisibly text := by
  rw [endsVisibly_iff]
  refine ⟨text.getLast hFilled, List.getLast?_eq_some_getLast hFilled, ?_⟩
  exact not_isWhitespace_of_isDigit (hDigits _ (List.getLast_mem hFilled))

theorem endsVisibly_repr (value : Int) : endsVisibly (toString value).toList := by
  have hDigits (n : Nat) : endsVisibly (Nat.toDigits 10 n) :=
    endsVisibly_digits (Token.isDigits_toDigits n) Nat.toDigits_ne_nil
  rw [Int.toString_eq_repr]
  cases value with
  | ofNat n =>
    rw [Int.repr, Nat.toList_repr]
    exact hDigits n
  | negSucc n =>
    rw [Int.repr, String.toList_append, Nat.toList_repr]
    exact endsVisibly_append _ (hDigits _)

/-- A real literal has a fraction or an exponent, and ends with a digit of it. -/
theorem Decimal.Shows.endsVisibly {d : Decimal} {text : List Char} (h : d.Shows text) :
    PascalTree.endsVisibly text := by
  cases h with
  | @parts whole fraction exponent _ _ hFraction hReal _ =>
    apply endsVisibly_append
    cases exponent with
    | some exponent =>
      exact endsVisibly_append _ (endsVisibly_append ['e'] (endsVisibly_repr exponent))
    | none =>
      have hFilled : fraction ≠ [] := fun hNone => hReal ⟨hNone, rfl⟩
      obtain ⟨digit, digits, rfl⟩ := List.exists_cons_of_ne_nil hFilled
      rw [Token.power, List.append_nil]
      exact endsVisibly_append ['.'] (endsVisibly_digits hFraction hFilled)

theorem Binary64.endsVisibly_literal (x : Binary64) : endsVisibly x.literal.toList := by
  have hMagnitude : endsVisibly x.magnitude := by
    rw [magnitude]
    split
    · decide
    · split
      · exact x.shortest.shows_literal.endsVisibly
      · decide
  rw [literal]
  split
  · decide
  · split
    · rw [String.toList_ofList]
      exact endsVisibly_append ['-'] hMagnitude
    · rwa [String.toList_ofList]

/-- Only identifiers and strings can end with whitespace. -/
theorem Payload.endsVisibly_spelling {payload : Payload} (h : payload.text = none) :
    endsVisibly payload.spelling.toList := by
  cases payload with
  | identifier | string => cases h
  | simpleType name => cases name <;> decide
  | direction way => cases way <;> decide
  | operator sign => cases sign <;> decide
  | integer value => exact endsVisibly_repr value.toInt
  | real value => exact value.endsVisibly_literal
  | boolean value => cases value <;> decide

/-- A text of one line that ends visibly. -/
def IsProper (text : String) : Prop := Layout.Line.IsWhole text ∧ endsVisibly text.toList

instance (text : String) : Decidable (IsProper text) := inferInstanceAs (Decidable (_ ∧ _))

theorem IsProper.append {first second : String} (hFirst : Layout.Line.IsWhole first)
    (hSecond : IsProper second) : IsProper (first ++ second) := by
  constructor
  · exact Layout.Line.isWhole_append.mpr ⟨hFirst, hSecond.1⟩
  · rw [String.toList_append]
    exact endsVisibly_append _ hSecond.2

theorem Payload.isProper_spelling {payload : Payload}
    (h : ∀ text ∈ payload.text, IsProper text) : IsProper payload.spelling := by
  refine ⟨⟨?_, ?_⟩, ?_⟩
  · exact not_mem_spelling (by decide) fun text hText => (h text hText).1.1
  · exact not_mem_spelling (by decide) fun text hText => (h text hText).1.2
  · cases hOwned : payload.text with
    | none => exact endsVisibly_spelling hOwned
    | some text =>
      have hProper := h text hOwned
      cases payload with
      | identifier | string =>
        cases hOwned
        exact hProper.2
      | _ => cases hOwned

end PascalTree

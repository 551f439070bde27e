import PascalTree.Proofs.Reading.Rules
import PascalTree.Proofs.Source.Spelling

/-! # The first word of a line

A line that starts with the name of a routine holds a call. Whether a text can come to start with
such a name when more is printed behind it depends on how it ends: a word that has begun may still
go on, one that has ended stays what it is. Numbers and names are harmless, since numbers start with
a digit and the names of routines are reserved.
-/
namespace PascalTree
set_option autoImplicit false

open Token (isWordChar)

def firstWord (text : List Char) : List Char :=
  (text.dropWhile (! isWordChar ·)).takeWhile isWordChar

/-- Something stands behind the first word. -/
def endsFirstWord (text : List Char) : Bool :=
  (text.dropWhile (! isWordChar ·)).any (! isWordChar ·)

/-- A word in front of the text does not go on in it. -/
def startsApart (text : List Char) : Bool := text.head?.any (! isWordChar ·)

/-- A word behind the text does not begin in it. -/
def endsApart (text : List Char) : Bool := text.getLast?.all (! isWordChar ·)

section
variable {first second : List Char}

theorem firstWord_append_of_wordless (h : ∀ char ∈ first, ¬ isWordChar char) :
    firstWord (first ++ second) = firstWord second := by
  rw [firstWord, List.dropWhile_append_of_pos, firstWord]
  intro char hChar
  simp [h char hChar]

theorem firstWord_append_of_endsFirstWord (h : endsFirstWord first) :
    firstWord (first ++ second) = firstWord first := by
  obtain ⟨char, hChar, hEnd⟩ := List.any_eq_true.mp h
  have hStarted : ¬ (first.dropWhile (! isWordChar ·)).isEmpty := by
    rw [List.isEmpty_iff]
    exact List.ne_nil_of_mem hChar
  rw [firstWord, List.dropWhile_append, if_neg hStarted, List.takeWhile_append, if_neg, firstWord]
  intro hLength
  have hAll := List.takeWhile_eq_self_iff.mp ((List.takeWhile_prefix _).eq_of_length hLength)
  simp [hAll char hChar] at hEnd

/-- A text without an end to its first word has no word, or ends with it. -/
theorem wordless_or_forall_of_not_endsFirstWord (h : ¬ endsFirstWord first) :
    (∀ char ∈ first, ¬ isWordChar char) ∨
      first.dropWhile (! isWordChar ·) ≠ [] ∧
        ∀ char ∈ first.dropWhile (! isWordChar ·), isWordChar char := by
  by_cases hStarted : first.dropWhile (! isWordChar ·) = []
  · left
    simpa [List.dropWhile_eq_nil_iff] using hStarted
  · right
    exact ⟨hStarted, by simpa [endsFirstWord] using h⟩

/-- Unless a word goes on from one text into the other, the first word is that of one of them. -/
theorem firstWord_append (h : endsApart first ∨ startsApart second) :
    firstWord (first ++ second) = firstWord first ∨
      firstWord (first ++ second) = firstWord second := by
  by_cases hEnded : endsFirstWord first
  · exact .inl (firstWord_append_of_endsFirstWord hEnded)
  rcases wordless_or_forall_of_not_endsFirstWord hEnded with hWordless | ⟨hStarted, hAll⟩
  · exact .inr (firstWord_append_of_wordless hWordless)
  -- the first text ends with its first word, so only the second can keep it from going on
  left
  rcases h with hLast | hHead
  · obtain ⟨front, hFront⟩ := List.dropWhile_suffix (l := first) (! isWordChar ·)
    rw [endsApart, ← hFront, List.getLast?_append_of_ne_nil _ hStarted,
      List.getLast?_eq_some_getLast hStarted, Option.all_some,
      hAll _ (List.getLast_mem hStarted)] at hLast
    cases hLast
  · have hStop : ∀ char ∈ second.head?, ¬ isWordChar char := by
      intro char hChar
      rw [startsApart, Option.mem_def.mp hChar] at hHead
      simpa using hHead
    rw [firstWord, List.dropWhile_append, if_neg (by simpa using hStarted),
      (Token.takeWhile_append_of_head hAll hStop).1, firstWord, List.takeWhile_eq_self_iff.mpr hAll]

end

/-- Only spaces are blank. -/
def IsTidy (text : List Char) : Prop := ∀ char ∈ text, isBlank char → char = ' '

instance (text : List Char) : Decidable (IsTidy text) :=
  List.decidableBAll (fun char => isBlank char → char = ' ') text

def routineNames : List (List Char) := [Routine.read, Routine.write].map (·.keyword.toList)

/-- The text does not start with the name of a routine. -/
def IsHarmless (text : List Char) : Prop := IsTidy text ∧ firstWord text ∉ routineNames

instance (text : List Char) : Decidable (IsHarmless text) := inferInstanceAs (Decidable (_ ∧ _))

/-- A harmless text that another one may follow. -/
def IsOpen (text : List Char) : Prop := IsHarmless text ∧ endsApart text

instance (text : List Char) : Decidable (IsOpen text) := inferInstanceAs (Decidable (_ ∧ _))

/-- A harmless text that anything may follow. -/
def IsSettled (text : List Char) : Prop := IsHarmless text ∧ endsFirstWord text

instance (text : List Char) : Decidable (IsSettled text) := inferInstanceAs (Decidable (_ ∧ _))

section
variable {first second : List Char}

theorem IsTidy.append (hFirst : IsTidy first) (hSecond : IsTidy second) :
    IsTidy (first ++ second) :=
  List.forall_mem_append.mpr ⟨hFirst, hSecond⟩

theorem IsHarmless.append (hFirst : IsHarmless first) (hSecond : IsHarmless second)
    (hApart : endsApart first ∨ startsApart second) : IsHarmless (first ++ second) := by
  refine ⟨hFirst.1.append hSecond.1, ?_⟩
  rcases firstWord_append hApart with hWord | hWord
  · rw [hWord]
    exact hFirst.2
  · rw [hWord]
    exact hSecond.2

theorem IsOpen.append (hFirst : IsOpen first) (hSecond : IsOpen second) :
    IsOpen (first ++ second) := by
  refine ⟨hFirst.1.append hSecond.1 (.inl hFirst.2), ?_⟩
  rw [endsApart, List.getLast?_append]
  cases hLast : second.getLast? with
  | none => exact hFirst.2
  | some char =>
    rw [Option.some_or, ← hLast]
    exact hSecond.2

theorem IsHarmless.append_open (hFirst : IsHarmless first) (hSecond : IsOpen second)
    (hApart : startsApart second) : IsOpen (first ++ second) := by
  refine ⟨hFirst.append hSecond.1 (.inr hApart), ?_⟩
  have hNonempty : second ≠ [] := by
    rintro rfl
    cases hApart
  rw [endsApart, List.getLast?_append_of_ne_nil _ hNonempty]
  exact hSecond.2

theorem IsOpen.append_settled (hFirst : IsOpen first) (hSecond : IsSettled second) :
    IsSettled (first ++ second) := by
  refine ⟨hFirst.1.append hSecond.1 (.inl hFirst.2), ?_⟩
  rw [endsFirstWord, List.dropWhile_append]
  split
  · exact hSecond.2
  · obtain ⟨char, hChar, hEnd⟩ := List.any_eq_true.mp hSecond.2
    have hMem := (List.dropWhile_suffix _).subset hChar
    exact List.any_eq_true.mpr ⟨char, List.mem_append_right _ hMem, hEnd⟩

theorem IsSettled.append (hFirst : IsSettled first) (hSecond : IsTidy second) :
    IsSettled (first ++ second) := by
  obtain ⟨⟨hTidy, hName⟩, hEnded⟩ := hFirst
  refine ⟨⟨hTidy.append hSecond, ?_⟩, ?_⟩
  · rwa [firstWord_append_of_endsFirstWord hEnded]
  · rw [endsFirstWord, List.dropWhile_append]
    split
    · rename_i hNone
      rw [endsFirstWord, List.isEmpty_iff.mp hNone] at hEnded
      cases hEnded
    · rw [List.any_append, ← endsFirstWord, hEnded, Bool.true_or]

end

theorem IsUnbroken.isTidy {text : List Char} (h : IsUnbroken text) : IsTidy text :=
  fun char hChar hBlank => absurd hBlank (h char hChar)

/-- No routine has a name that starts with a digit. -/
theorem isHarmless_of_isDigit {text : List Char} (hText : IsUnbroken text) {head : Char}
    (hHead : head ∈ text.head?) (hDigit : head.isDigit) : IsHarmless text := by
  refine ⟨hText.isTidy, ?_⟩
  obtain ⟨tail, rfl⟩ := List.head?_eq_some_iff.mp hHead
  have hWord : isWordChar head := Token.isWordChar_of_isDigit hDigit
  rw [firstWord, List.dropWhile_cons_of_neg (by simp [hWord]), List.takeWhile_cons_of_pos hWord]
  intro hName
  simp only [routineNames, List.map_cons, List.map_nil, List.mem_cons, List.not_mem_nil,
    or_false, Routine.keyword] at hName
  rcases hName with hName | hName
  · obtain rfl : head = 'r' := (List.cons.inj hName).1
    cases hDigit
  · obtain rfl : head = 'w' := (List.cons.inj hName).1
    cases hDigit

theorem isHarmless_digits (n : Nat) : IsHarmless (Nat.toDigits 10 n) := by
  have hNonempty : Nat.toDigits 10 n ≠ [] := Nat.toDigits_ne_nil
  obtain ⟨head, tail, hDigits⟩ := List.exists_cons_of_ne_nil hNonempty
  have hAll := Token.isDigits_toDigits n
  have hUnbroken := IsUnbroken.digits n
  rw [hDigits] at hAll hUnbroken ⊢
  exact isHarmless_of_isDigit hUnbroken rfl (hAll head List.mem_cons_self)

theorem isHarmless_repr (value : Int) : IsHarmless (toString value).toList := by
  rw [Int.toString_eq_repr]
  cases value with
  | ofNat n =>
    rw [Int.repr, Nat.toList_repr]
    exact isHarmless_digits n
  | negSucc n =>
    rw [Int.repr, String.toList_append, Nat.toList_repr]
    exact IsHarmless.append (by decide) (isHarmless_digits _) (.inl (by decide))

theorem Decimal.Shows.isHarmless {d : Decimal} {text : List Char} (h : d.Shows text)
    (hText : IsUnbroken text) : IsHarmless text := by
  cases h with
  | @parts whole _ _ hWhole hNonempty =>
    obtain ⟨head, tail, rfl⟩ := List.exists_cons_of_ne_nil hNonempty
    exact isHarmless_of_isDigit hText rfl (hWhole head List.mem_cons_self)

theorem Decimal.isHarmless_literal (d : Decimal) : IsHarmless d.literal := by
  apply d.shows_literal.isHarmless
  rw [literal]
  split
  · exact d.isUnbroken_positional
  · exact d.isUnbroken_scientific

theorem Binary64.isHarmless_literal (x : Binary64) : IsHarmless x.literal.toList := by
  have hMagnitude : IsHarmless x.magnitude := by
    rw [magnitude]
    split
    · decide
    · split
      · exact x.shortest.isHarmless_literal
      · decide
  rw [literal]
  split
  · decide
  · split
    · rw [String.toList_ofList]
      have hSign : IsHarmless ['-'] := by decide
      exact hSign.append hMagnitude (.inl (by decide))
    · rwa [String.toList_ofList]

/-- Only identifiers and strings can start with the name of a routine. -/
theorem Payload.isHarmless_spelling {payload : Payload} (h : payload.text = none) :
    IsHarmless payload.spelling.toList := by
  cases payload with
  | identifier | string => cases h
  | simpleType name => cases name <;> decide
  | direction way => cases way <;> decide
  | operator sign => cases sign <;> decide
  | integer value => exact isHarmless_repr value.toInt
  | real value => exact value.isHarmless_literal
  | boolean value => cases value <;> decide

theorem Token.isWordChar_of_mem {word : String} (h : isWord word) :
    ∀ char ∈ word.toList, isWordChar char := by
  unfold isWord at h
  split at h
  · cases h
  · rename_i head tail hChars
    rw [Bool.and_eq_true, List.all_eq_true] at h
    rw [hChars, List.forall_mem_cons]
    exact ⟨isWordChar_of_isAlpha h.1, h.2⟩

theorem isHarmless_name {name : String} (h : Source.isName name) : IsHarmless name.toList := by
  obtain ⟨hWord, hFree⟩ := Bool.and_eq_true_iff.mp h
  have hChars := Token.isWordChar_of_mem hWord
  have hFirst : firstWord name.toList = name.toList := by
    rw [firstWord, List.dropWhile_eq_self_iff.mpr, List.takeWhile_eq_self_iff.mpr hChars]
    intro hLength
    simpa using hChars _ (List.getElem_mem hLength)
  constructor
  · intro char hChar hBlank
    exact absurd hBlank (Token.not_isBlank_of_isWordChar (hChars char hChar))
  · rw [hFirst]
    intro hName
    simp only [routineNames, List.map_cons, List.map_nil, List.mem_cons, List.not_mem_nil,
      or_false, Routine.keyword, String.toList_inj] at hName
    rcases hName with rfl | rfl
    · cases hFree
    · cases hFree

end PascalTree

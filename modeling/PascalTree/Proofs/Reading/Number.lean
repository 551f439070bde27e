import PascalTree.Proofs.Reading.Boundary
import PascalTree.Proofs.Reading.Nearest

/-! # Numbers

A number is written as a whole part, a fraction if there are digits for it, and an exponent if there
is one. Scanning gives these parts back. A real literal has the value of the decimal it was made
from, so the nearest binary number is the one that was printed.
-/
namespace PascalTree
set_option autoImplicit false

namespace Token

def IsDigits (text : List Char) : Prop := ∀ char ∈ text, char.isDigit

theorem isDigits_toDigits (n : Nat) : IsDigits (Nat.toDigits 10 n) :=
  fun _ hChar => Nat.isDigit_of_mem_toDigits (by decide) (by decide) hChar

theorem isDigits_zeros (count : Nat) : IsDigits (List.replicate count '0') := by
  intro char hChar
  rw [(List.mem_replicate.mp hChar).2]
  decide

theorem not_isAlpha_of_isDigit {char : Char} (h : char.isDigit) : ¬ char.isAlpha := by
  simp only [Char.isDigit, Char.isAlpha, Char.isUpper, Char.isLower, Bool.and_eq_true,
    Bool.or_eq_true, decide_eq_true_eq, UInt32.le_iff_toNat_le] at h ⊢
  simp at h ⊢
  omega

def point : List Char → List Char
  | [] => []
  | digits => '.' :: digits

def power : Option Int → List Char
  | none => []
  | some exponent => 'e' :: (toString exponent).toList

section
variable {rest : List Char}

theorem scanFraction_append {fraction : List Char} (hFraction : IsDigits fraction)
    (hRest : ∀ char ∈ rest.head?, ¬ char.isDigit) (hPoint : scanFraction rest = ([], rest)) :
    scanFraction (point fraction ++ rest) = (fraction, rest) := by
  cases fraction with
  | nil => exact hPoint
  | cons digit digits =>
    have hDigit := hFraction digit List.mem_cons_self
    have hDigits : IsDigits digits := fun char h => hFraction char (List.mem_cons_of_mem _ h)
    obtain ⟨hTake, hDrop⟩ := takeWhile_append_of_head hDigits hRest
    rw [point, List.cons_append, List.cons_append, scanFraction, if_pos hDigit, hDrop,
      List.takeWhile_cons_of_pos hDigit, hTake]
    simp

theorem scanExponent_append (exponent : Option Int) (h : isBoundary rest) :
    scanExponent (power exponent ++ rest) = (exponent, rest) := by
  have hRun : ∀ n : Nat, ∃ digit digits, Nat.toDigits 10 n = digit :: digits ∧ digit.isDigit ∧
      (digits ++ rest).takeWhile Char.isDigit = digits ∧
        (digits ++ rest).dropWhile Char.isDigit = rest := by
    intro n
    obtain ⟨digit, digits, hDigits⟩ := List.exists_cons_of_ne_nil (Nat.toDigits_ne_nil (b := 10))
    have hAll := isDigits_toDigits n
    rw [hDigits] at hAll
    refine ⟨digit, digits, hDigits, hAll digit List.mem_cons_self, ?_⟩
    exact takeWhile_append_of_head (fun char hChar => hAll char (List.mem_cons_of_mem _ hChar))
      (not_isDigit_of_isBoundary h)
  cases exponent with
  | none => exact scanExponent_of_isBoundary h
  | some exponent =>
    rw [power, Int.toString_eq_repr]
    cases exponent with
    | ofNat n =>
      obtain ⟨digit, digits, hDigits, hDigit, hTake, hDrop⟩ := hRun n
      rw [Int.repr, Nat.toList_repr, hDigits, List.cons_append, List.cons_append, scanExponent]
      · rw [if_pos hDigit, List.takeWhile_cons_of_pos hDigit, hTake, hDrop, ← hDigits,
          Nat.ofDigitChars_ten_toDigits]
        rfl
      · rintro - - rfl -
        exact absurd hDigit (by decide)
    | negSucc n =>
      obtain ⟨digit, digits, hDigits, hDigit, hTake, hDrop⟩ := hRun (n + 1)
      rw [Int.repr, String.toList_append, Nat.toList_repr, hDigits]
      change scanExponent ('e' :: '-' :: digit :: (digits ++ rest)) = _
      rw [scanExponent, if_pos hDigit, List.takeWhile_cons_of_pos hDigit, hTake, hDrop, ← hDigits,
        Nat.ofDigitChars_ten_toDigits]
      rfl

theorem scans_number {whole fraction : List Char} (exponent : Option Int) (hWhole : IsDigits whole)
    (hNonempty : whole ≠ []) (hFraction : IsDigits fraction) (h : isBoundary rest) :
    Scans (whole ++ (point fraction ++ (power exponent ++ rest)))
      [ofNumber whole fraction exponent] rest := by
  have hPower : (∀ char ∈ (power exponent ++ rest).head?, ¬ char.isDigit) ∧
      scanFraction (power exponent ++ rest) = ([], power exponent ++ rest) := by
    cases exponent with
    | none => exact ⟨not_isDigit_of_isBoundary h, scanFraction_of_isBoundary h⟩
    | some exponent =>
      refine ⟨?_, rfl⟩
      rintro char ⟨⟩
      decide
  have hPoint : ∀ char ∈ (point fraction ++ (power exponent ++ rest)).head?, ¬ char.isDigit := by
    cases fraction with
    | nil => exact hPower.1
    | cons digit digits =>
      rintro char ⟨⟩
      decide
  have hScan : scanNumber (whole ++ (point fraction ++ (power exponent ++ rest))) =
      (ofNumber whole fraction exponent, rest) := by
    obtain ⟨hTake, hDrop⟩ := takeWhile_append_of_head hWhole hPoint
    rw [scanNumber, hTake, hDrop, scanFraction_append hFraction hPower.1 hPower.2]
    dsimp only
    rw [scanExponent_append exponent h]
  obtain ⟨digit, digits, rfl⟩ := List.exists_cons_of_ne_nil hNonempty
  have hDigit := hWhole digit List.mem_cons_self
  apply Scans.single
  rw [List.cons_append, next, if_neg (not_isBlank_of_isWordChar (isWordChar_of_isDigit hDigit)),
    if_neg (not_isAlpha_of_isDigit hDigit), if_pos hDigit, ← List.cons_append, hScan]

theorem scans_integer (n : Nat) (h : isBoundary rest) :
    Scans (Nat.toDigits 10 n ++ rest) [integer n] rest := by
  have hNone : IsDigits [] := fun _ hChar => absurd hChar List.not_mem_nil
  have hScan := scans_number none (isDigits_toDigits n) Nat.toDigits_ne_nil hNone h
  rwa [ofNumber, if_pos ⟨rfl, rfl⟩, Nat.ofDigitChars_ten_toDigits] at hScan

end

end Token

namespace Decimal
open Token

/-- The text is a number with a fraction or an exponent, and its value is that of the decimal. -/
inductive Shows (d : Decimal) : List Char → Prop
  | parts {whole fraction : List Char} {exponent : Option Int} (hWhole : IsDigits whole)
    (hNonempty : whole ≠ []) (hFraction : IsDigits fraction)
    (hReal : ¬ (fraction = [] ∧ exponent = none))
    (hValue : value ⟨Nat.ofDigitChars 10 (whole ++ fraction) 0,
      exponent.getD 0 - fraction.length⟩ = d.value) :
    Shows d (whole ++ (point fraction ++ power exponent))

theorem Shows.scans {d : Decimal} {text : List Char} (hText : d.Shows text) :
    ∃ read : Decimal, read.value = d.value ∧
      ∀ rest, isBoundary rest → Scans (text ++ rest) [real read] rest := by
  cases hText with
  | @parts whole fraction exponent hWhole hNonempty hFraction hReal hValue =>
    refine ⟨_, hValue, ?_⟩
    intro rest hRest
    have hScan := scans_number exponent hWhole hNonempty hFraction hRest
    rw [ofNumber, if_neg hReal] at hScan
    rw [List.append_assoc, List.append_assoc]
    exact hScan

section
variable {d : Decimal}

theorem Shows.fractional {whole fraction : List Char} (hWhole : IsDigits whole)
    (hNonempty : whole ≠ []) (hFraction : IsDigits fraction) (hPlaces : fraction ≠ [])
    (hValue : value ⟨Nat.ofDigitChars 10 (whole ++ fraction) 0, -fraction.length⟩ = d.value) :
    d.Shows (whole ++ '.' :: fraction) := by
  obtain ⟨digit, digits, rfl⟩ := List.exists_cons_of_ne_nil hPlaces
  have hShows : d.Shows (whole ++ (point (digit :: digits) ++ power none)) :=
    .parts hWhole hNonempty hFraction (fun hNone => hPlaces hNone.1)
      (by rwa [Option.getD_none, zero_sub])
  rwa [power, List.append_nil, point] at hShows
  exact hPlaces

end

section
variable (d : Decimal)

theorem isDigits_numerals : IsDigits d.numerals := isDigits_toDigits d.digits

theorem numerals_ne_nil : d.numerals ≠ [] := Nat.toDigits_ne_nil

theorem ofDigitChars_numerals : Nat.ofDigitChars 10 d.numerals 0 = d.digits :=
  Nat.ofDigitChars_ten_toDigits

theorem shows_whole (h : 0 ≤ d.exponent) :
    d.Shows (d.numerals ++ List.replicate d.exponent.toNat '0' ++ '.' :: ['0']) := by
  refine .fractional (List.forall_mem_append.mpr ⟨d.isDigits_numerals, isDigits_zeros _⟩)
    (by simp [d.numerals_ne_nil]) (isDigits_zeros 1) (List.cons_ne_nil _ _) ?_
  rw [List.append_assoc, ← List.replicate_succ', Nat.ofDigitChars_append, d.ofDigitChars_numerals,
    Nat.ofDigitChars_replicate_zero]
  obtain ⟨n, hn⟩ := Int.eq_ofNat_of_zero_le h
  rw [value, value, hn, Int.toNat_natCast]
  push_cast
  rw [pow_succ, List.length_singleton, Nat.cast_one, zpow_neg_one, zpow_natCast]
  field_simp

theorem shows_places (h : d.numerals.length + d.exponent ≤ 0) :
    d.Shows (['0'] ++ '.' ::
      (List.replicate (-(d.numerals.length + d.exponent)).toNat '0' ++ d.numerals)) := by
  refine .fractional (isDigits_zeros 1) (List.cons_ne_nil _ _)
    (List.forall_mem_append.mpr ⟨isDigits_zeros _, d.isDigits_numerals⟩)
    (by simp [d.numerals_ne_nil]) ?_
  have hDigits : Nat.ofDigitChars 10 (['0'] ++
      (List.replicate (-(d.numerals.length + d.exponent)).toNat '0' ++ d.numerals)) 0 =
        d.digits := by
    rw [← List.append_assoc, Nat.ofDigitChars_append, List.singleton_append,
      ← List.replicate_succ, Nat.ofDigitChars_replicate_zero, Nat.mul_zero, d.ofDigitChars_numerals]
  rw [hDigits, List.length_append, List.length_replicate]
  congr 2
  omega

theorem shows_point (h : d.exponent < 0) (hWhole : 0 < d.numerals.length + d.exponent) :
    d.Shows (d.numerals.take (d.numerals.length + d.exponent).toNat ++
      '.' :: d.numerals.drop (d.numerals.length + d.exponent).toNat) := by
  refine .fractional (fun char hChar => d.isDigits_numerals char (List.mem_of_mem_take hChar))
    ?_ (fun char hChar => d.isDigits_numerals char (List.mem_of_mem_drop hChar)) ?_ ?_
  · rw [← List.length_pos_iff, List.length_take]
    omega
  · rw [← List.length_pos_iff, List.length_drop]
    omega
  · rw [List.take_append_drop, d.ofDigitChars_numerals, List.length_drop]
    congr 2
    omega

theorem shows_positional : d.Shows d.positional := by
  unfold positional
  dsimp only
  split
  · rename_i hExponent
    exact d.shows_whole hExponent
  · rename_i hExponent
    split
    · rename_i hWhole
      rw [List.append_assoc]
      exact d.shows_places (Int.toNat_eq_zero.mp hWhole)
    · rename_i hWhole
      rw [List.append_assoc]
      exact d.shows_point (by omega) (by omega)

theorem shows_scientific : d.Shows d.scientific := by
  obtain ⟨digit, digits, hNumerals⟩ := List.exists_cons_of_ne_nil d.numerals_ne_nil
  have hDigits := d.isDigits_numerals
  have hRead := d.ofDigitChars_numerals
  rw [hNumerals] at hDigits hRead
  have hShows : d.Shows ([digit] ++ (point digits ++ power (some d.leadingExponent))) := by
    refine .parts (fun char hChar => hDigits char (List.mem_of_mem_take (i := 1) hChar))
      (List.cons_ne_nil _ _) (fun char hChar => hDigits char (List.mem_cons_of_mem _ hChar))
      (fun hNone => Option.some_ne_none _ hNone.2) ?_
    rw [List.singleton_append, hRead, Option.getD_some, leadingExponent, hNumerals,
      List.length_cons]
    congr 2
    omega
  unfold scientific
  rw [hNumerals]
  cases digits with
  | nil => exact hShows
  | cons second others => simpa [point, power] using hShows

theorem shows_literal : d.Shows d.literal := by
  unfold literal
  split
  · exact d.shows_positional
  · exact d.shows_scientific

end

end Decimal

namespace Binary64
open Token

theorem eq_zero_of_isZero {x : Binary64} (h : x.isZero) (hSign : ¬ x.isNegative) : x = ⟨0⟩ := by
  simp only [isZero, exponentField, fractionField, hiddenBit, Bool.and_eq_true, beq_iff_eq] at h
  rw [isNegative, decide_eq_true_eq] at hSign
  have hBits : x.bits.toNat = 0 := by
    have hLt := x.bits.toNat_lt
    omega
  rw [← x.ofPattern_toNat_bits, hBits]
  rfl

/-- A literal that rounds to a number is read as this number. -/
theorem scans_literal_of_holds {x : Binary64} {d : Decimal} (hFinite : x.isFinite)
    (hSign : ¬ x.isNegative) (hHolds : x.roundingInterval.holds d.exponent d.digits) :
    ∃ read : Decimal, nearest read = x ∧
      ∀ rest, isBoundary rest → Scans (d.literal ++ rest) [real read] rest := by
  obtain ⟨read, hValue, hScans⟩ := d.shows_literal.scans
  refine ⟨read, nearest_eq_of_holds hFinite hSign ?_, hScans⟩
  rw [RoundingInterval.holds_iff, RoundingInterval.reachedBy_iff] at hHolds ⊢
  rwa [hValue]

theorem scans_magnitude {x : Binary64} (hFinite : x.isFinite) (hSign : ¬ x.isNegative) :
    ∃ read : Decimal, nearest read = x ∧
      ∀ rest, isBoundary rest → Scans (x.magnitude ++ rest) [real read] rest := by
  unfold magnitude
  by_cases hZero : x.isZero
  · obtain rfl := eq_zero_of_isZero hZero hSign
    have hLiteral : "0.0".toList = Decimal.literal ⟨0, -1⟩ := by decide
    rw [if_pos hZero, hLiteral]
    exact scans_literal_of_holds hFinite hSign (by decide +kernel)
  · rw [if_neg hZero, if_pos hFinite]
    exact scans_literal_of_holds hFinite hSign (holds_shortest hZero)

end Binary64
end PascalTree

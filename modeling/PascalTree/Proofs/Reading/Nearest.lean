import Mathlib
import PascalTree.Binary64.Literal

/-! # Reading decimals as binary values

The patterns of the values without a sign are ordered like the values, and the rounding intervals
of neighbouring patterns share an end, which belongs to the even one. So the nearest value of a
decimal, with ties to even, is the last one whose interval the decimal has reached, and every decimal
of an interval is read as the value in its middle. The shortest decimal of a value is one of these.
-/
namespace PascalTree
set_option autoImplicit false

namespace RoundingInterval

/-- The decimal lies in the interval or above it. -/
def reachedBy (interval : RoundingInterval) (d : Decimal) : Bool :=
  let point := d.digits * interval.gridUnit d.exponent
  let low := interval.low * interval.ownUnit d.exponent
  if interval.closed then low ≤ point else low < point

end RoundingInterval

namespace Binary64

def ofPattern (pattern : Nat) : Binary64 := ⟨UInt64.ofNat pattern⟩

def infinityPattern : Nat := 0x7ff0000000000000

def isReachedBy (d : Decimal) (pattern : Nat) : Bool :=
  pattern ≤ infinityPattern && (ofPattern pattern).roundingInterval.reachedBy d

/-- Looks for the last number with a property that small numbers have, from the highest of the given
bits down. -/
def lastWith (property : Nat → Bool) : (bits base : Nat) → Nat
  | 0, base => base
  | bits + 1, base =>
    if property (base + 2 ^ bits) then lastWith property bits (base + 2 ^ bits)
    else lastWith property bits base

/-- The value nearest to a decimal. Of two equally near ones it is the even one. -/
def nearest (d : Decimal) : Binary64 := ofPattern (lastWith (isReachedBy d) 63 0)

theorem lastWith_eq {property : Nat → Bool} {last : Nat}
    (h : ∀ n, property n ↔ n ≤ last) (bits base : Nat) (hLow : base ≤ last)
    (hHigh : last < base + 2 ^ bits) : lastWith property bits base = last := by
  induction bits generalizing base with
  | zero =>
    rw [lastWith]
    omega
  | succ bits ih =>
    rw [pow_succ] at hHigh
    rw [lastWith]
    split
    · rename_i hReached
      exact ih (base + 2 ^ bits) ((h _).mp hReached) (by omega)
    · rename_i hMissed
      have hAbove : last < base + 2 ^ bits := Nat.lt_of_not_le fun hLe => hMissed ((h _).mpr hLe)
      exact ih base hLow hAbove

end Binary64

namespace Decimal

def value (d : Decimal) : ℚ := d.digits * (10 : ℚ) ^ d.exponent

end Decimal

namespace RoundingInterval

def lowEnd (interval : RoundingInterval) : ℚ := interval.low * (2 : ℚ) ^ interval.scale

def highEnd (interval : RoundingInterval) : ℚ := interval.high * (2 : ℚ) ^ interval.scale

theorem ownUnit_pos (interval : RoundingInterval) (exponent : Int) :
    0 < interval.ownUnit exponent :=
  Nat.mul_pos (Nat.pow_pos (by decide)) (Nat.pow_pos (by decide))

theorem zpow_mul_pow_toNat_neg {base : ℚ} (hBase : base ≠ 0) (n : Int) :
    base ^ n * base ^ (-n).toNat = base ^ n.toNat := by
  rw [← zpow_natCast, ← zpow_natCast, ← zpow_add₀ hBase]
  congr 1
  omega

theorem exists_common_scale (interval : RoundingInterval) (exponent : Int) :
    ∃ scale : ℚ, 0 < scale ∧
      (∀ n : ℕ, (n : ℚ) * 10 ^ exponent * scale = (n * interval.gridUnit exponent : ℕ)) ∧
      ∀ n : ℕ, (n : ℚ) * 2 ^ interval.scale * scale = (n * interval.ownUnit exponent : ℕ) := by
  have hTen := zpow_mul_pow_toNat_neg (by norm_num : (10 : ℚ) ≠ 0) exponent
  have hTwo := zpow_mul_pow_toNat_neg (by norm_num : (2 : ℚ) ≠ 0) interval.scale
  refine ⟨10 ^ (-exponent).toNat * 2 ^ (-interval.scale).toNat, by positivity, ?_, ?_⟩
  · intro n
    calc
      _ = (n : ℚ) * (10 ^ exponent * 10 ^ (-exponent).toNat) * 2 ^ (-interval.scale).toNat := by
        ring
      _ = _ := by
        rw [hTen, gridUnit]
        push_cast [Nat.pow_eq]
        ring
  · intro n
    calc
      _ = (n : ℚ) * (2 ^ interval.scale * 2 ^ (-interval.scale).toNat) *
          10 ^ (-exponent).toNat := by
        ring
      _ = _ := by
        rw [hTwo, ownUnit]
        push_cast [Nat.pow_eq]
        ring

theorem mul_ownUnit_le_iff (interval : RoundingInterval) (d : Decimal) (bound : Nat) :
    bound * interval.ownUnit d.exponent ≤ d.digits * interval.gridUnit d.exponent ↔
      bound * (2 : ℚ) ^ interval.scale ≤ d.value := by
  obtain ⟨scale, hScale, hGrid, hOwn⟩ := interval.exists_common_scale d.exponent
  rw [Decimal.value, ← mul_le_mul_iff_of_pos_right hScale, hGrid, hOwn, Nat.cast_le]

theorem mul_gridUnit_le_iff (interval : RoundingInterval) (d : Decimal) (bound : Nat) :
    d.digits * interval.gridUnit d.exponent ≤ bound * interval.ownUnit d.exponent ↔
      d.value ≤ bound * (2 : ℚ) ^ interval.scale := by
  obtain ⟨scale, hScale, hGrid, hOwn⟩ := interval.exists_common_scale d.exponent
  rw [Decimal.value, ← mul_le_mul_iff_of_pos_right hScale, hGrid, hOwn, Nat.cast_le]

theorem reachedBy_iff (interval : RoundingInterval) (d : Decimal) :
    interval.reachedBy d ↔
      interval.lowEnd < d.value ∨ interval.closed ∧ interval.lowEnd = d.value := by
  have hLe := interval.mul_ownUnit_le_iff d interval.low
  have hGe := interval.mul_gridUnit_le_iff d interval.low
  rw [← lowEnd] at hLe hGe
  cases hClosed : interval.closed with
  | true =>
    simp only [reachedBy, hClosed, if_true, decide_eq_true_eq, hLe, true_and]
    exact le_iff_lt_or_eq
  | false =>
    simp only [reachedBy, hClosed, Bool.false_eq_true, if_false, decide_eq_true_eq, false_and,
      or_false, ← not_le, hGe]

theorem holds_iff (interval : RoundingInterval) (d : Decimal) :
    interval.holds d.exponent d.digits ↔
      interval.reachedBy d ∧
        (d.value < interval.highEnd ∨ interval.closed ∧ d.value = interval.highEnd) := by
  have hLe := interval.mul_gridUnit_le_iff d interval.high
  have hGe := interval.mul_ownUnit_le_iff d interval.high
  rw [← highEnd] at hLe hGe
  cases hClosed : interval.closed with
  | true =>
    simp only [holds, reachedBy, hClosed, if_true, Bool.and_eq_true, decide_eq_true_eq, hLe,
      true_and, le_iff_lt_or_eq]
  | false =>
    simp only [holds, reachedBy, hClosed, Bool.false_eq_true, if_false, Bool.and_eq_true,
      decide_eq_true_eq, false_and, or_false, ← not_le, hGe]

end RoundingInterval

namespace Binary64

section
variable {n : Nat}

theorem toNat_bits_ofPattern (h : n ≤ infinityPattern) : (ofPattern n).bits.toNat = n := by
  unfold infinityPattern at h
  rw [ofPattern, UInt64.toNat_ofNat']
  exact Nat.mod_eq_of_lt (by omega)

theorem exponentField_ofPattern (h : n ≤ infinityPattern) :
    (ofPattern n).exponentField = n / hiddenBit := by
  rw [exponentField, toNat_bits_ofPattern h]
  unfold infinityPattern at h
  unfold hiddenBit
  omega

theorem fractionField_ofPattern (h : n ≤ infinityPattern) :
    (ofPattern n).fractionField = n % hiddenBit := by
  rw [fractionField, toNat_bits_ofPattern h]

theorem closed_ofPattern (h : n ≤ infinityPattern) :
    (ofPattern n).roundingInterval.closed ↔ n % 2 = 0 := by
  simp only [roundingInterval, significand, exponentField_ofPattern h, fractionField_ofPattern h,
    beq_iff_eq]
  unfold hiddenBit
  split <;> omega

theorem low_lt_high (x : Binary64) : x.roundingInterval.low < x.roundingInterval.high := by
  simp only [roundingInterval]
  omega

theorem lowEnd_lt_highEnd (x : Binary64) :
    x.roundingInterval.lowEnd < x.roundingInterval.highEnd := by
  have hScale : (0 : ℚ) < 2 ^ x.roundingInterval.scale := by positivity
  rw [RoundingInterval.lowEnd, RoundingInterval.highEnd, mul_lt_mul_iff_of_pos_right hScale]
  exact_mod_cast x.low_lt_high

theorem highEnd_ofPattern (h : n < infinityPattern) :
    (ofPattern n).roundingInterval.highEnd = (ofPattern (n + 1)).roundingInterval.lowEnd := by
  have hFields : (n + 1) / hiddenBit = n / hiddenBit ∧ (n + 1) % hiddenBit = n % hiddenBit + 1 ∨
      n % hiddenBit + 1 = hiddenBit ∧ (n + 1) / hiddenBit = n / hiddenBit + 1 ∧
        (n + 1) % hiddenBit = 0 := by
    unfold hiddenBit
    omega
  simp only [RoundingInterval.highEnd, RoundingInterval.lowEnd, roundingInterval, significand,
    scale, exponentField_ofPattern h.le, fractionField_ofPattern h.le, exponentField_ofPattern h,
    fractionField_ofPattern h]
  generalize n / hiddenBit = e at *
  generalize n % hiddenBit = f at *
  rcases hFields with ⟨hE, hF⟩ | ⟨hTop, hE, hF⟩
  · have hEnds : 4 * (if e = 0 then f else hiddenBit + f) + 2 =
        4 * (if e = 0 then f + 1 else hiddenBit + (f + 1)) -
          (if f + 1 = 0 ∧ 1 < e then 1 else 2) := by
      rw [if_neg (by omega : ¬ (f + 1 = 0 ∧ 1 < e))]
      split <;> omega
    rw [hE, hF, hEnds]
  · rw [hE, hF, if_neg (Nat.succ_ne_zero e)]
    by_cases hZero : e = 0
    · have hEnds : 4 * f + 2 = 4 * hiddenBit - 2 := by omega
      simp [hZero, hEnds]
    · have hEnds : 4 * (hiddenBit + f) + 2 = (4 * hiddenBit - 1) * 2 := by omega
      have hScale : ((max (e + 1) 1 : ℕ) : ℤ) - 1075 - 2 = (max e 1 : ℕ) - 1075 - 2 + 1 := by omega
      rw [if_neg hZero, hEnds, if_pos ⟨rfl, by omega⟩]
      push_cast at hScale ⊢
      rw [hScale, zpow_add_one₀ (by norm_num), Nat.add_zero]
      ring

theorem lowEnd_ofPattern_strictMono {m n : Nat} (h : m < n) (hn : n ≤ infinityPattern) :
    (ofPattern m).roundingInterval.lowEnd < (ofPattern n).roundingInterval.lowEnd := by
  induction n, h using Nat.le_induction with
  | base =>
    rw [← highEnd_ofPattern hn]
    exact lowEnd_lt_highEnd _
  | succ n hLe ih =>
    calc
      _ < (ofPattern n).roundingInterval.lowEnd := ih (by omega)
      _ < (ofPattern n).roundingInterval.highEnd := lowEnd_lt_highEnd _
      _ = _ := highEnd_ofPattern hn

/-- A decimal in the interval of a pattern has reached the intervals up to it and no other. -/
theorem isReachedBy_iff {m n : Nat} {d : Decimal} (hn : n < infinityPattern)
    (h : (ofPattern n).roundingInterval.holds d.exponent d.digits) :
    isReachedBy d m ↔ m ≤ n := by
  obtain ⟨hReached, hBelow⟩ := ((ofPattern n).roundingInterval.holds_iff d).mp h
  rw [isReachedBy, Bool.and_eq_true, decide_eq_true_eq]
  constructor
  · rintro ⟨hm, hReaches⟩
    by_contra hAbove
    rw [RoundingInterval.reachedBy_iff, closed_ofPattern hm] at hReaches
    rw [closed_ofPattern hn.le, highEnd_ofPattern hn] at hBelow
    -- the shared end belongs to one of the two neighbours only
    rcases (by omega : m = n + 1 ∨ n + 1 < m) with rfl | hFar
    · rcases hBelow with hBelow | ⟨hEven, hBelow⟩
      · rcases hReaches with hReaches | ⟨_, hReaches⟩
        · exact lt_asymm hBelow hReaches
        · exact hBelow.ne hReaches.symm
      · rcases hReaches with hReaches | ⟨hOdd, _⟩
        · exact hReaches.ne hBelow.symm
        · omega
    · have hEnds := lowEnd_ofPattern_strictMono hFar hm
      rcases hBelow with hBelow | ⟨_, hBelow⟩ <;> rcases hReaches with hReaches | ⟨_, hReaches⟩ <;>
        linarith
  · intro hLe
    refine ⟨by omega, ?_⟩
    rcases Nat.lt_or_eq_of_le hLe with hLt | rfl
    · rw [RoundingInterval.reachedBy_iff] at hReached ⊢
      have hEnds := lowEnd_ofPattern_strictMono hLt hn.le
      rcases hReached with hReached | ⟨_, hReached⟩
      · exact .inl (hEnds.trans hReached)
      · exact .inl (hEnds.trans_eq hReached)
    · exact hReached

end

theorem ofPattern_toNat_bits (x : Binary64) : ofPattern x.bits.toNat = x := by
  rw [ofPattern, UInt64.ofNat_toNat]

theorem toNat_bits_lt_infinityPattern {x : Binary64} (hFinite : x.isFinite)
    (hSign : ¬ x.isNegative) : x.bits.toNat < infinityPattern := by
  rw [isFinite_iff, exponentField] at hFinite
  rw [isNegative, decide_eq_true_eq] at hSign
  unfold hiddenBit at hFinite
  unfold infinityPattern
  omega

/-- Every decimal that rounds to a finite value without a sign is read as this value. -/
theorem nearest_eq_of_holds {x : Binary64} {d : Decimal} (hFinite : x.isFinite)
    (hSign : ¬ x.isNegative) (h : x.roundingInterval.holds d.exponent d.digits) :
    nearest d = x := by
  have hPattern := toNat_bits_lt_infinityPattern hFinite hSign
  have hHolds : (ofPattern x.bits.toNat).roundingInterval.holds d.exponent d.digits := by
    rwa [ofPattern_toNat_bits]
  have hLast : lastWith (isReachedBy d) 63 0 = x.bits.toNat :=
    lastWith_eq (fun m => isReachedBy_iff hPattern hHolds) 63 0 (Nat.zero_le _) (by
      unfold infinityPattern at hPattern
      omega)
  rw [nearest, hLast, ofPattern_toNat_bits]

end Binary64

namespace RoundingInterval

theorem holds_coarsest (interval : RoundingInterval) (steps : Nat) (exponent : Int)
    (hLast : interval.holds (exponent - steps) (interval.below (exponent - steps))) :
    interval.holds (interval.coarsest steps exponent).exponent
      (interval.coarsest steps exponent).digits := by
  induction steps generalizing exponent with
  | zero =>
    rw [Nat.cast_zero, sub_zero] at hLast
    exact hLast
  | succ steps ih =>
    rw [coarsest]
    split
    · rename_i digits hNearest
      exact holds_of_nearest? hNearest
    · apply ih
      rwa [sub_sub, add_comm (1 : ℤ), ← Nat.cast_succ]

theorem holds_of_eq_middle {interval : RoundingInterval} {exponent : Int} {digits : Nat}
    (hLow : interval.low < interval.middle) (hHigh : interval.middle < interval.high)
    (h : digits * interval.gridUnit exponent = interval.middle * interval.ownUnit exponent) :
    interval.holds exponent digits := by
  have hPositive := interval.ownUnit_pos exponent
  have hBelow := Nat.mul_lt_mul_of_pos_right hLow hPositive
  have hAbove := Nat.mul_lt_mul_of_pos_right hHigh hPositive
  simp only [holds, h]
  split
  · simp [hBelow.le, hAbove.le]
  · simp [hBelow, hAbove]

end RoundingInterval

namespace Binary64

theorem two_pow_dvd_four_mul_ten_pow {k n : Nat} (h : k ≤ n + 2) : 2 ^ k ∣ 4 * 10 ^ n := by
  have hTen : 4 * 10 ^ n = 2 ^ (n + 2) * 5 ^ n := by
    rw [show (10 : ℕ) = 2 * 5 from rfl, mul_pow, pow_add]
    ring
  rw [hTen]
  exact (pow_dvd_pow 2 h).trans (dvd_mul_right _ _)

theorem below_mul_gridUnit (x : Binary64) (places : Nat)
    (hScale : (-x.roundingInterval.scale).toNat ≤ places + 2) :
    x.roundingInterval.below (-places) * x.roundingInterval.gridUnit (-places) =
      x.roundingInterval.middle * x.roundingInterval.ownUnit (-places) := by
  have hGrid : x.roundingInterval.gridUnit (-places) = 2 ^ (-x.roundingInterval.scale).toNat := by
    rw [RoundingInterval.gridUnit, Nat.pow_eq, Nat.pow_eq, Int.toNat_neg_natCast, pow_zero, one_mul]
  have hOwn : x.roundingInterval.middle * x.roundingInterval.ownUnit (-places) =
      4 * 10 ^ places * (x.significand * 2 ^ x.roundingInterval.scale.toNat) := by
    have hMiddle : x.roundingInterval.middle = 4 * x.significand := rfl
    rw [RoundingInterval.ownUnit, Nat.pow_eq, Nat.pow_eq, hMiddle, neg_neg, Int.toNat_natCast]
    ring
  rw [RoundingInterval.below]
  apply Nat.div_mul_cancel
  rw [hGrid, hOwn]
  exact (two_pow_dvd_four_mul_ten_pow hScale).trans (dvd_mul_right _ _)

theorem holds_shortest {x : Binary64} (hZero : ¬ x.isZero) :
    x.roundingInterval.holds x.shortest.exponent x.shortest.digits := by
  have hPositive : x.significand ≠ 0 := fun h => hZero (x.significand_eq_zero_iff.mp h)
  apply RoundingInterval.holds_coarsest
  apply RoundingInterval.holds_of_eq_middle
  · simp only [roundingInterval]
    split <;> omega
  · simp only [roundingInterval]
    omega
  · apply x.below_mul_gridUnit 1074
    simp only [roundingInterval, scale]
    omega

end Binary64

end PascalTree

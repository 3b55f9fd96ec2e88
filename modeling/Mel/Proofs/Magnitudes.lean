import Mathlib
import Mel.Floating.Shortest

/-!
# Magnitudes and their decimals

The magnitudes of reals are whole multiples of the gap to the next one. The decimals that read
back as one magnitude lie between the midpoints to its neighbours, so that no decimal reads back
as two magnitudes. The shortest decimal of a magnitude is one that reads back as it.

Midpoints are counted in quarters of a unit. A midpoint can belong to one of its two sides only,
since of two neighbours one has an odd significand.
-/

namespace Mel.Floating

open Float.Model (Format)
open Float.Model.UnpackedFloat (unpack unpackExponent)

/-- The distance between reals of a magnitude. -/
def gap (units : Nat) : Nat :=
  2 ^ gapExponent units

/-- The magnitudes that reals have. -/
def IsMagnitude (units : Nat) : Prop :=
  gap units ∣ units

theorem gap_pos (units : Nat) : 0 < gap units :=
  Nat.two_pow_pos _

theorem significand_eq (units : Nat) : significand units = units / gap units :=
  Nat.shiftRight_eq_div_pow ..

theorem IsMagnitude.significand_mul {units : Nat} (isMagnitude : IsMagnitude units) :
    significand units * gap units = units := by
  rw [significand_eq]
  exact Nat.div_mul_cancel isMagnitude

theorem significand_lt (units : Nat) : significand units < 2 ^ 53 := by
  rw [significand_eq, Nat.div_lt_iff_lt_mul (gap_pos units), gap, ← Nat.pow_add]
  refine (Nat.lt_log2_self (n := units)).trans_le (Nat.pow_le_pow_right (by decide) ?_)
  rw [gapExponent]
  omega

theorem le_significand {units : Nat} (normal : 0 < gapExponent units) :
    2 ^ 52 ≤ significand units := by
  have nonzero : units ≠ 0 := by
    rintro rfl
    simp [gapExponent] at normal
  rw [significand_eq, Nat.le_div_iff_mul_le (gap_pos units), gap, ← Nat.pow_add]
  refine le_trans (Nat.pow_le_pow_right (by decide) ?_) (Nat.log2_self_le nonzero)
  rw [gapExponent] at normal ⊢
  omega

theorem gapExponent_mono {units units' : Nat} (le : units ≤ units') :
    gapExponent units ≤ gapExponent units' := by
  have logs := Nat.log_mono_right (b := 2) le
  rw [← Nat.log2_eq_log_two, ← Nat.log2_eq_log_two] at logs
  exact Nat.sub_le_sub_right logs 52

/-- The midpoint to the magnitude below, in quarters. -/
def lowQuarters (units : Nat) : Nat :=
  4 * units -
    if significand units = 2 ^ 52 ∧ 0 < gapExponent units then gap units else 2 * gap units

/-- The midpoint to the magnitude above, in quarters. -/
def highQuarters (units : Nat) : Nat :=
  4 * units + 2 * gap units

theorem lowQuarters_lt {units : Nat} (positive : 0 < units) : lowQuarters units < 4 * units := by
  have := gap_pos units
  rw [lowQuarters]
  split <;> omega

theorem lt_highQuarters (units : Nat) : 4 * units < highQuarters units := by
  have := gap_pos units
  rw [highQuarters]
  omega

theorem lowQuarters_pos {units : Nat} (positive : 0 < units) : 0 < lowQuarters units := by
  have atMost : gap units ≤ units :=
    (Nat.pow_le_pow_right (by decide) (Nat.sub_le ..)).trans (Nat.log2_self_le positive.ne')
  rw [lowQuarters]
  split <;> omega

theorem highQuarters_eq {units : Nat} (isMagnitude : IsMagnitude units) :
    highQuarters units = (4 * significand units + 2) * gap units := by
  rw [highQuarters, Nat.add_mul, Nat.mul_assoc, isMagnitude.significand_mul]

theorem lowQuarters_eq {units : Nat} (isMagnitude : IsMagnitude units) :
    lowQuarters units =
      (4 * significand units -
        if significand units = 2 ^ 52 ∧ 0 < gapExponent units then 1 else 2) * gap units := by
  rw [lowQuarters, Nat.sub_mul, Nat.mul_assoc, isMagnitude.significand_mul]
  split
  · rw [Nat.one_mul]
  · rfl

/-- Midpoints with the same gap on both sides. -/
theorem highQuarters_le_of_same_gap {units units' : Nat} (isMagnitude : IsMagnitude units)
    (isMagnitude' : IsMagnitude units') (less : units < units')
    (same : gapExponent units = gapExponent units') :
    highQuarters units ≤ lowQuarters units' ∧
      (highQuarters units = lowQuarters units' →
        significand units % 2 = 1 ∨ significand units' % 2 = 1) := by
  have sameGap : gap units = gap units' := congrArg (2 ^ ·) same
  have positive := gap_pos units'
  have lessSignificand : significand units < significand units' := by
    rw [← isMagnitude.significand_mul, ← isMagnitude'.significand_mul, sameGap] at less
    exact lt_of_mul_lt_mul_right less (Nat.zero_le _)
  rw [highQuarters_eq isMagnitude, lowQuarters_eq isMagnitude', sameGap]
  have notNarrow : ¬(significand units' = 2 ^ 52 ∧ 0 < gapExponent units') := by
    rintro ⟨isPower, normal⟩
    have := le_significand (same ▸ normal)
    omega
  rw [if_neg notNarrow]
  refine ⟨Nat.mul_le_mul_right _ (by omega), fun meet => ?_⟩
  have sameFactor := Nat.eq_of_mul_eq_mul_right positive meet
  omega

/-- Midpoints with a larger gap behind them than in front of them. -/
theorem highQuarters_le_of_larger_gap {units units' : Nat} (isMagnitude : IsMagnitude units)
    (isMagnitude' : IsMagnitude units') (larger : gapExponent units < gapExponent units') :
    highQuarters units ≤ lowQuarters units' ∧
      (highQuarters units = lowQuarters units' → significand units % 2 = 1) := by
  have atMost := significand_lt units
  have atLeast := le_significand (Nat.zero_lt_of_lt larger)
  obtain ⟨difference, isDifference⟩ := Nat.exists_eq_add_of_lt larger
  -- The gap is at least doubled, which makes up for the significand of one bit less.
  have doubled : 2 * gap units ≤ gap units' := by
    rw [gap, gap, isDifference, ← Nat.pow_succ']
    exact Nat.pow_le_pow_right (by decide) (by omega)
  have positive := gap_pos units
  rw [highQuarters_eq isMagnitude, lowQuarters_eq isMagnitude']
  have low : (2 ^ 55 - 2) * gap units ≤ (4 * significand units' -
      if significand units' = 2 ^ 52 ∧ 0 < gapExponent units' then 1 else 2) * gap units' := by
    calc (2 ^ 55 - 2) * gap units = (2 ^ 54 - 1) * (2 * gap units) := by ring
      _ ≤ (2 ^ 54 - 1) * gap units' := Nat.mul_le_mul_left _ doubled
      _ ≤ _ := Nat.mul_le_mul_right _ (by split <;> omega)
  have high : (4 * significand units + 2) * gap units ≤ (2 ^ 55 - 2) * gap units :=
    Nat.mul_le_mul_right _ (by omega)
  refine ⟨high.trans low, fun meet => ?_⟩
  have sameFactor := Nat.eq_of_mul_eq_mul_right positive (le_antisymm high (meet ▸ low))
  omega

/-- The midpoints of two magnitudes are in order, and where they meet one significand is odd. -/
theorem highQuarters_le {units units' : Nat} (isMagnitude : IsMagnitude units)
    (isMagnitude' : IsMagnitude units') (less : units < units') :
    highQuarters units ≤ lowQuarters units' ∧
      (highQuarters units = lowQuarters units' →
        significand units % 2 = 1 ∨ significand units' % 2 = 1) := by
  rcases (gapExponent_mono less.le).eq_or_lt with same | larger
  · exact highQuarters_le_of_same_gap isMagnitude isMagnitude' less same
  · have ordered := highQuarters_le_of_larger_gap isMagnitude isMagnitude' larger
    exact ⟨ordered.1, fun meet => .inl (ordered.2 meet)⟩

theorem one_pos : 0 < one := by
  rw [one, Nat.one_shiftLeft]
  exact Nat.two_pow_pos 1074

namespace Decimal

/-- The number that a decimal stands for. -/
def value (decimal : Decimal) : ℚ :=
  decimal.digits * 10 ^ decimal.exponent

/-- A decimal in quarters of a unit. -/
def quarters (decimal : Decimal) : ℚ :=
  decimal.value * (4 * one : ℕ)

theorem zpow_mul_pow_neg (exponent : ℤ) :
    (10 : ℚ) ^ exponent * 10 ^ (-exponent).toNat = 10 ^ exponent.toNat := by
  rw [← zpow_natCast, ← zpow_natCast, ← zpow_add₀ (by norm_num)]
  congr 1
  omega

theorem compare_cast_mul {number number' : ℕ} {ratio ratio' factor : ℚ} (positive : 0 < factor)
    (isNumber : (number : ℚ) = ratio * factor) (isNumber' : (number' : ℚ) = ratio' * factor) :
    compare number number' = compare ratio ratio' := by
  rcases lt_trichotomy ratio ratio' with less | rfl | greater
  · have lessNumber : number < number' := by
      rw [← Nat.cast_lt (α := ℚ), isNumber, isNumber']
      exact mul_lt_mul_of_pos_right less positive
    rw [compare_lt_iff_lt.mpr less, compare_lt_iff_lt.mpr lessNumber]
  · have sameNumber : number = number' := Nat.cast_injective (isNumber.trans isNumber'.symm)
    rw [compare_eq_iff_eq.mpr rfl, compare_eq_iff_eq.mpr sameNumber]
  · have greaterNumber : number' < number := by
      rw [← Nat.cast_lt (α := ℚ), isNumber, isNumber']
      exact mul_lt_mul_of_pos_right greater positive
    rw [compare_gt_iff_gt.mpr greater, compare_gt_iff_gt.mpr greaterNumber]

/-- Decimals are compared by the numbers that they stand for. -/
theorem compareQuarters_eq (decimal : Decimal) (quarters : ℕ) :
    decimal.compareQuarters quarters = compare decimal.quarters quarters := by
  have positive : (0 : ℚ) < 10 ^ (-decimal.exponent).toNat := by positivity
  refine compare_cast_mul positive ?_ ?_
  · calc ((4 * one * (decimal.digits * Nat.pow 10 decimal.exponent.toNat) : ℕ) : ℚ)
        = (4 * one : ℕ) * (decimal.digits * 10 ^ decimal.exponent.toNat) := by
          exact_mod_cast rfl
      _ = decimal.quarters * 10 ^ (-decimal.exponent).toNat := by
          rw [Decimal.quarters, value, ← zpow_mul_pow_neg]
          ring
  · exact_mod_cast rfl

theorem readsBack_iff {units : Nat} {decimal : Decimal} : readsBack units decimal ↔
    (lowQuarters units < decimal.quarters ∨
      significand units % 2 = 0 ∧ decimal.quarters = lowQuarters units) ∧
    (decimal.quarters < highQuarters units ∨
      significand units % 2 = 0 ∧ decimal.quarters = highQuarters units) := by
  have isLow : 4 * units - (if significand units = 1 <<< 52 ∧ 0 < gapExponent units then
      1 <<< gapExponent units else 2 * 1 <<< gapExponent units) = lowQuarters units := by
    rw [Nat.one_shiftLeft, Nat.one_shiftLeft]
    rfl
  have isHigh : 4 * units + 2 * 1 <<< gapExponent units = highQuarters units := by
    rw [Nat.one_shiftLeft]
    rfl
  simp only [readsBack, isLow, isHigh, compareQuarters_eq, Bool.and_eq_true, Bool.or_eq_true,
    beq_iff_eq, compare_lt_iff_lt, compare_gt_iff_gt, compare_eq_iff_eq]

theorem readsBack_of_value_eq {units : Nat} {decimal decimal' : Decimal}
    (same : decimal.value = decimal'.value) (reads : readsBack units decimal) :
    readsBack units decimal' := by
  have sameQuarters : decimal.quarters = decimal'.quarters := by rw [quarters, same, quarters]
  rw [readsBack_iff, ← sameQuarters]
  exact readsBack_iff.mp reads

theorem not_readsBack_of_lt {units units' : Nat} (isMagnitude : IsMagnitude units)
    (isMagnitude' : IsMagnitude units') {decimal : Decimal} (less : units < units')
    (reads : readsBack units decimal) : ¬readsBack units' decimal := by
  intro reads'
  obtain ⟨ordered, odd⟩ := highQuarters_le isMagnitude isMagnitude' less
  have orderedCast : (highQuarters units : ℚ) ≤ lowQuarters units' := Nat.cast_le.mpr ordered
  have high := (readsBack_iff.mp reads).2
  have low := (readsBack_iff.mp reads').1
  rcases high with below | ⟨even, isHigh⟩
  · rcases low with above | ⟨_, isLow⟩ <;> linarith
  · rcases low with above | ⟨even', isLow⟩
    · linarith
    · have meet : highQuarters units = lowQuarters units' :=
        Nat.cast_injective (isHigh.symm.trans isLow)
      rcases odd meet with isOdd | isOdd <;> omega

theorem value_pos_of_readsBack {units : Nat} (positive : 0 < units) {decimal : Decimal}
    (reads : readsBack units decimal) : 0 < decimal.value := by
  have lowPositive : (0 : ℚ) < lowQuarters units := Nat.cast_pos.mpr (lowQuarters_pos positive)
  have quartersPositive : 0 < decimal.quarters := by
    rcases (readsBack_iff.mp reads).1 with above | ⟨_, isLow⟩
    · exact lowPositive.trans above
    · rwa [isLow]
  have factorPositive : (0 : ℚ) < (4 * one : ℕ) :=
    Nat.cast_pos.mpr (Nat.mul_pos (by decide) one_pos)
  exact (mul_pos_iff_of_pos_right factorPositive).mp quartersPositive

/-- No decimal reads back as two magnitudes. -/
theorem readsBack_injective {units units' : Nat} (isMagnitude : IsMagnitude units)
    (isMagnitude' : IsMagnitude units') {decimal : Decimal} (reads : readsBack units decimal)
    (reads' : readsBack units' decimal) : units = units' := by
  rcases lt_trichotomy units units' with less | same | greater
  · exact (not_readsBack_of_lt isMagnitude isMagnitude' less reads reads').elim
  · exact same
  · exact (not_readsBack_of_lt isMagnitude' isMagnitude greater reads' reads).elim

theorem value_withoutTrailingZeros (decimal : Decimal) :
    decimal.withoutTrailingZeros.value = decimal.value := by
  induction decimal using withoutTrailingZeros.induct with
  | case1 decimal ends ih =>
      rw [withoutTrailingZeros, if_pos ends, ih, value, value]
      obtain ⟨tenth, isTenth⟩ := Nat.dvd_of_mod_eq_zero ends.2
      rw [isTenth, Nat.mul_div_cancel_left _ (by decide), zpow_add_one₀ (by norm_num)]
      push_cast
      ring
  | case2 decimal ends => rw [withoutTrailingZeros, if_neg ends]

theorem readsBack_onGrid? {units : Nat} {exponent : Int} {decimal : Decimal}
    (found : onGrid? units exponent = some decimal) : readsBack units decimal := by
  unfold onGrid? at found
  dsimp only at found
  split at found
  · rename_i readsLow readsHigh
    split at found
    · cases found
      exact readsLow
    · cases found
      exact readsHigh
  · rename_i readsLow _
    cases found
    exact readsLow
  · rename_i _ readsHigh
    cases found
    exact readsHigh
  · cases found

theorem quarters_exact (units : Nat) : (exact units).quarters = (4 * units : ℕ) := by
  rw [quarters, value, exact, one]
  -- The number of digits becomes a name, since the powers are too large to be computed.
  generalize isDigits : (1074 : ℕ) = digits
  have isExponent : (-1074 : ℤ) = -digits := by omega
  have cancels : (5 : ℚ) ^ digits * 10 ^ (-digits : ℤ) * 2 ^ digits = 1 := by
    rw [zpow_neg, zpow_natCast, mul_right_comm, ← mul_pow]
    norm_num
  calc ((units * Nat.pow 5 digits : ℕ) : ℚ) * 10 ^ (-1074 : ℤ) * (4 * 1 <<< digits : ℕ)
      = 4 * units * ((5 : ℚ) ^ digits * 10 ^ (-digits : ℤ) * 2 ^ digits) := by
        rw [Nat.one_shiftLeft, Nat.pow_eq, isExponent]
        push_cast
        ring
    _ = (4 * units : ℕ) := by
        rw [cancels]
        push_cast
        ring

theorem readsBack_exact {units : Nat} (positive : 0 < units) : readsBack units (exact units) := by
  rw [readsBack_iff, quarters_exact]
  exact ⟨.inl (Nat.cast_lt.mpr (lowQuarters_lt positive)),
    .inl (Nat.cast_lt.mpr (lt_highQuarters units))⟩

/-- The shortest decimal of a magnitude reads back as it. -/
theorem readsBack_shortest {units : Nat} (positive : 0 < units) :
    readsBack units (shortest units) := by
  rw [shortest]
  refine readsBack_of_value_eq (value_withoutTrailingZeros _).symm ?_
  cases found : List.findSome? (onGrid? units) _ with
  | none => exact readsBack_exact positive
  | some decimal =>
      obtain ⟨exponent, _, isDecimal⟩ := List.exists_of_findSome?_eq_some found
      exact readsBack_onGrid? isDecimal

end Decimal

/-- The reals that are numbers. -/
def IsFinite (real : Float) : Prop :=
  exponentField real ≠ 0x7ff

def fraction (real : Float) : Nat :=
  real.toBits.toNat % 2 ^ 52

/-- The magnitude of a real by the two parts of its bits. -/
def assemble : (field fraction : Nat) → Nat
  | 0, fraction => fraction
  | field + 1, fraction => (2 ^ 52 + fraction) * 2 ^ field

theorem gapExponent_assemble {fraction : Nat} (small : fraction < 2 ^ 52) (field : Nat) :
    gapExponent (assemble (field + 1) fraction) = field := by
  have isLog : ((2 ^ 52 + fraction) * 2 ^ field).log2 = 52 + field := by
    rw [Nat.log2_eq_iff (by positivity), Nat.add_right_comm, Nat.pow_add, Nat.pow_add]
    exact ⟨Nat.mul_le_mul_right _ (by omega),
      Nat.mul_lt_mul_of_pos_right (by omega) (by positivity)⟩
  rw [gapExponent, assemble, isLog, Nat.add_sub_cancel_left]

theorem isMagnitude_assemble {fraction : Nat} (small : fraction < 2 ^ 52) (field : Nat) :
    IsMagnitude (assemble field fraction) := by
  cases field with
  | zero =>
      have unit : gap fraction = 1 := by
        have small : fraction.log2 ≤ 52 := by
          rcases Nat.eq_zero_or_pos fraction with rfl | positive
          · simp
          · exact ((Nat.log2_lt positive.ne').mpr small).le
        rw [gap, gapExponent, Nat.sub_eq_zero_of_le small, Nat.pow_zero]
      rw [IsMagnitude, assemble, unit]
      exact Nat.one_dvd fraction
  | succ field =>
      rw [IsMagnitude, gap, gapExponent_assemble small]
      exact Nat.dvd_mul_left ..

theorem assemble_injective {field field' fraction fraction' : Nat} (small : fraction < 2 ^ 52)
    (small' : fraction' < 2 ^ 52) (same : assemble field fraction = assemble field' fraction') :
    field = field' ∧ fraction = fraction' := by
  have large (field fraction : Nat) : 2 ^ 52 ≤ assemble (field + 1) fraction :=
    (Nat.le_add_right ..).trans (Nat.le_mul_of_pos_right _ (by positivity))
  cases field with
  | zero =>
      cases field' with
      | zero => exact ⟨rfl, same⟩
      | succ field' =>
          have := large field' fraction'
          rw [← same, assemble] at this
          omega
  | succ field =>
      cases field' with
      | zero =>
          have := large field fraction
          rw [same, assemble] at this
          omega
      | succ field' =>
          have sameField : field = field' := by
            rw [← gapExponent_assemble small field, same, gapExponent_assemble small']
          subst sameField
          have := Nat.eq_of_mul_eq_mul_right (Nat.two_pow_pos field) same
          exact ⟨rfl, by omega⟩

theorem exponentField_eq (real : Float) :
    exponentField real = real.toBits.toNat / 2 ^ 52 % 2 ^ 11 := by
  rw [exponentField, UInt64.toNat_and, UInt64.toNat_shiftRight, Nat.shiftRight_eq_div_pow]
  exact Nat.and_two_pow_sub_one_eq_mod _ 11

theorem toNat_unpackExponent (real : Float) :
    (@unpackExponent Format.binary64 real.toBits.toBitVec).toNat = exponentField real := by
  rw [exponentField_eq]
  simp [unpackExponent, Nat.shiftRight_eq_div_pow]

theorem isNaN_of_isFinite {real : Float} (finite : IsFinite real) : real.isNaN = false := by
  have notOnes : @unpackExponent Format.binary64 real.toBits.toBitVec ≠ -1#_ := by
    intro isOnes
    have isField := toNat_unpackExponent real
    rw [isOnes] at isField
    exact finite isField.symm
  change (unpack Format.binary64 real.toBits.toBitVec).isNaN = false
  unfold unpack
  dsimp only
  rw [if_neg notOnes]
  split
  · split <;> rfl
  · rfl

theorem isNegative_iff (real : Float) : isNegative real ↔ real.toBits.toNat / 2 ^ 63 = 1 := by
  rw [isNegative, beq_iff_eq, ← UInt64.toNat_inj, UInt64.toNat_shiftRight,
    Nat.shiftRight_eq_div_pow]
  rfl

theorem magnitude_eq (real : Float) :
    magnitude real = assemble (exponentField real) (fraction real) := by
  have isFraction : (real.toBits &&& 0xfffffffffffff).toNat = fraction real := by
    rw [UInt64.toNat_and]
    exact Nat.and_two_pow_sub_one_eq_mod _ 52
  rw [magnitude, isFraction]
  cases exponentField real with
  | zero => rfl
  | succ field => rw [assemble, ← Nat.shiftLeft_eq, Nat.one_shiftLeft]

theorem isMagnitude_magnitude (real : Float) : IsMagnitude (magnitude real) := by
  rw [magnitude_eq]
  exact isMagnitude_assemble (Nat.mod_lt _ (by decide)) _

/-- A real is told by its sign and its magnitude. -/
theorem eq_of_magnitude {real real' : Float} (sameSign : isNegative real = isNegative real')
    (same : magnitude real = magnitude real') : real = real' := by
  rw [magnitude_eq, magnitude_eq] at same
  obtain ⟨sameField, sameFraction⟩ := assemble_injective (Nat.mod_lt _ (by decide))
    (Nat.mod_lt _ (by decide)) same
  have sameSignBit : real.toBits.toNat / 2 ^ 63 = 1 ↔ real'.toBits.toNat / 2 ^ 63 = 1 := by
    rw [← isNegative_iff, ← isNegative_iff, sameSign]
  have sameBits : real.toBits.toNat = real'.toBits.toNat := by
    have bound := real.toBits.toNat_lt
    have bound' := real'.toBits.toNat_lt
    rw [exponentField_eq, exponentField_eq] at sameField
    omega
  obtain ⟨⟨bits, valid⟩⟩ := real
  obtain ⟨⟨bits', valid'⟩⟩ := real'
  have sameWord : bits = bits' := UInt64.toNat_inj.mp sameBits
  subst sameWord
  rfl

end Mel.Floating

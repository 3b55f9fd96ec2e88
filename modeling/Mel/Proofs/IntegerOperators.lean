import Mathlib.Data.Nat.Factorial.Basic
import Mathlib.Data.Rat.Floor
import Mel.Value.Operation

/-!
# Operators on integers

The operators on integers compute in the integers: what they answer is the exact result if 64
bits hold it, and an overflow otherwise. No result wraps around. Division rounds down, so that
the modulus lies between zero and the divisor, on whichever side the divisor is.

Powers and factorials are cut short where all results are too large. They are shown here to be
what they would be without the cut.
-/

namespace Mel

namespace Integer

/-- The integers that 64 bits hold. -/
def Fits (number : ℤ) : Prop :=
  -2 ^ 63 ≤ number ∧ number < 2 ^ 63

instance (number : ℤ) : Decidable (Fits number) :=
  inferInstanceAs (Decidable (_ ∧ _))

theorem fits_toInt (word : Int64) : Fits word.toInt :=
  ⟨word.le_toInt, word.toInt_lt⟩

theorem fit_of_fits {number : ℤ} (fits : Fits number) : fit number = .ok (Int64.ofInt number) := by
  have upper : number ≤ Int64.maxValue.toInt := by
    rw [Int64.toInt_maxValue]
    exact Int.le_sub_one_of_lt fits.2
  rw [fit, if_pos ⟨Int64.toInt_minValue ▸ fits.1, upper⟩]

theorem fit_of_not_fits {number : ℤ} (large : ¬Fits number) : fit number = .error .overflow := by
  refine if_neg fun inside => large ⟨Int64.toInt_minValue ▸ inside.1, ?_⟩
  have upper := inside.2
  rw [Int64.toInt_maxValue] at upper
  exact Int.lt_of_le_sub_one upper

theorem floor_div_eq_fdiv (dividend divisor : ℤ) :
    ⌊(dividend / divisor : ℚ)⌋ = dividend.fdiv divisor := by
  have ofNonneg (dividend divisor : ℤ) (nonneg : 0 ≤ divisor) :
      ⌊(dividend / divisor : ℚ)⌋ = dividend.fdiv divisor := by
    obtain ⟨divisor, rfl⟩ := Int.eq_ofNat_of_zero_le nonneg
    rw [Int.fdiv_eq_ediv_of_nonneg _ nonneg, Int.cast_natCast, Rat.floor_intCast_div_natCast]
  rcases Int.le_total 0 divisor with nonneg | nonpos
  · exact ofNonneg dividend divisor nonneg
  · rw [← Int.neg_fdiv_neg, ← ofNonneg (-dividend) (-divisor) (Int.neg_nonneg_of_nonpos nonpos),
      Int.cast_neg, Int.cast_neg, neg_div_neg_eq]

/-- The modulus lies between zero and the divisor, the divisor excluded. -/
theorem fmod_between (dividend : ℤ) {divisor : ℤ} (nonzero : divisor ≠ 0) :
    (0 ≤ dividend.fmod divisor ∧ dividend.fmod divisor < divisor) ∨
      (divisor < dividend.fmod divisor ∧ dividend.fmod divisor ≤ 0) := by
  have ofPos (dividend divisor : ℤ) (positive : 0 < divisor) :
      0 ≤ dividend.fmod divisor ∧ dividend.fmod divisor < divisor := by
    refine ⟨?_, Int.fmod_lt_of_pos dividend positive⟩
    rw [Int.fmod_eq_emod_of_nonneg _ positive.le]
    exact Int.emod_nonneg _ positive.ne'
  rcases lt_or_gt_of_ne nonzero with negative | positive
  · have mirrored := ofPos (-dividend) (-divisor) (Int.neg_pos_of_neg negative)
    rw [Int.neg_fmod_neg] at mirrored
    omega
  · exact .inl (ofPos dividend divisor positive)

/-- What lies between zero and the divisor is smaller than it, and zero or of the same sign. -/
theorem smaller_of_between {rest divisor : ℤ}
    (between : (0 ≤ rest ∧ rest < divisor) ∨ (divisor < rest ∧ rest ≤ 0)) :
    |rest| < |divisor| ∧ (rest = 0 ∨ rest.sign = divisor.sign) := by
  rcases between with ⟨nonneg, less⟩ | ⟨less, nonpos⟩
  · rw [abs_of_nonneg nonneg, abs_of_pos (by omega)]
    refine ⟨less, ?_⟩
    rcases nonneg.eq_or_lt with isZero | positive
    · exact .inl isZero.symm
    · rw [Int.sign_eq_one_of_pos positive, Int.sign_eq_one_of_pos (by omega)]
      exact .inr rfl
  · rw [abs_of_nonpos nonpos, abs_of_neg (by omega)]
    refine ⟨by omega, ?_⟩
    rcases nonpos.eq_or_lt with isZero | negative
    · exact .inl isZero
    · rw [Int.sign_eq_neg_one_of_neg negative, Int.sign_eq_neg_one_of_neg (by omega)]
      exact .inr rfl

theorem fits_fmod (dividend : ℤ) {divisor : ℤ} (nonzero : divisor ≠ 0) (fits : Fits divisor) :
    Fits (dividend.fmod divisor) := by
  have between := fmod_between dividend nonzero
  simp only [Fits] at *
  omega

/-- A quotient that is rounded down fits, unless the least integer is divided by minus one. -/
theorem fits_fdiv_iff {dividend divisor : ℤ} (nonzero : divisor ≠ 0) (fits : Fits dividend) :
    Fits (dividend.fdiv divisor) ↔ ¬(dividend = -2 ^ 63 ∧ divisor = -1) := by
  constructor
  · rintro fitsQuotient ⟨rfl, rfl⟩
    revert fitsQuotient
    decide
  · intro noCorner
    have whole := Int.mul_fdiv_add_fmod dividend divisor
    have between := fmod_between dividend nonzero
    generalize dividend.fdiv divisor = quotient at *
    generalize dividend.fmod divisor = rest at *
    obtain ⟨lower, upper⟩ := fits
    rcases between with ⟨restNonneg, restLt⟩ | ⟨ltRest, restNonpos⟩
    · constructor <;> nlinarith
    · constructor
      · nlinarith
      · by_contra large
        have largeQuotient : 2 ^ 63 ≤ quotient := Int.not_lt.mp large
        have isMinusOne : divisor = -1 := by nlinarith
        subst isMinusOne
        exact noCorner ⟨by omega, rfl⟩

theorem not_fits_pow {base : ℤ} (large : 2 ≤ |base|) {exponent : ℕ} (long : 64 ≤ exponent) :
    ¬Fits (base ^ exponent) := by
  have least : (2 : ℤ) ^ 64 ≤ |base| ^ exponent :=
    calc (2 : ℤ) ^ 64 ≤ |base| ^ 64 := pow_le_pow_left₀ (by decide) large 64
      _ ≤ |base| ^ exponent := pow_le_pow_right₀ (by omega) long
  rw [← abs_pow] at least
  rintro ⟨lower, upper⟩
  have atMost : |base ^ exponent| ≤ 2 ^ 63 := abs_le.mpr ⟨lower, upper.le⟩
  omega

/-- Positive powers of -1, 0 and 1 depend on the parity of the exponent only. -/
theorem pow_of_small {base : ℤ} (small : |base| < 2) {exponent : ℕ} (positive : exponent ≠ 0) :
    base ^ (64 + exponent % 2) = base ^ exponent := by
  have oneOfThree : base = -1 ∨ base = 0 ∨ base = 1 := by
    rw [abs_lt] at small
    omega
  rcases oneOfThree with rfl | rfl | rfl
  · rw [pow_add, ← neg_one_pow_eq_pow_mod_two, Even.neg_one_pow (by decide), one_mul]
  · rw [zero_pow (by omega), zero_pow positive]
  · rw [one_pow, one_pow]

/-- Cutting the exponent short changes nothing. -/
theorem power_eq (base : Int64) (exponent : ℕ) :
    power base exponent = fit (base.toInt ^ exponent) := by
  rw [power]
  split
  · rfl
  · rename_i long
    rcases lt_or_ge |base.toInt| 2 with small | large
    · exact congrArg fit (pow_of_small small (by omega))
    · rw [fit_of_not_fits (not_fits_pow large (Nat.le_of_not_lt long))]
      exact fit_of_not_fits (not_fits_pow large (Nat.le_add_right 64 _))

theorem factorial_eq (number : ℕ) : factorial number = number.factorial := by
  induction number with
  | zero => rfl
  | succ number ih => rw [factorial, ih, Nat.factorial_succ]

theorem not_fits_factorial {number : ℕ} (large : 20 < number) :
    ¬Fits (number.factorial : ℤ) := by
  have least : (21).factorial ≤ number.factorial := Nat.factorial_le large
  have isLarge : 2 ^ 63 ≤ (21).factorial := by decide
  rintro ⟨-, upper⟩
  omega

/-- Refusing the factorials that are too large changes nothing. -/
theorem suffix_factorial {number : Int64} (nonneg : 0 ≤ number.toInt) :
    suffix .factorial number = fit (number.toInt.toNat.factorial : ℤ) := by
  simp only [suffix, if_neg (Int.not_lt.mpr nonneg), factorial_eq]
  split
  · rw [fit_of_not_fits (not_fits_factorial (by omega))]
  · rfl

/-- The root of a quarter is half of the root, or less by one. -/
theorem squareRoot_spec (number : ℕ) :
    squareRoot number * squareRoot number ≤ number ∧
      number < (squareRoot number + 1) * (squareRoot number + 1) := by
  fun_induction squareRoot number with
  | case1 => exact ⟨Nat.le_refl 0, Nat.one_pos⟩
  | case2 number nonzero root fits ih =>
      have double : (root + 1 + 1) * (root + 1 + 1) =
          4 * ((squareRoot (number / 4) + 1) * (squareRoot (number / 4) + 1)) := by
        simp only [root]
        ring
      exact ⟨fits, by omega⟩
  | case3 number nonzero root large ih =>
      have double : root * root = 4 * (squareRoot (number / 4) * squareRoot (number / 4)) := by
        simp only [root]
        ring
      exact ⟨by omega, Nat.lt_of_not_le large⟩

theorem suffix_sqrt {number : Int64} (nonneg : 0 ≤ number.toInt) :
    ∃ root : Int64, suffix .sqrt number = .ok root ∧
      IsGreatest {root : ℤ | root * root ≤ number.toInt} root.toInt := by
  obtain ⟨size, isSize⟩ := Int.eq_ofNat_of_zero_le nonneg
  obtain ⟨atMost, less⟩ := squareRoot_spec size
  have fits : Fits (squareRoot size : ℤ) := by
    have upper := number.toInt_lt
    have notLarger : squareRoot size ≤ size := by nlinarith
    exact ⟨by omega, by omega⟩
  refine ⟨Int64.ofInt (squareRoot size), ?_, ?_, fun other isRoot => ?_⟩
  · rw [suffix, if_neg (Int.not_lt.mpr nonneg), isSize, Int.toNat_natCast, fit_of_fits fits]
  · rw [Int64.toInt_ofInt_of_le fits.1 fits.2, Set.mem_ofPred_eq, isSize]
    exact_mod_cast atMost
  · rw [Set.mem_ofPred_eq, isSize] at isRoot
    rw [Int64.toInt_ofInt_of_le fits.1 fits.2]
    by_contra larger
    have lessCast : (size : ℤ) < (squareRoot size + 1) * (squareRoot size + 1) := by
      exact_mod_cast less
    nlinarith

end Integer

namespace Value

/-- The result is this integer if 64 bits hold it, and an overflow otherwise. -/
def IsExactly (number : ℤ) (result : Except RuntimeError Value) : Prop :=
  if Integer.Fits number then ∃ word : Int64, word.toInt = number ∧ result = .ok (.integer word)
  else result = .error (.arithmetic .overflow)

/-- The results of a division that rounds down and of its modulus. What is left over by the
quotient is smaller than the divisor, and zero or of the sign of the divisor. -/
structure IsFloorDivision (dividend divisor : ℤ) (div mod : Except RuntimeError Value) : Prop where
  quotient : IsExactly ⌊(dividend / divisor : ℚ)⌋ div
  overflow_iff : div = .error (.arithmetic .overflow) ↔ dividend = -2 ^ 63 ∧ divisor = -1
  modulus : ∃ rest : Int64, mod = .ok (.integer rest) ∧
    rest.toInt = dividend - divisor * ⌊(dividend / divisor : ℚ)⌋ ∧
    |rest.toInt| < |divisor| ∧ (rest.toInt = 0 ∨ rest.toInt.sign = divisor.sign)
  whole : ∀ whole rest : Int64, div = .ok (.integer whole) → mod = .ok (.integer rest) →
    whole.toInt * divisor + rest.toInt = dividend

theorem isExactly_fit (number : ℤ) :
    IsExactly number (ofArithmetic .integer (Integer.fit number)) := by
  rw [IsExactly]
  split
  · rename_i fits
    rw [Integer.fit_of_fits fits]
    exact ⟨_, Int64.toInt_ofInt_of_le fits.1 fits.2, rfl⟩
  · rename_i large
    rw [Integer.fit_of_not_fits large]
    rfl

/-- Only a number that does not fit overflows. -/
theorem IsExactly.overflow_iff {number : ℤ} {result : Except RuntimeError Value}
    (exact : IsExactly number result) :
    result = .error (.arithmetic .overflow) ↔ ¬Integer.Fits number := by
  rw [IsExactly] at exact
  split at exact
  · rename_i fits
    obtain ⟨word, -, rfl⟩ := exact
    simp [fits]
  · rename_i large
    simp [exact, large]

theorem IsExactly.toInt_eq {number : ℤ} {word : Int64}
    (exact : IsExactly number (.ok (.integer word))) : word.toInt = number := by
  rw [IsExactly] at exact
  split at exact
  · obtain ⟨same, isNumber, isSame⟩ := exact
    cases isSame
    exact isNumber
  · cases exact

theorem ofArithmetic_number (result : Except ArithmeticError Int64) :
    ofArithmetic ofInteger (Outcome.number <$> result) = ofArithmetic .integer result := by
  cases result <;> rfl

section

variable {left right : Int64}

/-- An operator that computes a number in the integers is exact. -/
theorem isExactly_apply {operation : Operation} {number : ℤ}
    (computes : Integer.apply operation left right = Outcome.number <$> Integer.fit number) :
    IsExactly number (apply ⟨.integer, operation⟩ (.integer left) (.integer right)) := by
  have isFit : apply ⟨.integer, operation⟩ (.integer left) (.integer right) =
      ofArithmetic .integer (Integer.fit number) := by
    rw [← ofArithmetic_number, ← computes]
    rfl
  rw [isFit]
  exact isExactly_fit number

theorem isExactly_pow (inRange : 0 ≤ right.toInt ∧ right.toInt < 2 ^ 32) :
    IsExactly (left.toInt ^ right.toInt.toNat)
      (apply ⟨.integer, .pow⟩ (.integer left) (.integer right)) := by
  refine isExactly_apply ?_
  rw [← Integer.power_eq]
  exact if_pos inRange

/-- The modulus always fits, also where the quotient does not. -/
theorem exists_mod (nonzero : right.toInt ≠ 0) :
    ∃ rest : Int64,
      apply ⟨.integer, .mod⟩ (.integer left) (.integer right) = .ok (.integer rest) ∧
        rest.toInt = left.toInt.fmod right.toInt := by
  have fits := Integer.fits_fmod left.toInt nonzero (Integer.fits_toInt right)
  have exact : IsExactly (left.toInt.fmod right.toInt)
      (apply ⟨.integer, .mod⟩ (.integer left) (.integer right)) :=
    isExactly_apply (if_neg nonzero)
  rw [IsExactly, if_pos fits] at exact
  obtain ⟨rest, isRest, isResult⟩ := exact
  exact ⟨rest, isResult, isRest⟩

theorem isFloorDivision (nonzero : right.toInt ≠ 0) :
    IsFloorDivision left.toInt right.toInt
      (apply ⟨.integer, .div⟩ (.integer left) (.integer right))
      (apply ⟨.integer, .mod⟩ (.integer left) (.integer right)) := by
  have exact : IsExactly (left.toInt.fdiv right.toInt)
      (apply ⟨.integer, .div⟩ (.integer left) (.integer right)) :=
    isExactly_apply (if_neg nonzero)
  obtain ⟨rest, isResult, isRest⟩ := @exists_mod left right nonzero
  constructor
  · rwa [Integer.floor_div_eq_fdiv]
  · rw [exact.overflow_iff, Integer.fits_fdiv_iff nonzero (Integer.fits_toInt left), not_not]
  · refine ⟨rest, isResult, ?_, ?_⟩
    · rw [Integer.floor_div_eq_fdiv, isRest, Int.fmod_def]
    · rw [isRest]
      exact Integer.smaller_of_between (Integer.fmod_between left.toInt nonzero)
  · intro whole other isQuotient isOther
    rw [isResult] at isOther
    cases isOther
    rw [isQuotient] at exact
    rw [exact.toInt_eq, isRest, Int.mul_comm, Int.mul_fdiv_add_fmod]

end

/-- What an operator answers that stands between two integers. -/
def resultBetween (operation : Operation) (left right : Int64) : Except RuntimeError Value :=
  apply ⟨.integer, operation⟩ (.integer left) (.integer right)

/-- What an operator answers that stands behind a single integer. -/
def resultBehind (operation : Operation) (operand : Int64) : Except RuntimeError Value :=
  applySuffix ⟨.integer, operation⟩ (.integer operand)

/-- The operators on integers answer with the exact result if 64 bits hold it, and refuse
otherwise: nothing wraps around. -/
theorem integer_operators_are_exact (left right : Int64) :
    IsExactly (left.toInt + right.toInt) (resultBetween .add left right) ∧
    IsExactly (left.toInt - right.toInt) (resultBetween .sub left right) ∧
    IsExactly (left.toInt * right.toInt) (resultBetween .mul left right) ∧
    (if right.toInt = 0 then
      resultBetween .div left right = .error (.arithmetic (.divisionByZero .integer)) ∧
        resultBetween .mod left right = .error (.arithmetic (.moduloByZero .integer))
    else
      IsFloorDivision left.toInt right.toInt (resultBetween .div left right)
        (resultBetween .mod left right)) ∧
    (if 0 ≤ right.toInt ∧ right.toInt < 2 ^ 32 then
      IsExactly (left.toInt ^ right.toInt.toNat) (resultBetween .pow left right)
    else resultBetween .pow left right = .error (.arithmetic .exponentOutOfRange)) ∧
    (if left.toInt < 0 then
      resultBehind .factorial left = .error (.arithmetic (.negativeFactorial .integer)) ∧
        resultBehind .sqrt left = .error (.arithmetic (.negativeSquareRoot .integer))
    else
      IsExactly left.toInt.toNat.factorial (resultBehind .factorial left) ∧
        ∃ root : Int64, resultBehind .sqrt left = .ok (.integer root) ∧
          IsGreatest {root : ℤ | root * root ≤ left.toInt} root.toInt) ∧
    resultBetween .factorial left right = resultBehind .factorial left ∧
    resultBetween .sqrt left right = resultBehind .sqrt left ∧
    resultBetween .less left right = .ok (.boolean (left.toInt < right.toInt)) ∧
    resultBetween .equal left right = .ok (.boolean (left.toInt = right.toInt)) ∧
    resultBetween .greater left right = .ok (.boolean (left.toInt > right.toInt)) ∧
    resultBetween .lessEqual left right = .ok (.boolean (left.toInt ≤ right.toInt)) ∧
    resultBetween .greaterEqual left right = .ok (.boolean (left.toInt ≥ right.toInt)) ∧
    resultBetween .notEqual left right = .ok (.boolean (left.toInt ≠ right.toInt)) := by
  refine ⟨isExactly_apply rfl, isExactly_apply rfl, isExactly_apply rfl, ?_, ?_, ?_,
    ofArithmetic_number _, ofArithmetic_number _, rfl, rfl, rfl, rfl, rfl, rfl⟩
  · split
    · rename_i isZero
      exact ⟨congrArg (ofArithmetic ofInteger) (if_pos isZero),
        congrArg (ofArithmetic ofInteger) (if_pos isZero)⟩
    · rename_i nonzero
      exact isFloorDivision nonzero
  · split
    · rename_i inRange
      exact isExactly_pow inRange
    · rename_i outOfRange
      exact congrArg (ofArithmetic ofInteger) (if_neg outOfRange)
  · split
    · rename_i negative
      exact ⟨congrArg (ofArithmetic .integer) (if_pos negative),
        congrArg (ofArithmetic .integer) (if_pos negative)⟩
    · rename_i nonneg
      have nonneg : 0 ≤ left.toInt := Int.not_lt.mp nonneg
      obtain ⟨root, isRoot, greatest⟩ := Integer.suffix_sqrt nonneg
      refine ⟨?_, root, congrArg (ofArithmetic .integer) isRoot, greatest⟩
      have isFactorial : resultBehind .factorial left = ofArithmetic .integer (Integer.fit _) :=
        congrArg (ofArithmetic .integer) (Integer.suffix_factorial nonneg)
      rw [isFactorial]
      exact isExactly_fit _

/-- The least integer has no quotient with minus one, but a modulus. -/
example : resultBetween .div Int64.minValue (-1) = .error (.arithmetic .overflow) ∧
    resultBetween .mod Int64.minValue (-1) = .ok (.integer 0) :=
  ⟨rfl, rfl⟩

end Value

end Mel

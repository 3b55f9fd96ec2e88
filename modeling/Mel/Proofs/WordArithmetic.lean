import Mel.Proofs.BitLiterals
import Mel.Proofs.IntegerOperators

/-!
# Arithmetic in words

The operations on integers are defined by what they compute in the integers. A machine computes them
in words of 64 bits: it corrects the division that truncates, and builds up factorials and the
numbers that bits denote step by step. This file gives these algorithms and proves that both come to
the same. A quotient overflows where truncation does, no correction does, and a step overflows if
and only if the result does not fit, since results grow.
-/

namespace Mel

namespace Integer

/-- A quotient is rounded down if it is truncated, and less by one where the signs differ and
something is left over. -/
theorem fdiv_eq_corrected (dividend : ℤ) {divisor : ℤ} (nonzero : divisor ≠ 0) :
    dividend.fdiv divisor =
      if dividend.tmod divisor ≠ 0 ∧ ¬(dividend < 0 ↔ divisor < 0) then dividend.tdiv divisor - 1
      else dividend.tdiv divisor := by
  simp only [Int.fdiv_eq_tdiv, Int.dvd_iff_tmod_eq_zero]
  rcases lt_or_gt_of_ne nonzero with negative | positive
  · rw [Int.sign_eq_neg_one_of_neg negative]
    split_ifs <;> omega
  · rw [Int.sign_eq_one_of_pos positive]
    split_ifs <;> omega

/-- What truncation leaves over has the sign of the dividend. -/
theorem tmod_neg_iff {dividend divisor : ℤ} (left : dividend.tmod divisor ≠ 0) :
    dividend.tmod divisor < 0 ↔ dividend < 0 := by
  rcases lt_or_ge dividend 0 with negative | nonneg
  · have mirrored := Int.tmod_nonneg divisor (Int.neg_nonneg_of_nonpos negative.le)
    rw [Int.neg_tmod] at mirrored
    omega
  · have remains := Int.tmod_nonneg divisor nonneg
    omega

/-- A modulus is what truncation leaves over, and the divisor more where the signs differ. -/
theorem fmod_eq_corrected (dividend divisor : ℤ) :
    dividend.fmod divisor =
      if dividend.tmod divisor ≠ 0 ∧ ¬(dividend.tmod divisor < 0 ↔ divisor < 0) then
        dividend.tmod divisor + divisor
      else dividend.tmod divisor := by
  simp only [Int.fmod_eq_tmod, Int.dvd_iff_tmod_eq_zero]
  by_cases left : dividend.tmod divisor = 0
  · simp [left]
  · simp only [tmod_neg_iff left]
    split_ifs <;> omega

theorem bmod_of_fits {number : ℤ} (fits : Fits number) : number.bmod (2 ^ 64) = number := by
  obtain ⟨lower, upper⟩ := fits
  exact Int.bmod_eq_of_le (by omega) (by omega)

section

variable {left right : Int64}

theorem toInt_div_of_fits (noCorner : ¬(left.toInt = -2 ^ 63 ∧ right.toInt = -1)) :
    (left / right).toInt = left.toInt.tdiv right.toInt := by
  by_cases least : left = Int64.minValue
  · refine Int64.toInt_div_of_ne_right left right fun isMinusOne => noCorner ⟨?_, ?_⟩
    · rw [least, Int64.toInt_minValue]
    · rw [isMinusOne]
      rfl
  · exact Int64.toInt_div_of_ne_left left right least

theorem fit_toInt (word : Int64) : fit word.toInt = .ok word := by
  rw [fit_of_fits (fits_toInt word), Int64.ofInt_toInt]

theorem ne_zero_iff (word : Int64) : word ≠ 0 ↔ word.toInt ≠ 0 := by
  rw [Ne, ← Int64.toInt_inj, Int64.toInt_zero]

/-- The quotient of two words, corrected where truncation has rounded it up. The least word divided
by minus one overflows before there is anything to correct. -/
def floorQuotient (dividend divisor : Int64) : Except ArithmeticError Int64 :=
  if dividend = Int64.minValue ∧ divisor = -1 then .error .overflow
  else if dividend % divisor ≠ 0 ∧ ¬(dividend < 0 ↔ divisor < 0) then
    .ok (dividend / divisor - 1)
  else .ok (dividend / divisor)

/-- What truncation leaves over of two words, moved to the sign of the divisor. -/
def floorModulus (dividend divisor : Int64) : Int64 :=
  let left := dividend % divisor
  if left ≠ 0 ∧ ¬(left < 0 ↔ divisor < 0) then left + divisor else left

theorem isCorner_iff :
    (left = Int64.minValue ∧ right = -1) ↔ left.toInt = -2 ^ 63 ∧ right.toInt = -1 := by
  rw [← Int64.toInt_inj, ← Int64.toInt_inj, Int64.toInt_minValue]
  rfl

theorem floorQuotient_eq (nonzero : right.toInt ≠ 0) :
    floorQuotient left right = fit (left.toInt.fdiv right.toInt) := by
  rw [floorQuotient, if_congr isCorner_iff rfl rfl]
  by_cases isCorner : left.toInt = -2 ^ 63 ∧ right.toInt = -1
  · have notFits : ¬Fits (left.toInt.fdiv right.toInt) := fun fits =>
      (fits_fdiv_iff nonzero (fits_toInt left)).mp fits isCorner
    rw [if_pos isCorner, fit_of_not_fits notFits]
  · have fits := (fits_fdiv_iff nonzero (fits_toInt left)).mpr isCorner
    rw [if_neg isCorner, fdiv_eq_corrected _ nonzero]
    rw [fdiv_eq_corrected _ nonzero] at fits
    simp only [ne_zero_iff, Int64.toInt_mod, Int64.lt_iff_toInt_lt, Int64.toInt_zero]
    split at fits <;> rename_i corrected
    · have isQuotient : (left / right - 1).toInt = left.toInt.tdiv right.toInt - 1 := by
        rw [Int64.toInt_sub, toInt_div_of_fits isCorner, Int64.toInt_one, bmod_of_fits fits]
      rw [if_pos corrected, if_pos corrected, ← isQuotient, fit_toInt]
    · rw [if_neg corrected, if_neg corrected, ← toInt_div_of_fits isCorner, fit_toInt]

theorem toInt_floorModulus (nonzero : right.toInt ≠ 0) :
    (floorModulus left right).toInt = left.toInt.fmod right.toInt := by
  have fits := fits_fmod left.toInt nonzero (fits_toInt right)
  rw [fmod_eq_corrected] at fits ⊢
  simp only [floorModulus, ne_zero_iff, Int64.toInt_mod, Int64.lt_iff_toInt_lt, Int64.toInt_zero]
  split at fits <;> rename_i corrected
  · rw [if_pos corrected, if_pos corrected, Int64.toInt_add, Int64.toInt_mod, bmod_of_fits fits]
  · rw [if_neg corrected, if_neg corrected, Int64.toInt_mod]

/-- Division in words, for all pairs. -/
theorem apply_div_words (left right : Int64) :
    apply .div left right =
      if right = 0 then .error (.divisionByZero .integer)
      else Outcome.number <$> floorQuotient left right := by
  simp only [apply, ← Int64.toInt_inj, Int64.toInt_zero]
  split
  · rfl
  · rename_i nonzero
    rw [floorQuotient_eq nonzero]

/-- The modulus in words, for all pairs. -/
theorem apply_mod_words (left right : Int64) :
    apply .mod left right =
      if right = 0 then .error (.moduloByZero .integer)
      else .ok (.number (floorModulus left right)) := by
  simp only [apply, ← Int64.toInt_inj, Int64.toInt_zero]
  split
  · rfl
  · rename_i nonzero
    rw [← toInt_floorModulus nonzero, fit_toInt]
    rfl

end

/-- A check on the way to a result that is no smaller changes nothing. -/
theorem fit_bind {number result : ℤ} (nonneg : 0 ≤ number) (grows : number ≤ result)
    {next : Int64 → Except ArithmeticError Int64}
    (goesOn : ∀ word : Int64, word.toInt = number → next word = fit result) :
    (fit number >>= next) = fit result := by
  by_cases fits : Fits number
  · rw [fit_of_fits fits]
    exact goesOn _ (Int64.toInt_ofInt_of_le fits.1 fits.2)
  · have notFits : ¬Fits result := fun fitsLater => fits ⟨by omega, grows.trans_lt fitsLater.2⟩
    rw [fit_of_not_fits fits, fit_of_not_fits notFits]
    rfl

/-- One more factor of a product. -/
def multiply (product : Int64) (factor : ℕ) : Except ArithmeticError Int64 :=
  fit (product.toInt * factor)

/-- The factors up to a number, multiplied one by one. -/
def productUpTo (number : Int64) : Except ArithmeticError Int64 :=
  (List.range' 1 number.toInt.toNat).foldlM multiply 1

/-- One more bit behind those that a word is made of. -/
def appendBit (word : Int64) (digit : Bool) : Except ArithmeticError Int64 := do
  let double ← fit (word.toInt * 2)
  fit (double.toInt + digit.toNat)

/-- The word that bits make up, taken one by one. -/
def wordOfBits (digits : List Bool) : Except ArithmeticError Int64 :=
  digits.foldlM appendBit 0

theorem foldlM_multiply (number : ℕ) :
    (List.range' 1 number).foldlM multiply 1 = fit number.factorial := by
  induction number with
  | zero => rfl
  | succ number ih =>
      have isNext : ((number + 1).factorial : ℤ) = number.factorial * ↑(1 + number) := by
        rw [Nat.factorial_succ, Nat.add_comm 1, Nat.mul_comm, Nat.cast_mul]
      have grows : (number.factorial : ℤ) ≤ (number + 1).factorial := by
        exact_mod_cast Nat.factorial_le number.le_succ
      rw [List.range'_concat, List.foldlM_append, ih, Nat.one_mul]
      refine fit_bind (Int.natCast_nonneg _) grows fun word isWord => ?_
      rw [List.foldlM_cons, multiply, isWord, isNext]
      exact bind_pure _

/-- A factorial in words, for all of them. -/
theorem suffix_factorial_words (number : Int64) :
    suffix .factorial number =
      if number < 0 then .error (.negativeFactorial .integer) else productUpTo number := by
  simp only [Int64.lt_iff_toInt_lt, Int64.toInt_zero]
  split
  · rename_i negative
    exact if_pos negative
  · rename_i nonneg
    rw [suffix_factorial (not_lt.mp nonneg), productUpTo, foldlM_multiply]

theorem foldlM_appendBit (digits : List Bool) {word : Int64} (nonneg : 0 ≤ word.toInt) :
    digits.foldlM appendBit word =
      fit (word.toInt * 2 ^ digits.length + binaryNumber digits) := by
  induction digits generalizing word with
  | nil =>
      have isWord : word.toInt * 2 ^ 0 + 0 = word.toInt := by ring
      exact ((congrArg fit isWord).trans (fit_toInt word)).symm
  | cons digit digits ih =>
      have isAppended : appendBit word digit = fit (word.toInt * 2 + digit.toNat) :=
        fit_bind (by omega) (by omega) fun double isDouble => by rw [isDouble]
      have isNext : word.toInt * 2 ^ (digit :: digits).length + binaryNumber (digit :: digits) =
          (word.toInt * 2 + digit.toNat) * 2 ^ digits.length + binaryNumber digits := by
        rw [binaryNumber_cons, List.length_cons]
        push_cast
        ring
      have grows : word.toInt * 2 + digit.toNat ≤
          (word.toInt * 2 + digit.toNat) * 2 ^ digits.length + binaryNumber digits := by
        have scaled := le_mul_of_one_le_right (show 0 ≤ word.toInt * 2 + digit.toNat by omega)
          (one_le_pow₀ (by decide : (1 : ℤ) ≤ 2) (n := digits.length))
        omega
      rw [List.foldlM_cons, isAppended, isNext]
      refine fit_bind (by omega) grows fun next isWord => ?_
      rw [ih (by omega), isWord]

end Integer

/-- Bits in words, for all lists of them. -/
theorem Value.ofBits_words (digits : List Bool) :
    ofBits digits =
      ((Integer.wordOfBits digits).map Value.integer).mapError fun _ => .literalTooWide := by
  rw [Integer.wordOfBits, Integer.foldlM_appendBit digits (by decide), Int64.toInt_zero,
    Int.zero_mul, Int.zero_add]
  by_cases fits : binaryNumber digits < 2 ^ 63
  · have fitsCast : Integer.Fits (binaryNumber digits) := ⟨by omega, by exact_mod_cast fits⟩
    rw [ofBits_of_fits fits, Integer.fit_of_fits fitsCast]
    rfl
  · have large : ¬Integer.Fits (binaryNumber digits) := fun fitsCast =>
      fits (by exact_mod_cast fitsCast.2)
    rw [ofBits_of_large fits, Integer.fit_of_not_fits large]
    rfl

end Mel

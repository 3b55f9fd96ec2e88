import Mathlib
import Mel.Program.Literal
import Mel.Proofs.Magnitudes

/-!
# Literals are finite

The runs of a number are shorter than the source, so that a literal is far from the largest real.
The exponents of the reals that it is computed with are bounded step by step, with bounds that
are rough but suffice.
-/

namespace Mel.Floating

open Float.Model (Format totalExponent UnpackedFloat)
open Float.Model.UnpackedFloat

/-- A finite number in parts, with an exponent of at most `bound`. -/
def IsBounded (bound : Nat) : UnpackedFloat → Prop
  | .zero _ => True
  | .finite _ _ exponent _ => exponent ≤ bound
  | .infinity _ | .notANumber => False

theorem mantissa_shiftRight_le (extended : ExtendedMantissa) (count : Nat) :
    (extended >>> count).mantissa ≤ extended.mantissa := by
  induction count with
  | zero => exact le_rfl
  | succ count ih => exact (Nat.div_le_self _ 2).trans ih

theorem mantissa_ofMantissaAndAccuracy (mantissa : Nat) (accuracy : Accuracy) :
    (ExtendedMantissa.ofMantissaAndAccuracy mantissa accuracy).mantissa = mantissa := by
  rcases accuracy with _ | ⟨_ | _ | _⟩ <;> rfl

theorem roundedMantissa_le (extended : ExtendedMantissa) :
    extended.roundedMantissa ≤ extended.mantissa + 1 := by
  obtain ⟨mantissa, _ | _, _ | _⟩ := extended <;>
    simp [ExtendedMantissa.roundedMantissa, ExtendedMantissa.accuracy, Accuracy.roundToNearestEven]
  omega

theorem log2_le_of_lt {number bits : Nat} (less : number < 2 ^ (bits + 1)) :
    number.log2 ≤ bits := by
  rcases Nat.eq_zero_or_pos number with rfl | positive
  · simp
  · exact Nat.le_of_lt_succ ((Nat.log2_lt positive.ne').mpr less)

theorem lt_of_log2_le {number bits : Nat} (fewBits : number.log2 ≤ bits) :
    number < 2 ^ (bits + 1) :=
  Nat.lt_log2_self.trans_le (Nat.pow_le_pow_right (by decide) (Nat.succ_le_succ fewBits))

/-- What shifting to the target exponent does to both parts. -/
theorem shiftToTargetExponent_le (mantissa : Nat) (exponent : Int) (accuracy : Accuracy) :
    (shiftToTargetExponent Format.binary64 mantissa exponent accuracy).1.mantissa ≤ mantissa ∧
      (shiftToTargetExponent Format.binary64 mantissa exponent accuracy).2 ≤
        max exponent (-1074) + mantissa.log2 := by
  constructor
  · refine (mantissa_shiftRight_le _ _).trans ?_
    rw [mantissa_ofMantissaAndAccuracy]
  · simp only [shiftToTargetExponent, shiftToExponent, Format.targetExponent, totalExponent,
      Format.mantissaBits, Format.minExponent]
    norm_num
    omega

theorem isBounded_roundWithAccuracy {bound bits : Nat} {exponent : Int} (sign : Sign)
    {mantissa : Nat} (accuracy : Accuracy) (atMost : exponent ≤ bound)
    (fewBits : mantissa.log2 ≤ bits) :
    IsBounded (bound + 2 * bits + 1)
      (roundWithAccuracy Format.binary64 sign mantissa exponent accuracy) := by
  rw [roundWithAccuracy]
  obtain ⟨mantissaAtMost, exponentAtMost⟩ := shiftToTargetExponent_le mantissa exponent accuracy
  generalize shiftToTargetExponent Format.binary64 mantissa exponent accuracy = shifted
    at mantissaAtMost exponentAtMost
  obtain ⟨extended, shiftedExponent⟩ := shifted
  have rounded : extended.roundedMantissa.log2 ≤ bits + 1 := by
    have fewer := lt_of_log2_le fewBits
    have atMostNext := roundedMantissa_le extended
    refine log2_le_of_lt ?_
    rw [Nat.pow_succ]
    dsimp only at mantissaAtMost
    omega
  obtain ⟨-, finalAtMost⟩ :=
    shiftToTargetExponent_le extended.roundedMantissa shiftedExponent .exact
  dsimp only at *
  split
  · exact trivial
  · rw [IsBounded]
    omega

theorem isBounded_div {bound bits bits' : Nat} {sign sign' : Sign} {mantissa mantissa' : Nat}
    {exponent exponent' : Int} {positive : 0 < mantissa} {positive' : 0 < mantissa'}
    (fewBits : mantissa.log2 ≤ bits) (fewBits' : mantissa'.log2 ≤ bits')
    (atMost : exponent - exponent' ≤ bound) :
    IsBounded (bound + 2 * (bits + bits' + 53) + 1)
      (div Format.binary64 (.finite sign mantissa exponent positive)
        (.finite sign' mantissa' exponent' positive')) := by
  rw [div]
  refine isBounded_roundWithAccuracy _ _ ((min_le_left _ _).trans atMost) (log2_le_of_lt ?_)
  refine (Nat.div_le_self _ _).trans_lt ?_
  rw [Nat.shiftLeft_eq]
  have fewShifts : (exponent - exponent' - min (exponent - exponent')
      (Format.binary64.targetExponent
        (totalExponent mantissa exponent - totalExponent mantissa' exponent'))).toNat ≤
      bits' + 53 := by
    simp only [Format.targetExponent, totalExponent, Format.mantissaBits, Format.minExponent]
    norm_num
    omega
  calc mantissa * _ < 2 ^ (bits + 1) * 2 ^ (bits' + 53) :=
        Nat.mul_lt_mul_of_lt_of_le (lt_of_log2_le fewBits)
          (Nat.pow_le_pow_right (by decide) fewShifts) (by positivity)
    _ = 2 ^ (bits + bits' + 53 + 1) := by
        rw [← Nat.pow_add]
        congr 1
        omega

/-- A number in parts that is bounded is finite when packed. -/
theorem exponentField_pack {bound : Nat} {unpacked : UnpackedFloat}
    (bounded : IsBounded bound unpacked) (small : bound < 971) :
    exponentField (Float.ofModel (.pack unpacked)) ≤ bound + 1075 := by
  rw [← toNat_unpackExponent]
  change (@unpackExponent Format.binary64 (pack Format.binary64 unpacked)).toNat ≤ _
  cases unpacked with
  | zero sign => simp [pack, packedZero]
  | finite sign mantissa exponent positive =>
      rw [IsBounded] at bounded
      have isBias : Format.binary64.exponentBias = 1023 := rfl
      simp only [pack, isBias]
      split
      · rename_i overflows
        norm_num at overflows
        omega
      · split
        · rw [unpackExponent_packComponents, BitVec.toNat_ofNat]
          refine (Nat.mod_le _ _).trans ?_
          norm_num
          omega
        · simp
  | infinity sign => exact bounded.elim
  | notANumber => exact bounded.elim

/-- The parts of a finite real with an exponent; the exponent of zero is the least one. -/
def HasExponent (exponent : Int) : UnpackedFloat → Prop
  | .zero _ => exponent = -1074
  | .finite _ mantissa actual _ => mantissa.log2 ≤ 52 ∧ actual = exponent
  | .infinity _ | .notANumber => False

theorem hasExponent_unpack {real : Float} (finite : IsFinite real) :
    HasExponent (max 1 (exponentField real) - 1075 : Int) real.toModel.unpack := by
  have isField := toNat_unpackExponent real
  have isBias : Format.binary64.exponentBias = 1023 := rfl
  have notOnes : @unpackExponent Format.binary64 real.toBits.toBitVec ≠ -1#_ := by
    intro isOnes
    rw [isOnes] at isField
    exact finite isField.symm
  change HasExponent _ (unpack Format.binary64 real.toBits.toBitVec)
  unfold unpack
  dsimp only
  rw [if_neg notOnes]
  split
  · rename_i isZero
    rw [isZero] at isField
    have isField : exponentField real = 0 := isField.symm
    split
    · rw [HasExponent, isField]
      rfl
    · rw [HasExponent, isZero, isField, isBias]
      exact ⟨log2_le_of_lt ((BitVec.isLt _).trans (by decide)), rfl⟩
  · rename_i notZero
    have nonzero : exponentField real ≠ 0 := by
      intro isZero
      rw [isZero] at isField
      exact notZero (BitVec.eq_of_toNat_eq isField)
    rw [HasExponent, isField, isBias]
    refine ⟨log2_le_of_lt (BitVec.isLt _), ?_⟩
    omega

theorem isFinite_div {real divisor : Float} (atMost : exponentField real ≤ 1500)
    (atLeast : 1000 ≤ exponentField divisor) (finite : IsFinite divisor) :
    IsFinite (real / divisor) := by
  have finiteReal : IsFinite real := by
    rw [IsFinite]
    omega
  have bounded : IsBounded 815
      (div Format.binary64 real.toModel.unpack divisor.toModel.unpack) := by
    have parts := hasExponent_unpack finiteReal
    have parts' := hasExponent_unpack finite
    generalize real.toModel.unpack = unpacked, divisor.toModel.unpack = unpacked' at parts parts' ⊢
    cases unpacked' with
    | infinity | notANumber => exact parts'.elim
    | zero sign' =>
        rw [HasExponent] at parts'
        omega
    | finite sign' mantissa' exponent' positive' =>
        cases unpacked with
        | infinity | notANumber => exact parts.elim
        | zero sign => exact trivial
        | finite sign mantissa exponent positive =>
            have near : exponent - exponent' ≤ (500 : Nat) := by
              rw [parts.2, parts'.2]
              omega
            exact isBounded_div parts.1 parts'.1 near
  have field : exponentField (real / divisor) ≤ 815 + 1075 := exponentField_pack bounded (by decide)
  rw [IsFinite]
  omega

theorem isBounded_round {number : Nat} (sign : Sign) (fewBits : number.log2 ≤ 63) :
    IsBounded 231 (UnpackedFloat.round Format.binary64 sign number 0) := by
  have fewShifts :
      (0 - Format.binary64.targetExponent (totalExponent number 0)).toNat ≤ 52 := by
    simp only [Format.targetExponent, totalExponent, Format.mantissaBits, Format.minExponent]
    norm_num
    omega
  simp only [UnpackedFloat.round, decreaseExponent]
  generalize (0 - Format.binary64.targetExponent (totalExponent number 0)).toNat = count
    at fewShifts ⊢
  have atMost : (0 - count : Int) ≤ (0 : Nat) := by omega
  have fewBitsShifted : (number <<< count).log2 ≤ 115 := by
    refine log2_le_of_lt ?_
    rw [Nat.shiftLeft_eq]
    calc number * 2 ^ count < 2 ^ (63 + 1) * 2 ^ 52 :=
          Nat.mul_lt_mul_of_lt_of_le (lt_of_log2_le fewBits)
            (Nat.pow_le_pow_right (by decide) fewShifts) (by positivity)
      _ = 2 ^ (115 + 1) := by norm_num
  exact isBounded_roundWithAccuracy sign .exact atMost fewBitsShifted

theorem exponentField_ofUInt64 (number : UInt64) : exponentField number.toFloat ≤ 1500 := by
  have bounded :
      IsBounded 231 (UnpackedFloat.normalize Format.binary64 number.toNat 0 .positive) := by
    rw [UnpackedFloat.normalize]
    split
    · rename_i less
      exact absurd (compare_lt_iff_lt.mp less) (by omega)
    · exact trivial
    · exact isBounded_round .positive (log2_le_of_lt number.toNat_lt)
  have field : exponentField number.toFloat ≤ 231 + 1075 := exponentField_pack bounded (by decide)
  omega

theorem isBounded_ofScientific {digits places : Nat} (fewBits : digits.log2 ≤ 130)
    (fewPlaces : places ≤ 20) :
    IsBounded 499 (ofScientific Format.binary64 digits (Int.negOfNat places)) := by
  have isExponent : Int.negOfNat places = -places := Int.negOfNat_eq
  rw [ofScientific, isExponent]
  split
  · exact trivial
  · split
    · rename_i overflows
      norm_num at overflows
      omega
    · split
      · exact trivial
      · split
        · have noPlaces : (-(places : Int)).toNat = 0 := by omega
          have fewBitsShifted :
              (digits <<< Format.binary64.mantissaBits * 10 ^ (-(places : Int)).toNat).log2 ≤
                249 := by
            rw [noPlaces, Nat.pow_zero, Nat.mul_one, Nat.shiftLeft_eq]
            refine log2_le_of_lt ((Nat.mul_lt_mul_of_pos_right (lt_of_log2_le fewBits)
              (Nat.two_pow_pos _)).trans ?_)
            decide
          exact isBounded_roundWithAccuracy _ .exact (by decide : (-53 + 0 : Int) ≤ (0 : Nat))
            fewBitsShifted
        · have fewBits' : (10 ^ (- -(places : Int)).toNat).log2 ≤ 66 := by
            rw [neg_neg, Int.toNat_natCast]
            have atMost := Nat.pow_le_pow_right (by decide : 0 < 10) fewPlaces
            exact log2_le_of_lt (atMost.trans_lt (by norm_num))
          exact isBounded_div fewBits fewBits' (le_refl 0)

theorem isFinite_powerOfTen : ∀ (places : Nat) (few : places < 23),
    1000 ≤ exponentField Float.exactlyRepresentablePowersOfTen[places] ∧
      exponentField Float.exactlyRepresentablePowersOfTen[places] < 0x7ff := by
  decide +kernel

/-- Decimals with few digits and few places are finite. -/
theorem isFinite_ofPlaces {digits places : Nat} (fewBits : digits.log2 ≤ 130)
    (fewPlaces : places ≤ 20) : IsFinite (ofPlaces digits places) := by
  rw [ofPlaces, Float.ofScientific]
  split
  · rename_i isFast
    obtain ⟨atLeast, finite⟩ := isFinite_powerOfTen places (by omega)
    exact isFinite_div (exponentField_ofUInt64 _) atLeast finite.ne
  · have field : exponentField (Float.ofModel (.ofScientific digits (Int.negOfNat places))) ≤
        499 + 1075 :=
      exponentField_pack (isBounded_ofScientific fewBits fewPlaces) (by decide)
    exact (field.trans_lt (by decide : 499 + 1075 < 0x7ff)).ne

end Mel.Floating

/-- A number with runs that a machine can count is finite. -/
theorem Mel.RealLiteral.isFinite_value {literal : RealLiteral} (whole : literal.whole < 2 ^ 64)
    (fraction : ∀ fraction ∈ literal.fraction, fraction < 2 ^ 64) :
    Floating.IsFinite literal.value := by
  have fewPlaces {fraction : Nat} (small : fraction < 2 ^ 64) :
      Floating.Decimal.length fraction ≤ 20 := by
    rw [Floating.Decimal.length]
    split
    · exact Nat.zero_le _
    · exact (Nat.length_toDigits_le_iff (by decide) (by decide)).mpr (small.trans (by decide))
  cases isFraction : literal.fraction with
  | none =>
      rw [value, isFraction]
      exact Floating.isFinite_ofPlaces (Floating.log2_le_of_lt (whole.trans (by decide)))
        (Nat.zero_le _)
  | some number =>
      have small := fraction number isFraction
      have atMost : Nat.pow 10 (Floating.Decimal.length number) ≤ 10 ^ 20 :=
        Nat.pow_le_pow_right (by decide) (fewPlaces small)
      rw [value, isFraction]
      refine Floating.isFinite_ofPlaces (Floating.log2_le_of_lt ?_) (fewPlaces small)
      calc literal.whole * Nat.pow 10 (Floating.Decimal.length number) + number
          < 2 ^ 64 * 10 ^ 20 + 2 ^ 64 :=
            Nat.add_lt_add_of_le_of_lt (Nat.mul_le_mul whole.le atMost) small
        _ ≤ 2 ^ (130 + 1) := by norm_num

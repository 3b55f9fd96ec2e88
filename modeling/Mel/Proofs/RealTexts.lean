import Mel.Floating.Text
import Mel.Proofs.Magnitudes

/-!
# Reals by their texts

What is written for a decimal is read as a decimal of the same value, in each of its layouts. So
the text of a finite real tells its magnitude, and with the sign in front the real itself.
-/

namespace Mel.Floating

def AreDigits (text : List Char) : Prop :=
  ∀ character ∈ text, character.isDigit

theorem areDigits_toDigits (number : Nat) : AreDigits (Nat.toDigits 10 number) :=
  fun _ member => Nat.isDigit_of_mem_toDigits (by decide) (by decide) member

theorem areDigits_zeros (count : Nat) : AreDigits (List.replicate count '0') := by
  intro character member
  rw [List.eq_of_mem_replicate member]
  decide

theorem AreDigits.append {text later : List Char} (areDigits : AreDigits text)
    (areDigitsLater : AreDigits later) : AreDigits (text ++ later) :=
  List.forall_mem_append.mpr ⟨areDigits, areDigitsLater⟩

theorem AreDigits.take {text : List Char} (areDigits : AreDigits text) (count : Nat) :
    AreDigits (text.take count) :=
  fun _ member => areDigits _ (List.mem_of_mem_take member)

theorem AreDigits.drop {text : List Char} (areDigits : AreDigits text) (count : Nat) :
    AreDigits (text.drop count) :=
  fun _ member => areDigits _ (List.mem_of_mem_drop member)

theorem digits?_eq {text : List Char} (areDigits : AreDigits text) :
    digits? text = some (Nat.ofDigitChars 10 text 0) := by
  rw [digits?, if_pos (List.all_eq_true.mpr areDigits)]
  rfl

/-- The characters of numbers without a fraction. -/
theorem mem_of_isDigit {character : Char} (isDigit : character.isDigit) :
    character ∈ "0123456789".toList := by
  obtain ⟨least, greatest⟩ := Char.isDigit_iff_toNat.mp isDigit
  have all : ∀ code < 58, 48 ≤ code → Char.ofNat code ∈ "0123456789".toList := by decide
  rw [← Char.ofNat_toNat character]
  exact all character.toNat (Nat.lt_succ_of_le greatest) least

theorem exponent?_digits {text : List Char} (areDigits : AreDigits text) (nonempty : text ≠ []) :
    exponent? text = some (Nat.ofDigitChars 10 text 0 : Int) := by
  have isDigits := digits?_eq areDigits
  unfold exponent?
  split
  · exact (nonempty rfl).elim
  · exact absurd (areDigits '-' List.mem_cons_self) (by decide)
  · exact absurd (areDigits '+' List.mem_cons_self) (by decide)
  · rw [isDigits]
    rfl

theorem exponent?_toString (exponent : Int) :
    exponent? (toString exponent).toList = some exponent := by
  have readNat (number : Nat) : exponent? number.repr.toList = some (number : Int) := by
    rw [Nat.toList_repr, exponent?_digits (areDigits_toDigits number) Nat.toDigits_ne_nil,
      Nat.ofDigitChars_ten_toDigits]
  cases exponent with
  | ofNat number => exact readNat number
  | negSucc number =>
      have isText : (toString (Int.negSucc number)).toList =
          '-' :: Nat.toDigits 10 (number + 1) := by
        rw [← Nat.toList_repr]
        exact String.toList_append
      have notEmpty : (Nat.toDigits 10 (number + 1)).isEmpty = false :=
        List.isEmpty_eq_false_iff.mpr Nat.toDigits_ne_nil
      rw [isText, exponent?, notEmpty, if_neg Bool.false_ne_true,
        digits?_eq (areDigits_toDigits _), Nat.ofDigitChars_ten_toDigits]
      rfl

/-- A fraction with the point in front of it, or nothing. -/
inductive Pointed : (fraction : List Char) → List Char → Prop where
  | nothing : Pointed [] []
  | point (fraction : List Char) : Pointed fraction ('.' :: fraction)

/-- An exponent with its mark, or nothing. -/
inductive Scaled : (exponent : Int) → List Char → Prop where
  | nothing : Scaled 0 []
  | mark (exponent : Int) : Scaled exponent ('e' :: (toString exponent).toList)

theorem span_append {keeps : Char → Bool} {text rest : List Char}
    (kept : ∀ character ∈ text, keeps character)
    (stops : ∀ character ∈ rest.head?, keeps character = false) :
    (text ++ rest).takeWhile keeps = text ∧ (text ++ rest).dropWhile keeps = rest := by
  rw [List.takeWhile_append_of_pos kept, List.dropWhile_append_of_pos kept]
  cases rest with
  | nil => exact ⟨List.append_nil text, rfl⟩
  | cons first rest =>
      have stopsHere : ¬keeps first := by simp [stops first rfl]
      rw [List.takeWhile_cons_of_neg stopsHere, List.dropWhile_cons_of_neg stopsHere]
      exact ⟨List.append_nil text, rfl⟩

theorem not_isExponentMark {character : Char} (isPart : character.isDigit ∨ character = '.') :
    (!(character == 'e' || character == 'E')) = true := by
  rw [Bool.not_eq_true', Bool.or_eq_false_iff, beq_eq_false_iff_ne, beq_eq_false_iff_ne]
  constructor <;> rintro rfl <;> exact absurd isPart (by decide)

/-- A decimal is read from its parts. -/
theorem decimal?_eq {whole fraction point scale : List Char} {exponent : Int}
    (areDigits : AreDigits whole) (areDigits' : AreDigits fraction) (nonempty : whole ≠ [])
    (pointed : Pointed fraction point) (scaled : Scaled exponent scale) :
    decimal? (whole ++ point ++ scale) =
      some ⟨Nat.ofDigitChars 10 (whole ++ fraction) 0, exponent - fraction.length⟩ := by
  have areParts : ∀ character ∈ whole ++ point, character.isDigit ∨ character = '.' := by
    refine List.forall_mem_append.mpr ⟨fun _ member => .inl (areDigits _ member), ?_⟩
    cases pointed with
    | nothing => exact List.forall_mem_nil _
    | point => exact List.forall_mem_cons.mpr ⟨.inr rfl, fun _ member => .inl (areDigits' _ member)⟩
  have notPoint : ∀ character ∈ whole, decide (character ≠ '.') = true := by
    intro character member
    rw [decide_eq_true_eq]
    rintro rfl
    exact absurd (areDigits '.' member) (by decide)
  have atScale : ∀ mark ∈ scale.head?, (!(mark == 'e' || mark == 'E')) = false := by
    intro mark isMark
    cases scaled with
    | nothing => cases isMark
    | mark =>
        cases isMark
        rfl
  have atPoint : ∀ mark ∈ point.head?, decide (mark ≠ '.') = false := by
    intro mark isMark
    cases pointed with
    | nothing => cases isMark
    | point =>
        cases isMark
        rfl
  have spanMantissa := span_append (fun _ member => not_isExponentMark (areParts _ member)) atScale
  have spanWhole := span_append notPoint atPoint
  have isFraction : point.drop 1 = fraction := by cases pointed <;> rfl
  have notEmpty : (whole.isEmpty && fraction.isEmpty) = false := by
    rw [List.isEmpty_eq_false_iff.mpr nonempty, Bool.false_and]
  rw [decimal?]
  simp only [spanMantissa, spanWhole, isFraction, notEmpty,
    digits?_eq (areDigits.append areDigits')]
  cases scaled with
  | nothing => rfl
  | mark exponent =>
      simp only [exponent?_toString]
      rfl

/-- A text in the parts that a decimal is read from, for a number. -/
inductive Layout (number : ℚ) : List Char → Prop where
  | parts {whole fraction point scale : List Char} {exponent : Int} (areDigits : AreDigits whole)
      (areDigits' : AreDigits fraction) (nonempty : whole ≠ []) (pointed : Pointed fraction point)
      (scaled : Scaled exponent scale) (marked : point ≠ [] ∨ scale ≠ [])
      (isValue : number = Decimal.value
        ⟨Nat.ofDigitChars 10 (whole ++ fraction) 0, exponent - fraction.length⟩) :
      Layout number (whole ++ point ++ scale)

theorem Layout.decimal? {number : ℚ} {text : List Char} (layout : Layout number text) :
    ∃ decimal, Floating.decimal? text = some decimal ∧ decimal.value = number := by
  cases layout with
  | parts areDigits areDigits' nonempty pointed scaled _ isValue =>
      exact ⟨_, decimal?_eq areDigits areDigits' nonempty pointed scaled, isValue.symm⟩

/-- A text is laid out for one number only. -/
theorem Layout.unique {number number' : ℚ} {text : List Char} (layout : Layout number text)
    (layout' : Layout number' text) : number = number' := by
  obtain ⟨decimal, read, isNumber⟩ := layout.decimal?
  obtain ⟨decimal', read', isNumber'⟩ := layout'.decimal?
  rw [← isNumber, ← isNumber', Option.some.inj (read.symm.trans read')]

theorem layout_zero : Layout 0 "0.0".toList := by
  have isDigit : AreDigits ['0'] := areDigits_zeros 1
  refine .parts isDigit isDigit (List.cons_ne_nil _ _) (.point ['0']) .nothing (.inl ?_) ?_
  · exact List.cons_ne_nil _ _
  · rw [Decimal.value]
    exact (zero_mul _).symm

theorem Layout.exists_digit {number : ℚ} {text : List Char} (layout : Layout number text) :
    ∃ digit later, text = digit :: later ∧ digit ∈ "0123456789".toList := by
  cases layout with
  | @parts whole _ point scale _ areDigits _ nonempty _ _ _ _ =>
      obtain ⟨digit, digits, rfl⟩ := List.exists_cons_of_ne_nil nonempty
      exact ⟨digit, digits ++ point ++ scale, rfl,
        mem_of_isDigit (areDigits digit List.mem_cons_self)⟩

theorem Layout.exists_mark {number : ℚ} {text : List Char} (layout : Layout number text) :
    ∃ mark ∈ text, mark = '.' ∨ mark = 'e' := by
  cases layout with
  | parts _ _ _ pointed scaled marked _ =>
      cases pointed with
      | point fraction => exact ⟨'.', by simp, .inl rfl⟩
      | nothing =>
          cases scaled with
          | mark exponent => exact ⟨'e', by simp, .inr rfl⟩
          | nothing => exact (marked.elim (· rfl) (· rfl)).elim

theorem isDigit_or_eq_minus {exponent : Int} {character : Char}
    (member : character ∈ (toString exponent).toList) :
    character.isDigit ∨ character = '-' := by
  cases exponent with
  | ofNat number =>
      have isDigit : character ∈ number.repr.toList := member
      rw [Nat.toList_repr] at isDigit
      exact .inl (areDigits_toDigits number _ isDigit)
  | negSucc number =>
      have isPart : character ∈ ("-" ++ (number + 1).repr).toList := member
      rw [String.toList_append, Nat.toList_repr] at isPart
      rcases List.mem_append.mp isPart with isSign | isDigit
      · exact .inr (List.mem_singleton.mp isSign)
      · exact .inl (areDigits_toDigits (number + 1) _ isDigit)

theorem Layout.plain {number : ℚ} {text : List Char} (layout : Layout number text) :
    ∀ character ∈ text, character ∈ "0123456789-.e".toList := by
  have plainDigit (character : Char) (isDigit : character.isDigit) :
      character ∈ "0123456789-.e".toList :=
    List.mem_append_left ['-', '.', 'e'] (mem_of_isDigit isDigit)
  cases layout with
  | parts areDigits areDigits' _ pointed scaled _ _ =>
      refine List.forall_mem_append.mpr ⟨List.forall_mem_append.mpr ⟨?_, ?_⟩, ?_⟩
      · exact fun _ member => plainDigit _ (areDigits _ member)
      · cases pointed with
        | nothing => exact List.forall_mem_nil _
        | point =>
            refine List.forall_mem_cons.mpr ⟨by decide, ?_⟩
            exact fun _ member => plainDigit _ (areDigits' _ member)
      · cases scaled with
        | nothing => exact List.forall_mem_nil _
        | mark exponent =>
            refine List.forall_mem_cons.mpr ⟨by decide, fun character member => ?_⟩
            rcases isDigit_or_eq_minus member with isDigit | rfl
            · exact plainDigit _ isDigit
            · decide

namespace Decimal

section

variable {digits : List Char} {exponent : Int} {count : Nat}

/-- One digit in front of the point, and an exponent. -/
theorem layout_exponent (areDigits : AreDigits digits) (nonempty : digits ≠ [])
    {point : List Char} (pointed : Pointed (digits.drop 1) point) (exponent : Int) :
    Layout (value ⟨Nat.ofDigitChars 10 digits 0, exponent⟩)
      (digits.take 1 ++ point ++ 'e' :: (toString (digits.length + exponent - 1)).toList) := by
  have someDigits := List.length_pos_iff.mpr nonempty
  have leading : digits.take 1 ≠ [] :=
    mt List.take_eq_nil_iff.mp (not_or.mpr ⟨Nat.one_ne_zero, nonempty⟩)
  refine .parts (areDigits.take 1) (areDigits.drop 1) leading pointed (.mark _)
    (.inr (List.cons_ne_nil _ _)) ?_
  rw [List.take_append_drop, List.length_drop]
  congr 2
  omega

/-- Zeros between the point and the digits. -/
theorem layout_leadingZeros (areDigits : AreDigits digits)
    (isCount : (count : Int) = -(digits.length + exponent)) :
    Layout (value ⟨Nat.ofDigitChars 10 digits 0, exponent⟩)
      (['0'] ++ '.' :: (List.replicate count '0' ++ digits) ++ []) := by
  have isNumber : Nat.ofDigitChars 10 (['0'] ++ (List.replicate count '0' ++ digits)) 0 =
      Nat.ofDigitChars 10 digits 0 := by
    rw [← List.append_assoc, Nat.ofDigitChars_append, Nat.ofDigitChars_append,
      Nat.ofDigitChars_replicate_zero]
    rfl
  have isDigit : AreDigits ['0'] := areDigits_zeros 1
  refine .parts isDigit ((areDigits_zeros count).append areDigits) (List.cons_ne_nil _ _)
    (.point _) .nothing (.inl (List.cons_ne_nil _ _)) ?_
  rw [isNumber, List.length_append, List.length_replicate]
  congr 2
  omega

/-- The point among the digits. -/
theorem layout_pointAmong (areDigits : AreDigits digits) (nonempty : digits ≠ [])
    (positive : 0 < count) (isCount : (count : Int) = digits.length + exponent)
    (among : count ≤ digits.length) :
    Layout (value ⟨Nat.ofDigitChars 10 digits 0, exponent⟩)
      (digits.take count ++ '.' :: digits.drop count ++ []) := by
  have leading : digits.take count ≠ [] :=
    mt List.take_eq_nil_iff.mp (not_or.mpr ⟨positive.ne', nonempty⟩)
  refine .parts (areDigits.take count) (areDigits.drop count) leading (.point _) .nothing
    (.inl (List.cons_ne_nil _ _)) ?_
  rw [List.take_append_drop, List.length_drop]
  congr 2
  omega

/-- Zeros between the digits and the point. -/
theorem layout_trailingZeros (areDigits : AreDigits digits) (nonempty : digits ≠ [])
    (count : Nat) :
    Layout (value ⟨Nat.ofDigitChars 10 digits 0, count⟩)
      (digits ++ List.replicate count '0' ++ ['.', '0'] ++ []) := by
  have isNumber : Nat.ofDigitChars 10 (digits ++ List.replicate count '0' ++ ['0']) 0 =
      10 * (10 ^ count * Nat.ofDigitChars 10 digits 0) := by
    rw [Nat.ofDigitChars_append, Nat.ofDigitChars_append, Nat.ofDigitChars_replicate_zero]
    exact Nat.ofDigitChars_replicate_zero (n := 1)
  have isDigit : AreDigits ['0'] := areDigits_zeros 1
  have leading : digits ++ List.replicate count '0' ≠ [] :=
    List.append_ne_nil_of_left_ne_nil nonempty _
  refine .parts (areDigits.append (areDigits_zeros count)) isDigit leading (.point _) .nothing
    (.inl (List.cons_ne_nil _ _)) ?_
  rw [isNumber, value, value]
  push_cast
  norm_num
  ring

end

/-- What is written for a decimal is laid out for its value. -/
theorem layout_text (decimal : Decimal) : Layout decimal.value decimal.text.toList := by
  obtain ⟨number, exponent⟩ := decimal
  have areDigits := areDigits_toDigits number
  have nonempty := Nat.toDigits_ne_nil (b := 10) (n := number)
  have isNumber := Nat.ofDigitChars_ten_toDigits (n := number)
  unfold text
  simp only [Nat.toString_eq_ofList_toDigits, String.length_ofList, String.toList_ofList]
  generalize Nat.toDigits 10 number = digits at areDigits nonempty isNumber ⊢
  subst isNumber
  have someDigits := List.length_pos_iff.mpr nonempty
  -- The four layouts that the writing chooses among, in its order.
  split
  · have pointed : Pointed (digits.drop 1)
        (if (digits.drop 1).isEmpty then [] else '.' :: digits.drop 1) := by
      cases digits.drop 1 with
      | nil => exact .nothing
      | cons digit fraction => exact .point _
    have layout := layout_exponent areDigits nonempty pointed exponent
    split <;> simp_all
  · split
    · have isCount : ((-((digits.length : Int) + exponent)).toNat : Int) =
          -(digits.length + exponent) := by
        omega
      simpa [zeros] using layout_leadingZeros areDigits isCount
    · split
      · have isCount : (((digits.length : Int) + exponent).toNat : Int) =
            digits.length + exponent := by
          omega
        simpa using layout_pointAmong areDigits nonempty (by omega) isCount (by omega)
      · have isExponent :
            exponent = (((digits.length : Int) + exponent - digits.length).toNat : Int) := by
          omega
        generalize ((digits.length : Int) + exponent - digits.length).toNat = count
          at isExponent ⊢
        subst isExponent
        simpa [zeros] using layout_trailingZeros areDigits nonempty count

end Decimal

/-- What is written for a magnitude. -/
def magnitudeText : (units : Nat) → String
  | 0 => "0.0"
  | units + 1 => (Decimal.shortest (units + 1)).text

/-- The sign that is written in front of a real. -/
def signText (real : Float) : String :=
  if isNegative real then "-" else ""

theorem text_eq {real : Float} (finite : IsFinite real) :
    text real = signText real ++ magnitudeText (magnitude real) := by
  have notInfinite : isInfinite real = false := by
    rw [isInfinite, beq_eq_false_iff_ne.mpr finite, Bool.false_and]
  rw [text, isNaN_of_isFinite finite, notInfinite]
  cases magnitude real <;> rfl

theorem layout_magnitudeText (units : Nat) :
    ∃ number, Layout number (magnitudeText units).toList := by
  cases units with
  | zero => exact ⟨0, layout_zero⟩
  | succ units => exact ⟨_, Decimal.layout_text _⟩

/-- How the texts of finite reals look. -/
structure IsRealWord (word : String) : Prop where
  first : ∃ first later, word.toList = first :: later ∧ first ∈ "0123456789-".toList
  marked : ∃ mark ∈ word.toList, mark = '.' ∨ mark = 'e'
  plain : ∀ character ∈ word.toList, character ∈ "0123456789-.e".toList

theorem isRealWord_text {real : Float} (finite : IsFinite real) : IsRealWord (text real) := by
  obtain ⟨number, layout⟩ := layout_magnitudeText (magnitude real)
  rw [text_eq finite, signText]
  split
  · obtain ⟨mark, member, isMark⟩ := layout.exists_mark
    refine ⟨⟨'-', (magnitudeText (magnitude real)).toList, String.toList_append, by decide⟩,
      ⟨mark, ?_, isMark⟩, ?_⟩
    · rw [String.toList_append]
      exact List.mem_append_right _ member
    · rw [String.toList_append]
      exact List.forall_mem_cons.mpr ⟨by decide, layout.plain⟩
  · rw [String.empty_append]
    obtain ⟨digit, later, isText, isDigit⟩ := layout.exists_digit
    exact ⟨⟨digit, later, isText, List.mem_append_left ['-'] isDigit⟩, layout.exists_mark,
      layout.plain⟩

theorem magnitudeText_injective {units units' : Nat} (isMagnitude : IsMagnitude units)
    (isMagnitude' : IsMagnitude units') (same : magnitudeText units = magnitudeText units') :
    units = units' := by
  have notZero (units : Nat) : magnitudeText (units + 1) ≠ magnitudeText 0 := by
    intro isZero
    have layout := Decimal.layout_text (Decimal.shortest (units + 1))
    have layoutZero := layout_zero
    rw [show "0.0" = (Decimal.shortest (units + 1)).text from isZero.symm] at layoutZero
    have positive := Decimal.value_pos_of_readsBack (Nat.succ_pos units)
      (Decimal.readsBack_shortest (Nat.succ_pos units))
    exact positive.ne' (layout.unique layoutZero)
  cases units with
  | zero =>
      cases units' with
      | zero => rfl
      | succ units' => exact (notZero units' same.symm).elim
  | succ units =>
      cases units' with
      | zero => exact (notZero units same).elim
      | succ units' =>
          have layout := Decimal.layout_text (Decimal.shortest (units + 1))
          have layout' := Decimal.layout_text (Decimal.shortest (units' + 1))
          rw [show (Decimal.shortest (units + 1)).text = (Decimal.shortest (units' + 1)).text
            from same] at layout
          have reads := Decimal.readsBack_of_value_eq (layout.unique layout')
            (Decimal.readsBack_shortest (Nat.succ_pos units))
          exact Decimal.readsBack_injective isMagnitude isMagnitude' reads
            (Decimal.readsBack_shortest (Nat.succ_pos units'))

/-- The text of a real begins with the sign, and goes on with a digit. -/
theorem head?_text {real : Float} (finite : IsFinite real) :
    (text real).toList.head? = some '-' ↔ isNegative real := by
  obtain ⟨number, layout⟩ := layout_magnitudeText (magnitude real)
  obtain ⟨digit, later, isText, isDigit⟩ := layout.exists_digit
  rw [text_eq finite, signText, String.toList_append, isText]
  split
  · rename_i negative
    exact ⟨fun _ => negative, fun _ => rfl⟩
  · rename_i notNegative
    refine ⟨fun isMinus => ?_, fun negative => (notNegative negative).elim⟩
    have noDigit : digit ≠ '-' := by
      rintro rfl
      exact absurd isDigit (by decide)
    exact (noDigit (Option.some.inj isMinus)).elim

/-- A finite real is told by its text. -/
theorem text_injective {real real' : Float} (finite : IsFinite real) (finite' : IsFinite real')
    (same : text real = text real') : real = real' := by
  have sameSign : isNegative real = isNegative real' := by
    rw [Bool.eq_iff_iff, ← head?_text finite, ← head?_text finite', same]
  refine eq_of_magnitude sameSign (magnitudeText_injective (isMagnitude_magnitude real)
    (isMagnitude_magnitude real') ?_)
  rw [text_eq finite, text_eq finite', signText, sameSign, signText] at same
  exact String.append_right_inj _ |>.mp same

end Mel.Floating

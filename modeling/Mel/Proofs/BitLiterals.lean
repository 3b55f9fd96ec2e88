import Mathlib.Data.Nat.Digits.Lemmas
import Mel.Proofs.Policies
import Mel.Proofs.Reading
import Mel.Run

/-!
# Bit literals

A literal of bits is written as a mark and then a sentinel for each bit, with a semicolon or blanks
between sentinels and perhaps a semicolon behind the last. Such a source is followed here through
lexing, reading and evaluation, for any number of bits: it is worth the integer that the bits denote
if that fits beside the sign.

Runs of dollars are cut off at the first other character, so sentinels need something between them.
The mark is two semicolons, and a third one does not make the end of a program of them as long as no
more than blanks follow it.
-/

namespace Mel

open Text (isBlank)
open Pattern (IsGap)

/-- What stands between two sentinels: blanks, or a semicolon that may have blanks around it. -/
inductive Separator where
  | blanks (gap : Gap)
  | semicolon (front back : List Char) (blankFront : IsGap front) (blankBack : IsGap back)

namespace Separator

def text : Separator → List Char
  | blanks gap => gap.text
  | semicolon front back _ _ => front ++ ';' :: back

/-- A separator begins with a blank or a semicolon. -/
theorem exists_cons (separator : Separator) :
    ∃ first later, separator.text = first :: later ∧ (isBlank first ∨ first = ';') := by
  cases separator with
  | blanks gap =>
      rcases gap with ⟨_ | ⟨first, later⟩, nonempty, blank⟩
      · exact (nonempty rfl).elim
      · exact ⟨first, later, rfl, .inl (blank first List.mem_cons_self)⟩
  | semicolon front back blankFront _ =>
      cases front with
      | nil => exact ⟨';', back, rfl, .inr rfl⟩
      | cons first front =>
          exact ⟨first, front ++ ';' :: back, rfl, .inl (blankFront first List.mem_cons_self)⟩

theorem head?_ne_dollar (separator : Separator) (rest : List Char) :
    (separator.text ++ rest).head? ≠ some '$' := by
  obtain ⟨first, later, isText, begins⟩ := separator.exists_cons
  rw [isText, List.cons_append, List.head?_cons, Ne, Option.some.injEq]
  rintro rfl
  revert begins
  decide

end Separator

/-- The sentinel for a bit. -/
def Sentinel.ofBit (digit : Bool) : Sentinel :=
  if digit then .bitOne else .bitZero

/-- The dollars that a bit is written with. -/
def dollarsOf (digit : Bool) : List Char :=
  List.replicate (Sentinel.ofBit digit).dollars '$'

/-- Bits with separators between them, the first of them the separator `0`. -/
def separated (separator : Nat → Separator) : (digits : List Bool) → List Char
  | [] => []
  | [digit] => dollarsOf digit
  | digit :: next :: later =>
      dollarsOf digit ++ (separator 0).text
        ++ separated (fun index => separator (index + 1)) (next :: later)

/-- What may stand behind the last bit. -/
def closingText (closing : Option Separator) : List Char :=
  closing.elim [] Separator.text

/-- A literal of bits as a source. -/
def bitsSource (separator : Nat → Separator) (closing : Option Separator) (digits : List Bool) :
    String :=
  ";;" ++ String.ofList (separated separator digits ++ closingText closing)

namespace Rule

/-- Sentinels are tried from the longest to the shortest, behind the operators on integers. -/
theorem rulesFor_dollar : rulesFor '$' =
    ([.lessEqual, .greaterEqual, .notEqual, .add, .sub, .mul, .div, .factorial, .sqrt, .mod, .pow,
      .less, .equal, .greater].map (operator .integer)) ++
    (([.bitOne, .bitZero, .zero, .empty, .nil, .yes, .no].map fun constant : Sentinel =>
      token (.sentinel constant) (String.ofList (List.replicate constant.dollars '$'))) ++
    [⟨.unknown, .anyCharacter⟩]) := by
  decide

theorem ne_of_head?_cons {wanted next : Char} {rest : List Char}
    (ends : (next :: rest).head? ≠ some wanted) : wanted ≠ next :=
  fun same => ends (congrArg some same.symm)

theorem afterLead?_replicate {rest : List Char} (ends : rest.head? ≠ some '$')
    (wanted given : Nat) :
    Pattern.afterLead? (List.replicate wanted '$') (List.replicate given '$' ++ rest) =
      if wanted ≤ given then some (List.replicate (given - wanted) '$' ++ rest) else none := by
  induction wanted generalizing given with
  | zero => simp [Pattern.afterLead?]
  | succ wanted ih =>
      cases given with
      | zero =>
          cases rest with
          | nil => rfl
          | cons next rest =>
              simp [List.replicate_succ, Pattern.afterLead?, ne_of_head?_cons ends]
      | succ given => simp [List.replicate_succ, Pattern.afterLead?, ih]

/-- A run of dollars is the sentinel with as many. -/
theorem firstMatch?_sentinel (constant : Sentinel) {rest : List Char}
    (ends : rest.head? ≠ some '$') :
    firstMatch? (List.replicate constant.dollars '$' ++ rest) =
      some (.emit (.sentinel constant), constant.dollars) := by
  obtain ⟨more, isText⟩ : ∃ more,
      List.replicate constant.dollars '$' ++ rest = '$' :: '$' :: more := by
    cases constant <;> exact ⟨_, rfl⟩
  have noOperator : ∀ operation,
      (operator .integer operation).pattern.matchLength? ('$' :: '$' :: more) = none := by
    intro operation
    cases operation <;> rfl
  have fromLongest (other : Sentinel) :
      Pattern.matchLength? (.exact (String.ofList (List.replicate other.dollars '$')))
        (List.replicate constant.dollars '$' ++ rest) =
          if other.dollars ≤ constant.dollars then some other.dollars else none := by
    rw [Pattern.matchLength?, String.toList_ofList, afterLead?_replicate ends,
      List.length_replicate]
    split <;> rfl
  rw [isText, firstMatch?_cons, rulesFor_dollar, List.findSome?_append, List.findSome?_append,
    List.findSome?_map, List.findSome?_map, ← isText]
  simp only [Function.comp_def, token, fromLongest]
  rw [isText]
  simp only [noOperator]
  cases constant <;> rfl

theorem firstMatch?_semicolon {rest : List Char} (ends : rest.head? ≠ some ';') :
    firstMatch? (';' :: rest) = some (.emit .semicolon, 1) := by
  rw [firstMatch?_cons, rulesFor_semicolon]
  cases rest with
  | nil => rfl
  | cons next rest =>
      simp [token, Pattern.matchLength?, Pattern.markerLength?, Pattern.afterLead?,
        ne_of_head?_cons ends]

/-- Two semicolons are the mark of bits, unless a third one begins the end of a program. -/
theorem firstMatch?_bitsMark {rest : List Char}
    (noMarker : ∀ later, rest = ';' :: later → IsGap later) :
    firstMatch? (';' :: ';' :: rest) = some (.emit .bitsMark, 2) := by
  have missed : Pattern.markerLength? ";;;".toList "end".toList (';' :: ';' :: rest) = none := by
    cases rest with
    | nil => rfl
    | cons next later =>
        by_cases isSemicolon : next = ';'
        · subst isSemicolon
          have nothing : later.dropWhile isBlank = [] := by
            rw [List.dropWhile_eq_nil_iff]
            exact noMarker later rfl
          simp [Pattern.markerLength?, Pattern.afterLead?, nothing]
        · simp [Pattern.markerLength?, Pattern.afterLead?, Ne.symm isSemicolon]
  rw [firstMatch?_cons, rulesFor_semicolon, List.findSome?_cons, Pattern.matchLength?, missed]
  rfl

end Rule

/-- The tokens of a separator: a semicolon or nothing. -/
def AreMarks (marks : List Token) : Prop :=
  marks = [] ∨ ∃ token, marks = [token] ∧ token.kind = .semicolon

theorem Separator.exists_shown (separator : Separator) (position : Position) {rest : List Char}
    (ends : rest.head? ≠ some ';') :
    ∃ marks, AreMarks marks ∧
      shown position (separator.text ++ rest) =
        marks.map Token.lexeme ++ shown (position.after separator.text) rest := by
  cases separator with
  | blanks gap => exact ⟨[], .inl rfl, shown_gap gap.blank position rest⟩
  | semicolon front back blankFront blankBack =>
      have ends : (back ++ rest).head? ≠ some ';' := by
        cases back with
        | nil => exact ends
        | cons next back =>
            rw [List.cons_append, List.head?_cons, Ne, Option.some.injEq]
            rintro rfl
            exact absurd (blankBack ';' List.mem_cons_self) (by decide)
      have isMark := @shown_token (position.after front) _ _ _ (List.cons_ne_nil ';' [])
        (Rule.firstMatch?_semicolon ends)
      refine ⟨[⟨.semicolon, ";", position.after front⟩], .inr ⟨_, rfl, rfl⟩, ?_⟩
      rw [text, List.append_assoc, shown_gap blankFront, Position.after_append, Position.after_cons,
        ← shown_gap blankBack]
      exact isMark

theorem exists_shown_closing (closing : Option Separator) (position : Position) :
    ∃ marks, AreMarks marks ∧ shown position (closingText closing) = marks.map Token.lexeme := by
  cases closing with
  | none => exact ⟨[], .inl rfl, shown_nil position⟩
  | some separator =>
      obtain ⟨marks, areMarks, isShown⟩ := @separator.exists_shown position [] (by simp)
      rw [List.append_nil, shown_nil, List.append_nil] at isShown
      exact ⟨marks, areMarks, isShown⟩

def bitToken (digit : Bool) (position : Position) : Token :=
  ⟨.sentinel (.ofBit digit), String.ofList (dollarsOf digit), position⟩

theorem shown_bit (digit : Bool) (position : Position) {rest : List Char}
    (ends : rest.head? ≠ some '$') :
    shown position (dollarsOf digit ++ rest) =
      (bitToken digit position).lexeme :: shown (position.after (dollarsOf digit)) rest := by
  have nonempty : dollarsOf digit ≠ [] := by cases digit <;> exact List.cons_ne_nil _ _
  have matched : Rule.firstMatch? (dollarsOf digit ++ rest) =
      some (.emit (.sentinel (.ofBit digit)), (dollarsOf digit).length) := by
    rw [dollarsOf, List.length_replicate]
    exact Rule.firstMatch?_sentinel _ ends
  exact shown_token nonempty matched

theorem head?_separated (separator : Nat → Separator) (digit : Bool) (later : List Bool)
    (rest : List Char) : (separated separator (digit :: later) ++ rest).head? = some '$' := by
  cases later <;> cases digit <;> rfl

namespace Parser

theorem bits_semicolon {token : Token} (isSemicolon : token.kind = .semicolon)
    (tokens : List Token) : bits true (token :: tokens) = bits false tokens := by
  simp [bits, isSemicolon]

theorem bits_marks {marks : List Token} (areMarks : AreMarks marks) (afterBit : Bool) :
    ∃ rest, bits afterBit marks = ([], rest) ∧ Breaks rest := by
  rcases areMarks with rfl | ⟨token, rfl, isSemicolon⟩
  · exact ⟨[], rfl, rfl, rfl⟩
  · cases afterBit with
    | true => exact ⟨[], bits_semicolon isSemicolon [], rfl, rfl⟩
    | false =>
        refine ⟨[token], by simp [bits, isSemicolon], ?_, ?_⟩
        · simp [startsWithOperator, isSemicolon]
        · simp [startsWith, isSemicolon]

/-- Behind a bit, the marks of a separator are passed over. -/
theorem bits_marks_append {marks : List Token} (areMarks : AreMarks marks) (tokens : List Token) :
    ∃ afterBit, bits true (marks ++ tokens) = bits afterBit tokens := by
  rcases areMarks with rfl | ⟨token, rfl, isSemicolon⟩
  · exact ⟨true, rfl⟩
  · exact ⟨false, bits_semicolon isSemicolon tokens⟩

theorem bits_cons {digit : Bool} {token : Token} (isBit : token.kind = .sentinel (.ofBit digit))
    (afterBit : Bool) {tokens rest : List Token} {digits : List Bool}
    (behind : bits true tokens = (digits, rest)) :
    bits afterBit (token :: tokens) = (digit :: digits, rest) := by
  cases digit <;> simp [bits, isBit, Sentinel.ofBit, behind]

end Parser

/-- The tokens of a literal behind its mark are read as its bits. -/
theorem exists_tokens_of_bits (separator : Nat → Separator) (closing : Option Separator)
    (digits : List Bool) (position : Position) :
    ∃ tokens : List Token,
      shown position (separated separator digits ++ closingText closing) =
        tokens.map Token.lexeme ∧
      ∀ afterBit, ∃ rest,
        Parser.bits afterBit tokens = (digits, rest) ∧ Parser.Breaks rest := by
  induction digits generalizing separator position with
  | nil =>
      obtain ⟨marks, areMarks, isShown⟩ := exists_shown_closing closing position
      exact ⟨marks, isShown, Parser.bits_marks areMarks⟩
  | cons digit later ih =>
      cases later with
      | nil =>
          obtain ⟨marks, areMarks, isShown⟩ :=
            exists_shown_closing closing (position.after (dollarsOf digit))
          have ends : (closingText closing).head? ≠ some '$' := by
            cases closing with
            | none => simp [closingText]
            | some separator => simpa [closingText] using separator.head?_ne_dollar []
          refine ⟨bitToken digit position :: marks, ?_, fun afterBit => ?_⟩
          · rw [separated, shown_bit digit position ends, isShown, List.map_cons]
          · obtain ⟨rest, isRead, breaks⟩ := Parser.bits_marks areMarks true
            exact ⟨rest, Parser.bits_cons rfl afterBit isRead, breaks⟩
      | cons next later =>
          have startsBit := head?_separated (fun index => separator (index + 1)) next later
            (closingText closing)
          obtain ⟨marks, areMarks, isShownMarks⟩ := (separator 0).exists_shown
            (position.after (dollarsOf digit)) (by rw [startsBit]; decide)
          obtain ⟨tokens, isShown, isRead⟩ := ih (fun index => separator (index + 1))
            ((position.after (dollarsOf digit)).after (separator 0).text)
          refine ⟨bitToken digit position :: (marks ++ tokens), ?_, fun afterBit => ?_⟩
          · rw [separated, List.append_assoc, List.append_assoc,
              shown_bit digit position ((separator 0).head?_ne_dollar _), isShownMarks, isShown,
              List.map_cons, List.map_append]
          · obtain ⟨inner, isInner⟩ := Parser.bits_marks_append areMarks tokens
            obtain ⟨rest, isTail, breaks⟩ := isRead inner
            exact ⟨rest, Parser.bits_cons rfl afterBit (isInner.trans isTail), breaks⟩

/-- The first two semicolons of a literal do not begin the end of a program. -/
theorem noMarker_of_bits (separator : Nat → Separator) (closing : Option Separator)
    (digits : List Bool) (later : List Char)
    (isText : separated separator digits ++ closingText closing = ';' :: later) : IsGap later := by
  cases digits with
  | cons digit digits =>
      have startsBit := head?_separated separator digit digits (closingText closing)
      rw [isText] at startsBit
      cases startsBit
  | nil =>
      rcases closing with _ | ⟨gap⟩ | ⟨front, back, blankFront, blankBack⟩
      · cases isText
      · have isGap : gap.text = ';' :: later := isText
        have blank := gap.blank ';' (by rw [isGap]; exact List.mem_cons_self)
        exact absurd blank (by decide)
      · have isMark : front ++ ';' :: back = ';' :: later := isText
        cases front with
        | nil =>
            cases isMark
            exact blankBack
        | cons first front =>
            obtain ⟨rfl, -⟩ := List.cons.inj isMark
            exact absurd (blankFront ';' List.mem_cons_self) (by decide)

/-- A literal is read as its bits, under both policies. -/
theorem readExpression_bitsSource (policy : Policy) (separator : Nat → Separator)
    (closing : Option Separator) (digits : List Bool) :
    readExpression policy (bitsSource separator closing digits) = .ok (.bits digits) := by
  have isMark : Rule.firstMatch?
      ([';', ';'] ++ (separated separator digits ++ closingText closing)) =
        some (.emit .bitsMark, 2) :=
    Rule.firstMatch?_bitsMark (noMarker_of_bits separator closing digits)
  obtain ⟨tokens, isShown, isRead⟩ := exists_tokens_of_bits separator closing digits
    (Position.start.after [';', ';'])
  obtain ⟨rest, isBits, breaks⟩ := isRead false
  have isShownSource : shown .start (bitsSource separator closing digits).toList =
      (⟨.bitsMark, ";;", .start⟩ :: tokens : List Token).map Token.lexeme := by
    have isText : (bitsSource separator closing digits).toList =
        [';', ';'] ++ (separated separator digits ++ closingText closing) := by
      rw [bitsSource, String.toList_append, @String.toList_ofList (_ ++ _)]
      rfl
    rw [isText, List.map_cons, ← isShown]
    exact shown_token (List.cons_ne_nil _ _) isMark
  have isExpression : Parser.expression (tokens.length + 2) (⟨.bitsMark, ";;", .start⟩ :: tokens) =
      .ok (.bits digits, rest) := by
    refine Parser.expression_of_primary ?_ Kind.noConfusion breaks
    rw [Parser.primary, isBits]
  rw [readExpression, readSource, tokenize_of_shown isShownSource]
  simp only [parseExpression, Parser.run, Parser.enoughFuel, List.length_cons]
  rw [isExpression]
  rfl

/-- The number that bits denote in base two, the most significant one first. -/
def binaryNumber (digits : List Bool) : Nat :=
  Nat.ofDigits 2 (digits.reverse.map Bool.toNat)

/-- The bits from the first one that is set. -/
def significantBits (digits : List Bool) : List Bool :=
  digits.dropWhile (!·)

theorem bitsNumber_eq (digits : List Bool) : Value.bitsNumber digits = binaryNumber digits := by
  rw [Value.bitsNumber, binaryNumber, Nat.ofDigits_eq_foldr, List.foldr_map,
    List.foldl_eq_foldr_reverse]
  simp only [Nat.cast_id, Nat.add_comm]

theorem binaryNumber_cons (digit : Bool) (digits : List Bool) :
    binaryNumber (digit :: digits) = binaryNumber digits + 2 ^ digits.length * digit.toNat := by
  simp only [binaryNumber, List.reverse_cons, List.map_append, Nat.ofDigits_append, List.length_map,
    List.length_reverse, List.map_singleton, Nat.ofDigits_singleton]

theorem binaryNumber_lt (digits : List Bool) : binaryNumber digits < 2 ^ digits.length := by
  induction digits with
  | nil => exact Nat.one_pos
  | cons digit digits ih =>
      rw [binaryNumber_cons, List.length_cons, Nat.pow_succ]
      cases digit <;> simp only [Bool.toNat_false, Bool.toNat_true] <;> omega

/-- A number has as many bits as there are significant ones. -/
theorem binaryNumber_lt_iff (digits : List Bool) (count : Nat) :
    binaryNumber digits < 2 ^ count ↔ (significantBits digits).length ≤ count := by
  induction digits with
  | nil => exact iff_of_true (Nat.two_pow_pos count) (Nat.zero_le count)
  | cons digit digits ih =>
      cases digit with
      | false =>
          rw [binaryNumber_cons, Bool.toNat_false, Nat.mul_zero, Nat.add_zero, ih]
          rfl
      | true =>
          have isWhole : significantBits (true :: digits) = true :: digits := rfl
          rw [binaryNumber_cons, Bool.toNat_true, Nat.mul_one, isWhole, List.length_cons]
          constructor
          · intro less
            exact (Nat.pow_lt_pow_iff_right (by decide : 1 < 2)).mp (by omega)
          · intro short
            have atMost : 2 ^ (digits.length + 1) ≤ 2 ^ count :=
              Nat.pow_le_pow_right (by decide) short
            have less := binaryNumber_lt digits
            rw [Nat.pow_succ] at atMost
            omega

theorem ofBits_of_fits {digits : List Bool} (fits : binaryNumber digits < 2 ^ 63) :
    Value.ofBits digits = .ok (.integer (.ofNat (binaryNumber digits))) := by
  rw [Value.ofBits, bitsNumber_eq]
  exact if_pos fits

theorem ofBits_of_large {digits : List Bool} (large : ¬binaryNumber digits < 2 ^ 63) :
    Value.ofBits digits = .error .literalTooWide := by
  rw [Value.ofBits, bitsNumber_eq]
  exact if_neg large

theorem evaluate_bitsSource (options : Options) (fuel : Nat) (machine : Machine)
    (separator : Nat → Separator) (closing : Option Separator) (digits : List Bool) :
    machine.evaluate options (fuel + 1) (bitsSource separator closing digits) =
      ((Value.ofBits digits).mapError .runtime, machine) := by
  rw [Machine.evaluate, readExpression_bitsSource]
  change machine.perform (Exec.ofExcept (Value.ofBits digits)) = _
  cases Value.ofBits digits <;> rfl

/-- A literal of bits is found, read and evaluated, on every machine and with any separators. It is
worth the number that its bits denote if that is below `2 ^ 63`, and it is refused if and only if
more than 63 of its bits are significant. The machine is left as it was. -/
theorem bit_literals_denote_their_bits (options : Options) (fuel : Nat) (machine : Machine)
    (separator : Nat → Separator) (closing : Option Separator) (digits : List Bool) :
    (tokenize options.policy (bitsSource separator closing digits)).failure = none ∧
    readExpression options.policy (bitsSource separator closing digits) = .ok (.bits digits) ∧
    (binaryNumber digits < 2 ^ 63 → ∃ word : Int64, word.toInt = binaryNumber digits ∧
      machine.evaluate options (fuel + 1) (bitsSource separator closing digits) =
        (.ok (.integer word), machine)) ∧
    (machine.evaluate options (fuel + 1) (bitsSource separator closing digits) =
        (.error (.runtime .literalTooWide), machine) ↔
      63 < (significantBits digits).length) ∧
    (binaryNumber digits < 2 ^ 63 ↔ (significantBits digits).length ≤ 63) := by
  have isRead := readExpression_bitsSource options.policy separator closing digits
  have tooWide : 63 < (significantBits digits).length ↔ ¬binaryNumber digits < 2 ^ 63 := by
    rw [binaryNumber_lt_iff, Nat.not_le]
  refine ⟨?_, isRead, fun fits => ?_, ?_, binaryNumber_lt_iff digits 63⟩
  · rw [readExpression, readSource] at isRead
    cases isFailure : (tokenize options.policy (bitsSource separator closing digits)).failure with
    | none => rfl
    | some error =>
        rw [isFailure] at isRead
        cases isRead
  · refine ⟨.ofNat (binaryNumber digits), Int64.toInt_ofNat_of_lt fits, ?_⟩
    rw [evaluate_bitsSource, ofBits_of_fits fits]
    rfl
  · rw [evaluate_bitsSource, tooWide]
    constructor
    · intro isRefused fits
      rw [ofBits_of_fits fits] at isRefused
      cases isRefused
    · intro large
      rw [ofBits_of_large large]
      rfl

/-- The bits of six, with a semicolon between the first two and a blank between the last two. -/
example : bitsSource
    (fun index => if index = 0 then .semicolon [] [] nofun nofun
      else .blanks ⟨[' '], List.cons_ne_nil _ _, by simp [IsGap]; decide⟩)
    none [true, true, false] = ";;$$$$$$$$;$$$$$$$$ $$$$$$$" ∧
    binaryNumber [true, true, false] = 6 :=
  ⟨rfl, by decide⟩

end Mel

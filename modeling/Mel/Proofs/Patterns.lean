import Mel.Token.Rule
import Mathlib.Data.List.TakeWhile

/-!
# What patterns match

A pattern matches a beginning of a text. What it matches is not empty and is matched in the
same way on its own, and it stays a match whatever text is put behind it, though it may
then reach further.

The converse needs more care. A pattern of words reaches no further if the text ends behind
the word or a blank follows, and most patterns match no word in front of a blank that they do
not match on its own. Markers, marked comments and strings are left out of this: they can
begin in one word and end in another.
-/

namespace Mel

open Text (isBlank)

namespace Pattern

theorem afterLead?_eq_some_iff {lead text rest : List Char} :
    afterLead? lead text = some rest ↔ text = lead ++ rest := by
  induction lead generalizing text with
  | nil => simp [afterLead?]
  | cons expected lead ih =>
      cases text with
      | nil => simp [afterLead?]
      | cons character text =>
          by_cases same : expected = character
          · simp [afterLead?, same, ih]
          · simp [afterLead?, same, Ne.symm same]

/-- Does a text begin with a character that is not blank? -/
def startsSolid (text : List Char) : Bool :=
  text.head?.any (!isBlank ·)

/-- A gap between words. -/
def IsGap (gap : List Char) : Prop :=
  ∀ character ∈ gap, isBlank character

theorem isGap_takeWhile (text : List Char) : IsGap (text.takeWhile isBlank) :=
  List.all_eq_true.mp List.all_takeWhile

theorem exists_gap (text : List Char) :
    ∃ gap, IsGap gap ∧ text = gap ++ text.dropWhile isBlank :=
  ⟨_, isGap_takeWhile text, List.takeWhile_append_dropWhile.symm⟩

theorem dropWhile_gap {text gap : List Char} (blank : IsGap gap) (solid : startsSolid text)
    (rest : List Char) : (gap ++ (text ++ rest)).dropWhile isBlank = text ++ rest := by
  rw [List.dropWhile_append_of_pos blank]
  cases text with
  | nil => cases solid
  | cons character text =>
      have notBlank : ¬isBlank character := by simpa [startsSolid] using solid
      rw [List.cons_append, List.dropWhile_cons_of_neg notBlank]

/-- The texts that a marker matches, whatever stands behind them. -/
def IsMarker (lead word taken : List Char) : Prop :=
  ∃ gap gap', IsGap gap ∧ IsGap gap' ∧
    taken = lead ++ (gap ++ ("Program".toList ++ (gap' ++ word)))

theorem markerLength?_eq_some_iff {lead word text : List Char} (solid : startsSolid word)
    {length : Nat} :
    markerLength? lead word text = some length ↔
      ∃ taken rest, text = taken ++ rest ∧ taken.length = length ∧ IsMarker lead word taken := by
  constructor
  · intro matched
    simp only [markerLength?, Option.bind_eq_bind, Option.bind_eq_some_iff] at matched
    obtain ⟨afterMark, isMark, afterProgram, isProgram, rest, isWord, isLength⟩ := matched
    rw [afterLead?_eq_some_iff] at isMark isProgram isWord
    obtain ⟨gap, blank, afterMark_eq⟩ := exists_gap afterMark
    obtain ⟨gap', blank', afterProgram_eq⟩ := exists_gap afterProgram
    have whole : text =
        lead ++ (gap ++ ("Program".toList ++ (gap' ++ word))) ++ rest := by
      rw [isMark, afterMark_eq, isProgram, afterProgram_eq, isWord]
      simp only [List.append_assoc]
    refine ⟨_, rest, whole, ?_, gap, gap', blank, blank', rfl⟩
    cases isLength
    rw [whole]
    simp only [List.length_append]
    omega
  · rintro ⟨taken, rest, rfl, rfl, gap, gap', blank, blank', rfl⟩
    have program : startsSolid "Program".toList := by decide
    simp only [markerLength?, Option.bind_eq_bind, Option.bind_eq_some_iff,
      afterLead?_eq_some_iff]
    refine ⟨_, List.append_assoc _ _ _, gap' ++ (word ++ rest), ?_, rest, ?_, ?_⟩
    · simp only [List.append_assoc]
      exact dropWhile_gap blank program _
    · exact dropWhile_gap blank' solid rest
    · rw [List.length_append, Nat.add_sub_cancel]
      rfl

theorem closingLength?_cons {character : Char} (notQuote : character ≠ '"')
    (notEscape : character ≠ '\\') (text : List Char) :
    closingLength? (character :: text) = (closingLength? text).map (· + 1) := by
  rw [closingLength?]
  · exact notQuote
  · exact fun _ _ isEscape => (notEscape isEscape).elim

/-- Whether a string is closed is known once its closing quote is seen. -/
theorem exists_closed {text : List Char} {length : Nat}
    (closed : closingLength? text = some length) :
    ∃ taken rest, text = taken ++ rest ∧ taken.length = length ∧
      ∀ more, closingLength? (taken ++ more) = some length := by
  fun_induction closingLength? text generalizing length with
  | case1 => cases closed
  | case2 text =>
      cases closed
      exact ⟨['"'], text, rfl, rfl, fun _ => rfl⟩
  | case3 character text ih =>
      obtain ⟨shorter, shorterClosed, rfl⟩ := Option.map_eq_some_iff.mp closed
      obtain ⟨taken, rest, rfl, rfl, closes⟩ := ih shorterClosed
      refine ⟨'\\' :: character :: taken, rest, rfl, rfl, fun more => ?_⟩
      simp [closingLength?, closes more]
  | case4 character text notQuote notEscape ih =>
      obtain ⟨shorter, shorterClosed, rfl⟩ := Option.map_eq_some_iff.mp closed
      have isPlain : character ≠ '\\' := by
        intro isEscape
        cases text with
        | nil => cases shorterClosed
        | cons next text => exact notEscape next text isEscape rfl
      obtain ⟨taken, rest, rfl, rfl, closes⟩ := ih shorterClosed
      refine ⟨character :: taken, rest, rfl, rfl, fun more => ?_⟩
      rw [List.cons_append, closingLength?_cons notQuote isPlain, closes more]
      rfl

theorem exists_numberTail (text : List Char) :
    ∃ taken rest, text = taken ++ rest ∧ taken.length = numberTail text ∧
      numberTail taken = taken.length := by
  fun_induction numberTail text with
  | case1 text ih =>
      obtain ⟨taken, rest, rfl, length, alone⟩ := ih
      refine ⟨'#' :: taken, rest, rfl, ?_, ?_⟩
      · rw [List.length_cons, length, Nat.add_comm]
      · rw [numberTail, alone, List.length_cons, Nat.add_comm]
  | case2 text ih =>
      obtain ⟨taken, rest, rfl, length, alone⟩ := ih
      refine ⟨':' :: '#' :: taken, rest, rfl, ?_, ?_⟩
      · rw [List.length_cons, List.length_cons, length, Nat.add_comm 2]
      · rw [numberTail, alone, List.length_cons, List.length_cons, Nat.add_comm 2]
  | case3 text noRun noGroup => exact ⟨[], text, rfl, rfl, rfl⟩

theorem numberTail_append_of_separated {taken rest : List Char}
    (alone : numberTail taken = taken.length) (notRun : rest.head? ≠ some '#')
    (notGroup : rest.head? ≠ some ':') : numberTail (taken ++ rest) = taken.length := by
  fun_induction numberTail taken with
  | case1 text ih =>
      rw [List.length_cons] at alone
      rw [List.cons_append, numberTail, ih (by omega), List.length_cons, Nat.add_comm]
  | case2 text ih =>
      rw [List.length_cons, List.length_cons] at alone
      rw [List.cons_append, List.cons_append, numberTail, ih (by omega), List.length_cons,
        List.length_cons, Nat.add_comm 2]
  | case3 text noRun noGroup =>
      have isNil : text = [] := List.eq_nil_of_length_eq_zero alone.symm
      subst isNil
      rw [List.nil_append, List.length_nil, numberTail]
      · rintro later rfl
        exact notRun rfl
      · rintro later rfl
        exact notGroup rfl

theorem commentLength?_cons (text : List Char) :
    commentLength? ('~' :: text) = some (1 + (text.takeWhile (· ≠ '\n')).length) := rfl

theorem exists_comment {text : List Char} {length : Nat}
    (matched : commentLength? text = some length) :
    ∃ taken rest, text = '~' :: (taken ++ rest) ∧ length = taken.length + 1 ∧
      taken.takeWhile (· ≠ '\n') = taken := by
  unfold commentLength? at matched
  split at matched
  · rename_i text
    cases matched
    exact ⟨_, text.dropWhile (· ≠ '\n'), by rw [List.takeWhile_append_dropWhile],
      Nat.add_comm _ _, List.takeWhile_idem⟩
  · cases matched

theorem markedCommentLength?_cons {gap : List Char} (blank : IsGap gap) (text : List Char) :
    markedCommentLength? ('>' :: (gap ++ '~' :: text)) =
      some (gap.length + ((text.takeWhile (· ≠ '\n')).length + 1) + 1) := by
  have mark : startsSolid ['~'] := by decide
  have behindGap : (gap ++ '~' :: text).dropWhile isBlank = '~' :: text :=
    dropWhile_gap blank mark text
  have isGap : (gap ++ '~' :: text).takeWhile isBlank = gap := by
    rw [List.takeWhile_append_of_pos blank, List.takeWhile_cons_of_neg (by decide),
      List.append_nil]
  simp only [markedCommentLength?, behindGap, isGap, commentLength?_cons, Option.bind_eq_bind,
    Option.bind_some, Option.pure_def, Option.some.injEq]
  omega

theorem exists_markedComment {text : List Char} {length : Nat}
    (matched : markedCommentLength? text = some length) :
    ∃ gap taken rest, text = '>' :: (gap ++ '~' :: (taken ++ rest)) ∧
      length = gap.length + (taken.length + 1) + 1 ∧ IsGap gap ∧
        taken.takeWhile (· ≠ '\n') = taken := by
  unfold markedCommentLength? at matched
  split at matched
  · rename_i text
    obtain ⟨comment, isComment, isLength⟩ := Option.bind_eq_some_iff.mp matched
    obtain ⟨taken, rest, behindGap, rfl, run⟩ := exists_comment isComment
    cases isLength
    refine ⟨text.takeWhile isBlank, taken, rest, ?_, by omega, isGap_takeWhile text, run⟩
    rw [← behindGap, List.takeWhile_append_dropWhile]
  · cases matched

theorem exists_name {text : List Char} {length : Nat} (matched : nameLength? text = some length) :
    ∃ first taken rest, text = first :: (taken ++ rest) ∧ taken.length + 1 = length ∧
      isNameStart first ∧ taken.takeWhile isNamePart = taken := by
  unfold nameLength? at matched
  split at matched
  · rename_i first text
    split at matched
    · rename_i isStart
      cases matched
      exact ⟨first, _, text.dropWhile isNamePart, by rw [List.takeWhile_append_dropWhile],
        Nat.add_comm _ _, isStart, List.takeWhile_idem⟩
    · cases matched
  · cases matched

/-- A match that needs no text behind it, and is not lost by any. -/
structure MatchesAlone (pattern : Pattern) (taken : List Char) : Prop where
  nonempty : taken ≠ []
  alone : pattern.matchLength? taken = some taken.length
  persists : ∀ more, (pattern.matchLength? (taken ++ more)).isSome

/-- Patterns whose matches are not empty and end in no gap. -/
def isProper : Pattern → Bool
  | .exact text => !text.toList.isEmpty && text.toList.all (!isBlank ·)
  | .marker lead word => startsSolid lead.toList && lead.toList.all (!isBlank ·)
      && startsSolid word.toList
  | _ => true

/-- Patterns that see the end of what they match. -/
def isClosed : Pattern → Bool
  | .exact _ | .marker _ _ | .string => true
  | _ => false

/-- What a closed pattern matches does not depend on the text behind it. -/
theorem exists_closedMatch {pattern : Pattern} (closed : pattern.isClosed)
    (proper : pattern.isProper) {text : List Char} {length : Nat}
    (matched : pattern.matchLength? text = some length) :
    ∃ taken rest, text = taken ++ rest ∧ taken.length = length ∧ taken ≠ [] ∧
      ∀ more, pattern.matchLength? (taken ++ more) = some length := by
  cases pattern with
  | exact expected =>
      obtain ⟨rest, isExpected, rfl⟩ := Option.map_eq_some_iff.mp matched
      rw [afterLead?_eq_some_iff] at isExpected
      refine ⟨_, rest, isExpected, rfl, ?_, fun more => ?_⟩
      · simp_all [isProper]
      · rw [matchLength?, afterLead?_eq_some_iff.mpr rfl, Option.map_some]
  | marker lead word =>
      simp only [isProper, Bool.and_eq_true] at proper
      rw [matchLength?, markerLength?_eq_some_iff proper.2] at matched
      obtain ⟨taken, rest, isText, isLength, isMarker⟩ := matched
      refine ⟨taken, rest, isText, isLength, ?_, fun more => ?_⟩
      · rintro rfl
        obtain ⟨gap, gap', -, -, isTaken⟩ := isMarker
        simp at isTaken
      · rw [matchLength?, markerLength?_eq_some_iff proper.2]
        exact ⟨taken, more, rfl, isLength, isMarker⟩
  | string =>
      simp only [matchLength?, stringLength?] at matched
      split at matched
      · rename_i text
        obtain ⟨inner, isClosed, rfl⟩ := Option.map_eq_some_iff.mp matched
        obtain ⟨taken, rest, rfl, rfl, closes⟩ := exists_closed isClosed
        refine ⟨'"' :: taken, rest, rfl, rfl, List.cons_ne_nil _ _, fun more => ?_⟩
        rw [List.cons_append, matchLength?, stringLength?, closes more]
        rfl
      · cases matched
  | _ => cases closed

theorem blanksLength?_eq_some_iff {text : List Char} {length : Nat} :
    blanksLength? text = some length ↔
      (text.takeWhile isBlank).length = length ∧ length ≠ 0 := by
  unfold blanksLength?
  cases (text.takeWhile isBlank).length with
  | zero => simp [eq_comm]
  | succ shorter =>
      simp only [Option.some.injEq]
      omega

theorem matchesAlone_markedComment {gap taken : List Char} (blank : IsGap gap)
    (run : taken.takeWhile (· ≠ '\n') = taken) :
    markedComment.MatchesAlone ('>' :: (gap ++ '~' :: taken)) where
  nonempty := List.cons_ne_nil _ _
  alone := by
    have alone := markedCommentLength?_cons blank taken
    rw [run] at alone
    rw [matchLength?, alone, List.length_cons, List.length_append, List.length_cons]
  persists more := by
    rw [List.cons_append, List.append_assoc, List.cons_append, matchLength?,
      markedCommentLength?_cons blank]
    rfl

theorem matchesAlone_lineComment {taken : List Char}
    (run : taken.takeWhile (· ≠ '\n') = taken) : lineComment.MatchesAlone ('~' :: taken) where
  nonempty := List.cons_ne_nil _ _
  alone := by rw [matchLength?, commentLength?_cons, run, List.length_cons, Nat.add_comm]
  persists more := by
    rw [List.cons_append, matchLength?, commentLength?_cons]
    rfl

theorem matchesAlone_realNumber {taken : List Char} (alone : numberTail taken = taken.length) :
    realNumber.MatchesAlone ('#' :: taken) where
  nonempty := List.cons_ne_nil _ _
  alone := by rw [matchLength?, numberLength?, alone, List.length_cons, Nat.add_comm]
  persists _ := rfl

theorem matchesAlone_identifier {first : Char} {taken : List Char} (isStart : isNameStart first)
    (run : taken.takeWhile isNamePart = taken) : identifier.MatchesAlone (first :: taken) where
  nonempty := List.cons_ne_nil _ _
  alone := by
    rw [matchLength?, nameLength?, if_pos isStart, run, List.length_cons, Nat.add_comm]
  persists more := by
    rw [List.cons_append, matchLength?, nameLength?, if_pos isStart]
    rfl

theorem matchesAlone_blanks {taken : List Char} (nonempty : taken ≠ [])
    (run : taken.takeWhile isBlank = taken) : blanks.MatchesAlone taken where
  nonempty := nonempty
  alone := by
    rw [matchLength?, blanksLength?_eq_some_iff, run]
    exact ⟨rfl, mt List.length_eq_zero_iff.mp nonempty⟩
  persists more := by
    have someBlanks := List.length_pos_iff.mpr nonempty
    rw [matchLength?, Option.isSome_iff_exists]
    refine ⟨_, blanksLength?_eq_some_iff.mpr ⟨rfl, ?_⟩⟩
    rw [List.takeWhile_append, run, if_pos rfl, List.length_append]
    omega

theorem exists_matchesAlone {pattern : Pattern} (proper : pattern.isProper) {text : List Char}
    {length : Nat} (matched : pattern.matchLength? text = some length) :
    ∃ taken rest, text = taken ++ rest ∧ taken.length = length ∧ pattern.MatchesAlone taken := by
  cases pattern with
  | exact _ | marker _ _ | string =>
      obtain ⟨taken, rest, rfl, rfl, nonempty, closed⟩ := exists_closedMatch rfl proper matched
      refine ⟨taken, rest, rfl, rfl, nonempty, ?_, fun more => ?_⟩
      · simpa using closed []
      · rw [closed more]
        rfl
  | markedComment =>
      obtain ⟨gap, taken, rest, rfl, rfl, blank, run⟩ := exists_markedComment matched
      exact ⟨'>' :: (gap ++ '~' :: taken), rest, by simp, by simp,
        matchesAlone_markedComment blank run⟩
  | lineComment =>
      obtain ⟨taken, rest, rfl, rfl, run⟩ := exists_comment matched
      exact ⟨'~' :: taken, rest, rfl, rfl, matchesAlone_lineComment run⟩
  | realNumber =>
      simp only [matchLength?, numberLength?] at matched
      split at matched
      · rename_i text
        cases matched
        obtain ⟨taken, rest, rfl, length, alone⟩ := exists_numberTail text
        exact ⟨'#' :: taken, rest, rfl, by rw [List.length_cons, length, Nat.add_comm],
          matchesAlone_realNumber alone⟩
      · cases matched
  | identifier =>
      obtain ⟨first, taken, rest, rfl, rfl, isStart, run⟩ := exists_name matched
      exact ⟨first :: taken, rest, rfl, rfl, matchesAlone_identifier isStart run⟩
  | blanks =>
      rw [matchLength?, blanksLength?_eq_some_iff] at matched
      obtain ⟨rfl, notZero⟩ := matched
      have nonempty : text.takeWhile isBlank ≠ [] := mt List.length_eq_zero_iff.mpr notZero
      exact ⟨text.takeWhile isBlank, text.dropWhile isBlank,
        List.takeWhile_append_dropWhile.symm, rfl,
        matchesAlone_blanks nonempty List.takeWhile_idem⟩
  | anyCharacter =>
      cases text with
      | nil => cases matched
      | cons character text =>
          cases matched
          exact ⟨[character], text, rfl, rfl, List.cons_ne_nil _ _, rfl, fun more => rfl⟩

/-- The text ends, or goes on with a blank. -/
def Separated (rest : List Char) : Prop :=
  ∀ character ∈ rest.head?, isBlank character

theorem Separated.head?_ne {rest : List Char} (separated : Separated rest) {character : Char}
    (solid : isBlank character = false) : rest.head? ≠ some character := by
  intro isHead
  rw [separated character isHead] at solid
  cases solid

/-- The parts of names are among the characters from `0` to `z`, and no blank is. -/
theorem isNamePart_of_isBlank {character : Char} (blank : isBlank character) :
    isNamePart character = false := by
  have outside : character.toNat ≤ 32 ∨ 133 ≤ character.toNat := by
    simp only [isBlank, Text.blankRanges, List.any_cons, List.any_nil, Bool.or_false,
      Bool.or_eq_true, Bool.and_eq_true, decide_eq_true_eq] at blank
    omega
  rw [Bool.eq_false_iff]
  intro isPart
  have inside : 48 ≤ character.toNat ∧ character.toNat ≤ 122 := by
    have ranges : ((decide (65 ≤ character.val ∧ character.val ≤ 90) ||
        (decide (97 ≤ character.val) && decide (character.val ≤ 122))) ||
          (decide (48 ≤ character.val) && decide (character.val ≤ 57))) ||
            character == '_' := isPart
    simp only [Bool.or_eq_true, Bool.and_eq_true, decide_eq_true_eq, beq_iff_eq,
      UInt32.le_iff_toNat_le] at ranges
    rcases ranges with ((upper | lower) | digit) | rfl
    · exact ⟨Nat.le_trans (by decide) upper.1, Nat.le_trans upper.2 (by decide)⟩
    · exact ⟨Nat.le_trans (by decide) lower.1, Nat.le_trans lower.2 (by decide)⟩
    · exact ⟨Nat.le_trans (by decide) digit.1, Nat.le_trans digit.2 (by decide)⟩
    · decide
  omega

/-- Patterns of words. -/
def isWord : Pattern → Bool
  | .exact _ | .marker _ _ | .string | .realNumber | .identifier => true
  | _ => false

/-- A blank cuts a word off. -/
theorem matchLength?_append_of_separated {pattern : Pattern} (word : pattern.isWord)
    (proper : pattern.isProper) {taken rest : List Char}
    (alone : pattern.matchLength? taken = some taken.length) (separated : Separated rest) :
    pattern.matchLength? (taken ++ rest) = some taken.length := by
  cases pattern with
  | exact _ | marker _ _ | string =>
      obtain ⟨taken', rest', isTaken, length, -, closed⟩ := exists_closedMatch rfl proper alone
      have noRest : rest' = [] := by
        rw [isTaken, List.length_append] at length
        exact List.eq_nil_of_length_eq_zero (by omega)
      rw [noRest, List.append_nil] at isTaken
      subst isTaken
      exact closed rest
  | realNumber =>
      cases taken with
      | nil => cases alone
      | cons first taken =>
          simp only [matchLength?, numberLength?] at alone
          split at alone
          · rename_i text isNumber
            cases isNumber
            simp only [List.length_cons, Option.some.injEq] at alone
            have tail : numberTail (taken ++ rest) = taken.length :=
              numberTail_append_of_separated (by omega) (separated.head?_ne (by decide))
                (separated.head?_ne (by decide))
            rw [List.cons_append, matchLength?, numberLength?, tail, List.length_cons,
              Nat.add_comm]
          · cases alone
  | identifier =>
      cases taken with
      | nil => cases alone
      | cons first taken =>
          simp only [matchLength?, nameLength?] at alone
          split at alone
          · rename_i isStart
            simp only [List.length_cons, Option.some.injEq] at alone
            have run : taken.takeWhile isNamePart = taken :=
              (List.takeWhile_prefix isNamePart).eq_of_length (by omega)
            have stops : rest.takeWhile isNamePart = [] := by
              cases rest with
              | nil => rfl
              | cons next rest =>
                  have outside := isNamePart_of_isBlank (separated next rfl)
                  simp [outside]
            rw [List.cons_append, matchLength?, nameLength?, if_pos isStart,
              List.takeWhile_append, run, if_pos rfl, stops, List.append_nil, List.length_cons,
              Nat.add_comm]
          · cases alone
  | _ => cases word

/-- Patterns that are decided by the first character of a text. -/
def isDecidedByHead : Pattern → Bool
  | .lineComment | .realNumber | .identifier | .blanks | .anyCharacter => true
  | _ => false

theorem isSome_matchLength?_cons {pattern : Pattern} (byHead : pattern.isDecidedByHead)
    (first : Char) (text later : List Char) :
    (pattern.matchLength? (first :: text)).isSome =
      (pattern.matchLength? (first :: later)).isSome := by
  cases pattern with
  | lineComment =>
      by_cases isMark : first = '~'
      · subst isMark
        rfl
      · simp [matchLength?, commentLength?, isMark]
  | realNumber =>
      by_cases isMark : first = '#'
      · subst isMark
        rfl
      · simp [matchLength?, numberLength?, isMark]
  | identifier =>
      simp only [matchLength?, nameLength?]
      split <;> rfl
  | blanks =>
      simp only [matchLength?, blanksLength?, List.takeWhile_cons]
      cases isBlank first <;> rfl
  | anyCharacter => rfl
  | _ => cases byHead

/-- Patterns that match no word in front of a blank unless they match it on its own. -/
def isLocal : Pattern → Bool
  | .marker _ _ | .markedComment | .string => false
  | _ => true

theorem isSome_of_append_separated {pattern : Pattern} (isLocal : pattern.isLocal)
    (proper : pattern.isProper) {taken rest : List Char} (nonempty : taken ≠ [])
    (separated : Separated rest) (matched : (pattern.matchLength? (taken ++ rest)).isSome) :
    (pattern.matchLength? taken).isSome := by
  cases pattern with
  | exact expected =>
      simp only [matchLength?, Option.isSome_map, Option.isSome_iff_exists,
        afterLead?_eq_some_iff] at matched ⊢
      obtain ⟨later, isExpected⟩ := matched
      rcases List.append_eq_append_iff.mp isExpected with
        ⟨excess, isExcess, isRest⟩ | ⟨excess, isExcess, -⟩
      · cases excess with
        | nil => exact ⟨[], by simp [isExcess]⟩
        | cons next excess =>
            -- The text would go on with a blank inside the expected one.
            have blank := separated next (by simp [isRest])
            simp_all [isProper]
      · exact ⟨excess, isExcess⟩
  | lineComment | realNumber | identifier | blanks | anyCharacter =>
      cases taken with
      | nil => exact (nonempty rfl).elim
      | cons first taken => rwa [List.cons_append, isSome_matchLength?_cons rfl] at matched
  | _ => cases isLocal

end Pattern

end Mel

import Mel.Proofs.Policies

/-!
# The longest match

The first rule that matches decides how far a lexeme reaches, and no rule behind it would reach
farther. This rests on the order of the rules: of any two of them the earlier one reaches at least
as far wherever both match. Mostly this can be told from the texts that the matches of a pattern
begin with, as either they part or the earlier one is the longer one. A number is open-ended, and
gives way to the operators of its family, whose second character ends it.
-/

namespace Mel

namespace Pattern

/-- Wherever both patterns match, the first one reaches at least as far. -/
def Covers (pattern other : Pattern) : Prop :=
  ∀ ⦃text length reach⦄, pattern.matchLength? text = some length →
    other.matchLength? text = some reach → reach ≤ length

/-- What all matches of a pattern begin with. -/
def lead : Pattern → List Char
  | .exact text | .marker text _ => text.toList
  | .markedComment => ['>']
  | .lineComment => ['~']
  | .string => ['"']
  | .realNumber => ['#']
  | .identifier | .blanks | .anyCharacter => []

/-- No match of a pattern is shorter. -/
def leastLength : Pattern → Nat
  | .exact text | .marker text _ => text.toList.length
  | .markedComment => 2
  | _ => 1

/-- No match of a pattern is longer, if there is a longest one. -/
def mostLength? : Pattern → Option Nat
  | .exact text => some text.toList.length
  | .anyCharacter => some 1
  | _ => none

variable {pattern other : Pattern} {text : List Char} {length : Nat}

theorem ne_nil_of_matchLength? (proper : pattern.isProper)
    (matched : pattern.matchLength? text = some length) : text ≠ [] := by
  obtain ⟨taken, rest, rfl, -, alone⟩ := exists_matchesAlone proper matched
  simp [alone.nonempty]

theorem lead_isPrefix (proper : pattern.isProper)
    (matched : pattern.matchLength? text = some length) : pattern.lead <+: text := by
  obtain ⟨first, later, rfl⟩ := List.exists_cons_of_ne_nil (ne_nil_of_matchLength? proper matched)
  have starts := canStart_of_matchLength? proper matched
  cases pattern with
  | exact expected =>
      obtain ⟨rest, isExpected, -⟩ := Option.map_eq_some_iff.mp matched
      rw [afterLead?_eq_some_iff] at isExpected
      exact ⟨rest, isExpected.symm⟩
  | marker mark word =>
      simp only [matchLength?, markerLength?, Option.bind_eq_bind,
        Option.bind_eq_some_iff, afterLead?_eq_some_iff] at matched
      obtain ⟨afterMark, isMark, -⟩ := matched
      exact ⟨afterMark, isMark.symm⟩
  | markedComment | lineComment | string | realNumber =>
      rw [beq_iff_eq.mp starts]
      exact ⟨later, rfl⟩
  | identifier | blanks | anyCharacter => exact List.nil_prefix

theorem leastLength_le (proper : pattern.isProper)
    (matched : pattern.matchLength? text = some length) : pattern.leastLength ≤ length := by
  have positive : 1 ≤ length := by
    obtain ⟨taken, rest, -, rfl, alone⟩ := exists_matchesAlone proper matched
    exact List.length_pos_iff.mpr alone.nonempty
  cases pattern with
  | exact expected =>
      obtain ⟨rest, -, isLength⟩ := Option.map_eq_some_iff.mp matched
      exact Nat.le_of_eq isLength
  | marker mark word =>
      simp only [isProper, Bool.and_eq_true] at proper
      rw [matchLength?, markerLength?_eq_some_iff proper.2] at matched
      obtain ⟨taken, rest, -, rfl, gap, gap', -, -, rfl⟩ := matched
      simp only [leastLength, List.length_append]
      omega
  | markedComment =>
      obtain ⟨gap, taken, rest, -, rfl, -⟩ := exists_markedComment matched
      simp only [leastLength]
      omega
  | lineComment | string | realNumber | identifier | blanks | anyCharacter => exact positive

theorem le_mostLength {most : Nat} (isMost : pattern.mostLength? = some most)
    (matched : pattern.matchLength? text = some length) : length ≤ most := by
  cases pattern with
  | exact expected =>
      obtain ⟨rest, -, rfl⟩ := Option.map_eq_some_iff.mp matched
      exact Nat.le_of_eq (Option.some.inj isMost)
  | anyCharacter =>
      simp only [matchLength?] at matched
      split at matched
      · cases matched
      · cases isMost
        cases matched
        exact Nat.le_refl 1
  | _ => cases isMost

theorem covers_of_mostLength_le {most : Nat} (proper : pattern.isProper)
    (isMost : other.mostLength? = some most) (le : most ≤ pattern.leastLength) :
    pattern.Covers other := by
  intro text length reach matched otherMatched
  calc
    reach ≤ most := le_mostLength isMost otherMatched
    _ ≤ pattern.leastLength := le
    _ ≤ length := leastLength_le proper matched

theorem covers_of_apart (proper : pattern.isProper) (otherProper : other.isProper)
    (apart : ¬pattern.lead <+: other.lead) (apart' : ¬other.lead <+: pattern.lead) :
    pattern.Covers other := by
  intro text length reach matched otherMatched
  have isLead := lead_isPrefix proper matched
  have isOtherLead := lead_isPrefix otherProper otherMatched
  exact ((List.prefix_or_prefix_of_prefix isLead isOtherLead).elim apart apart').elim

theorem covers_of_not_canStart {first : Char} (proper : pattern.isProper)
    (otherProper : other.isProper) (isFirst : pattern.lead.head? = some first)
    (cannot : other.canStart first = false) : pattern.Covers other := by
  intro text length reach matched otherMatched
  obtain ⟨rest, rfl⟩ := lead_isPrefix proper matched
  cases isLead : pattern.lead with
  | nil =>
      rw [isLead] at isFirst
      cases isFirst
  | cons head lead =>
      rw [isLead] at isFirst
      cases isFirst
      rw [isLead, List.cons_append] at otherMatched
      rw [canStart_of_matchLength? otherProper otherMatched] at cannot
      cases cannot

/-- A text that is no longer a number at its second character. -/
def endsNumber : List Char → Bool
  | '#' :: next :: _ => next != '#' && next != ':'
  | _ => false

theorem numberTail_of_ne {next : Char} (notRun : next ≠ '#') (notGroup : next ≠ ':')
    (rest : List Char) : numberTail (next :: rest) = 0 := by
  rw [numberTail]
  · rintro later isRun
    exact notRun (List.cons.inj isRun).1
  · rintro later isGroup
    exact notGroup (List.cons.inj isGroup).1

theorem covers_realNumber {expected : String} (ends : endsNumber expected.toList) :
    (exact expected).Covers realNumber := by
  intro text length reach matched numberMatched
  obtain ⟨rest, isExpected, rfl⟩ := Option.map_eq_some_iff.mp matched
  rw [afterLead?_eq_some_iff] at isExpected
  unfold endsNumber at ends
  split at ends
  · rename_i next later isText
    simp only [Bool.and_eq_true, bne_iff_ne] at ends
    rw [isExpected, isText, List.cons_append, List.cons_append, matchLength?, numberLength?,
      numberTail_of_ne ends.1 ends.2] at numberMatched
    cases numberMatched
    rw [isText]
    simp
  · cases ends

theorem covers_blanks : identifier.Covers blanks := by
  intro text length reach matched blanksMatched
  obtain ⟨first, later, rfl⟩ := List.exists_cons_of_ne_nil (ne_nil_of_matchLength? rfl matched)
  have isName := canStart_of_matchLength? rfl matched
  have isBlank := canStart_of_matchLength? rfl blanksMatched
  rw [canStart_of_isBlank rfl isBlank] at isName
  cases isName

/-- Is it known that the first pattern covers the second? -/
def isKnownToCover (pattern other : Pattern) : Bool :=
  other.mostLength?.any (· ≤ pattern.leastLength)
    || (!pattern.lead.isPrefixOf other.lead && !other.lead.isPrefixOf pattern.lead)
    || pattern.lead.head?.any (!other.canStart ·)
    || match pattern, other with
      | .exact text, .realNumber => endsNumber text.toList
      | .identifier, .blanks => true
      | _, _ => false

theorem covers_of_isKnownToCover (proper : pattern.isProper) (otherProper : other.isProper)
    (known : pattern.isKnownToCover other) : pattern.Covers other := by
  simp only [isKnownToCover, Bool.or_eq_true] at known
  rcases known with ((short | apart) | starts) | openEnded
  · obtain ⟨most, isMost, le⟩ := (Option.any_eq_true _ _).mp short
    exact covers_of_mostLength_le proper isMost (of_decide_eq_true le)
  · simp only [Bool.and_eq_true, Bool.not_eq_true', ← Bool.not_eq_true,
      List.isPrefixOf_iff_prefix] at apart
    exact covers_of_apart proper otherProper apart.1 apart.2
  · obtain ⟨first, isFirst, cannot⟩ := (Option.any_eq_true _ _).mp starts
    exact covers_of_not_canStart proper otherProper isFirst (by simpa using cannot)
  · split at openEnded
    · exact covers_realNumber openEnded
    · exact covers_blanks
    · cases openEnded

end Pattern

namespace Rule

/-- This is what the order of the rules is for, and all that has to be looked at in the table. -/
theorem pairwise_isKnownToCover :
    table.Pairwise fun earlier later => earlier.pattern.isKnownToCover later.pattern := by
  decide +kernel

/-- Of any two rules the earlier one reaches at least as far wherever both match. -/
theorem pairwise_covers :
    table.Pairwise fun earlier later => earlier.pattern.Covers later.pattern :=
  pairwise_isKnownToCover.imp_of_mem fun {earlier later} isEarlier isLater known =>
    Pattern.covers_of_isKnownToCover (isProper_of_mem_table earlier isEarlier)
      (isProper_of_mem_table later isLater) known

theorem le_of_firstMatch? {text : List Char} {action : Action} {length : Nat}
    (matched : firstMatch? text = some (action, length)) {rule : Rule} (isRule : rule ∈ table)
    {reach : Nat} (reaches : rule.pattern.matchLength? text = some reach) : reach ≤ length := by
  obtain ⟨earlier, decisive, later, isTable, decisiveMatched, missed⟩ :=
    List.findSome?_eq_some_iff.mp matched
  obtain ⟨taken, isTaken, isMatch⟩ := Option.map_eq_some_iff.mp decisiveMatched
  cases isMatch
  have ordered := pairwise_covers
  rw [isTable] at ordered isRule
  rcases List.mem_append.mp isRule with isEarlier | isLater
  · have misses := missed rule isEarlier
    rw [reaches] at misses
    cases misses
  · rcases List.mem_cons.mp isLater with rfl | isLater
    · rw [isTaken, Option.some.injEq] at reaches
      exact Nat.le_of_eq reaches.symm
    · have behind := (List.pairwise_append.mp ordered).2.1
      exact (List.pairwise_cons.mp behind).1 rule isLater isTaken reaches

end Rule

/-- The bytes of so many characters at the head of a text. -/
def byteLength (text : List Char) (length : Nat) : Nat :=
  (String.ofList (text.take length)).utf8ByteSize

theorem byteLength_mono (text : List Char) {shorter longer : Nat} (le : shorter ≤ longer) :
    byteLength text shorter ≤ byteLength text longer := by
  obtain ⟨more, rfl⟩ := Nat.exists_eq_add_of_le le
  rw [byteLength, byteLength, List.take_add, String.ofList_append, String.utf8ByteSize_append]
  exact Nat.le_add_right _ _

/-- At the head of a text that is not empty some rule matches, and no rule reaches farther than the
first that does, neither in characters nor in bytes. So every lexeme of a source is as long as any
rule could make it at its place. -/
theorem first_match_is_longest :
    (∀ (first : Char) (later : List Char), let text := first :: later
      ∃ action length, Rule.firstMatch? text = some (action, length) ∧
        ∀ rule ∈ Rule.table, ∀ reach, rule.pattern.matchLength? text = some reach →
          reach ≤ length ∧ byteLength text reach ≤ byteLength text length) ∧
    ∀ source, ∀ lexeme ∈ lexemes source, ∃ before behind,
      source = before ++ lexeme.text ++ behind ∧ lexeme.position = .behind before ∧
      ∀ rule ∈ Rule.table, ∀ reach,
        rule.pattern.matchLength? (lexeme.text ++ behind).toList = some reach →
          reach ≤ lexeme.text.length ∧
            byteLength (lexeme.text ++ behind).toList reach ≤ lexeme.text.utf8ByteSize := by
  refine ⟨fun first later => ?_, fun source lexeme member => ?_⟩
  · obtain ⟨action, length, matched⟩ := Rule.exists_firstMatch (List.cons_ne_nil first later)
    refine ⟨action, length, matched, fun rule isRule reach reaches => ?_⟩
    have le := Rule.le_of_firstMatch? matched isRule reaches
    exact ⟨le, byteLength_mono _ le⟩
  · obtain ⟨before, behind, isSource, place, matched⟩ := (cover_lexemes source).exists_split member
    refine ⟨String.ofList before, String.ofList behind, ?_, ?_, fun rule isRule reach reaches => ?_⟩
    · rw [← String.toList_inj, isSource]
      simp
    · rw [place, Position.after_start]
    · rw [String.toList_append, String.toList_ofList] at reaches ⊢
      have le := Rule.le_of_firstMatch? matched isRule reaches
      have size : byteLength (lexeme.text.toList ++ behind) lexeme.text.toList.length =
          lexeme.text.utf8ByteSize := by
        rw [byteLength, List.take_left, String.ofList_toList]
      exact ⟨le, size ▸ byteLength_mono _ le⟩

end Mel

import Mel.Proofs.Patterns
import Mel.Token.Lexing
import Mathlib.Data.List.Induction

/-!
# Places in a source

The lexemes of a source cover it without a gap, so each stands where the ones before it end.
Positions are moved on character by character while a source is cut up. This file says what
they come to: the place behind some text is given by the bytes of that text, the line feeds in
it, and the characters behind the last of them. Tokens are some of the lexemes, and stand at
their places.
-/

namespace Mel

/-- The characters of a text behind its last line feed. -/
def lastLine (text : List Char) : List Char :=
  (text.reverse.takeWhile (· ≠ '\n')).reverse

/-- The place in a source that has this text in front of it. -/
def Position.behind (text : String) : Position where
  offset := text.utf8ByteSize
  line := 1 + text.toList.count '\n'
  column := 1 + (lastLine text.toList).length

theorem lastLine_concat_lineFeed (text : List Char) : lastLine (text ++ ['\n']) = [] := by
  simp [lastLine]

theorem lastLine_concat {character : Char} (inLine : character ≠ '\n') (text : List Char) :
    lastLine (text ++ [character]) = lastLine text ++ [character] := by
  simp [lastLine, inLine]

theorem Position.next_behind (text : List Char) (character : Char) :
    (Position.behind (String.ofList text)).next character =
      .behind (String.ofList (text ++ [character])) := by
  have size : (String.ofList (text ++ [character])).utf8ByteSize =
      (String.ofList text).utf8ByteSize + character.utf8Size := by
    rw [String.ofList_append, String.utf8ByteSize_append]
    simp
  by_cases isFeed : character = '\n'
  · subst isFeed
    simp only [next, behind, if_pos, size, String.toList_ofList, lastLine_concat_lineFeed,
      List.count_append, List.count_singleton_self, List.length_nil, Nat.add_assoc]
  · simp only [next, behind, size, String.toList_ofList, lastLine_concat isFeed,
      List.count_append, List.count_singleton, beq_iff_eq, isFeed, List.length_append,
      List.length_singleton, if_false, Nat.add_zero, Nat.add_assoc]

theorem Position.after_start (text : List Char) :
    Position.start.after text = .behind (String.ofList text) := by
  induction text using List.reverseRecOn with
  | nil => rfl
  | append_singleton text character ih =>
      rw [after_append, ih, after_cons, after_nil, next_behind]

/-- A text stands at a place of a source if that is the place behind all that comes before it. -/
def StandsAt (source text : String) (position : Position) : Prop :=
  ∃ before behind, source = before ++ text ++ behind ∧ position = .behind before

namespace Rule

theorem isProper_of_mem_table : ∀ rule ∈ table, rule.pattern.isProper := by
  decide

/-- What the first matching rule takes at the head of a text. -/
theorem exists_taken {text : List Char} {action : Action} {length : Nat}
    (matched : firstMatch? text = some (action, length)) :
    ∃ taken rest, text = taken ++ rest ∧ taken.length = length ∧ taken ≠ [] := by
  obtain ⟨rule, isRule, ruleMatched⟩ := List.exists_of_findSome?_eq_some matched
  obtain ⟨length, isLength, isMatch⟩ := Option.map_eq_some_iff.mp ruleMatched
  cases isMatch
  obtain ⟨taken, rest, isText, isTaken, alone⟩ :=
    Pattern.exists_matchesAlone (isProper_of_mem_table rule isRule) isLength
  exact ⟨taken, rest, isText, isTaken, alone.nonempty⟩

/-- Some rule matches wherever there is a character left. -/
theorem exists_firstMatch {text : List Char} (nonempty : text ≠ []) :
    ∃ action length, firstMatch? text = some (action, length) := by
  have last : (⟨.unknown, .anyCharacter⟩ : Rule) ∈ table := by decide
  have found : (firstMatch? text).isSome := by
    refine List.findSome?_isSome_iff.mpr ⟨_, last, ?_⟩
    simp [Pattern.matchLength?, nonempty]
  obtain ⟨⟨action, length⟩, isMatch⟩ := Option.isSome_iff_exists.mp found
  exact ⟨action, length, isMatch⟩

end Rule

/-- Lexemes that cover a text without a gap, each of them what the first matching rule takes. -/
inductive Cover : Position → List Char → List Lexeme → Prop where
  | nil {position : Position} : Cover position [] []
  | cons {position : Position} {taken rest : List Char} {action : Action} {lexemes : List Lexeme}
      (nonempty : taken ≠ [])
      (matched : Rule.firstMatch? (taken ++ rest) = some (action, taken.length))
      (later : Cover (position.after taken) rest lexemes) :
      Cover position (taken ++ rest) (⟨action, String.ofList taken, position⟩ :: lexemes)

theorem lexemesFrom_append {position : Position} {taken rest : List Char} {action : Action}
    (nonempty : taken ≠ [])
    (matched : Rule.firstMatch? (taken ++ rest) = some (action, taken.length)) :
    lexemesFrom position (taken ++ rest) =
      ⟨action, String.ofList taken, position⟩ :: lexemesFrom (position.after taken) rest := by
  cases taken with
  | nil => exact (nonempty rfl).elim
  | cons first taken =>
      rw [List.cons_append] at matched ⊢
      rw [lexemesFrom, matched]
      simp

/-- The lexemes of a text are its only cover. -/
theorem Cover.eq_lexemesFrom {position : Position} {text : List Char} {lexemes : List Lexeme}
    (cover : Cover position text lexemes) : lexemes = lexemesFrom position text := by
  induction cover with
  | nil => rw [lexemesFrom]
  | cons nonempty matched _ ih => rw [lexemesFrom_append nonempty matched, ih]

theorem cover_lexemesFrom (position : Position) (text : List Char) :
    Cover position text (lexemesFrom position text) := by
  induction length : text.length using Nat.strongRecOn generalizing position text with
  | ind size ih =>
      by_cases nonempty : text = []
      · subst nonempty
        rw [lexemesFrom]
        exact .nil
      · obtain ⟨action, taken, matched⟩ := Rule.exists_firstMatch nonempty
        obtain ⟨taken, rest, rfl, rfl, takenNonempty⟩ := Rule.exists_taken matched
        rw [lexemesFrom_append takenNonempty matched]
        refine .cons takenNonempty matched (ih rest.length ?_ _ rest rfl)
        have positive := List.length_pos_iff.mpr takenNonempty
        rw [List.length_append] at length
        omega

theorem Cover.join {position : Position} {text : List Char} {lexemes : List Lexeme}
    (cover : Cover position text lexemes) :
    lexemes.flatMap (·.text.toList) = text := by
  induction cover with
  | nil => rfl
  | cons _ _ _ ih => rw [List.flatMap_cons, ih, String.toList_ofList]

theorem Cover.length_le {position : Position} {text : List Char} {lexemes : List Lexeme}
    (cover : Cover position text lexemes) : lexemes.length ≤ text.length := by
  induction cover with
  | nil => exact Nat.le_refl 0
  | cons nonempty _ _ ih =>
      have positive := List.length_pos_iff.mpr nonempty
      rw [List.length_cons, List.length_append]
      omega

/-- Every lexeme stands where its position says. -/
theorem Cover.standsAt {position : Position} {text before : List Char} {lexemes : List Lexeme}
    (cover : Cover position text lexemes) (start : position = .behind (String.ofList before))
    {lexeme : Lexeme} (member : lexeme ∈ lexemes) :
    StandsAt (String.ofList (before ++ text)) lexeme.text lexeme.position := by
  induction cover generalizing before with
  | nil => cases member
  | @cons position taken rest action lexemes _ _ _ ih =>
      rcases List.mem_cons.mp member with rfl | member
      · refine ⟨String.ofList before, String.ofList rest, ?_, start⟩
        simp only [String.ofList_append, String.append_assoc]
      · have moved : position.after taken = .behind (String.ofList (before ++ taken)) := by
          rw [start, ← Position.after_start, ← Position.after_start, Position.after_append]
        rw [← List.append_assoc]
        exact ih moved member

theorem Position.offset_after (position : Position) (text : List Char) :
    (position.after text).offset = position.offset + (String.ofList text).utf8ByteSize := by
  induction text generalizing position with
  | nil => rfl
  | cons character text ih =>
      have size : (String.ofList (character :: text)).utf8ByteSize =
          character.utf8Size + (String.ofList text).utf8ByteSize := by
        rw [← List.singleton_append, String.ofList_append, String.utf8ByteSize_append]
        simp
      have moved : (position.next character).offset = position.offset + character.utf8Size := by
        rw [next]
        split <;> rfl
      rw [after_cons, ih, moved, size, Nat.add_assoc]

theorem Cover.offset_le {position : Position} {text : List Char} {lexemes : List Lexeme}
    (cover : Cover position text lexemes) {lexeme : Lexeme} (member : lexeme ∈ lexemes) :
    position.offset ≤ lexeme.position.offset := by
  induction cover with
  | nil => cases member
  | cons _ _ _ ih =>
      rcases List.mem_cons.mp member with rfl | member
      · exact Nat.le_refl _
      · have le := ih member
        rw [Position.offset_after] at le
        omega

/-- The lexeme ends where the other one begins, or before. -/
def Lexeme.EndsBefore (earlier later : Lexeme) : Prop :=
  earlier.position.offset + earlier.text.utf8ByteSize ≤ later.position.offset

theorem Cover.pairwise {position : Position} {text : List Char} {lexemes : List Lexeme}
    (cover : Cover position text lexemes) : lexemes.Pairwise Lexeme.EndsBefore := by
  induction cover with
  | nil => exact .nil
  | cons _ _ later ih =>
      refine .cons (fun lexeme member => ?_) ih
      have le := later.offset_le member
      rwa [Position.offset_after] at le

theorem Cover.size_pos {position : Position} {text : List Char} {lexemes : List Lexeme}
    (cover : Cover position text lexemes) {lexeme : Lexeme} (member : lexeme ∈ lexemes) :
    0 < lexeme.text.utf8ByteSize := by
  induction cover with
  | nil => cases member
  | cons nonempty _ _ ih =>
      rcases List.mem_cons.mp member with rfl | member
      · rw [Nat.pos_iff_ne_zero, Ne, String.utf8ByteSize_eq_zero_iff, ← String.toList_inj]
        simpa using nonempty
      · exact ih member

/-- The token that a lexeme is, if some kind was given to it. -/
def Lexeme.token? (lexeme : Lexeme) : Option Token :=
  match lexeme.action with
  | .emit kind => some ⟨kind, lexeme.text, lexeme.position⟩
  | .skip | .unknown => none

/-- The tokens found are the first of the lexemes that are tokens. -/
theorem tokens_isPrefix_filterMap (policy : Policy) (lexemes : List Lexeme) :
    (Lexing.ofLexemes policy lexemes).tokens <+: lexemes.filterMap Lexeme.token? := by
  induction lexemes with
  | nil => exact List.prefix_refl []
  | cons lexeme later ih =>
      simp only [Lexing.ofLexemes, List.filterMap_cons, Lexeme.token?]
      cases lexeme.action with
      | emit kind => exact List.cons_prefix_cons.mpr ⟨rfl, ih⟩
      | skip => exact ih
      | unknown =>
          cases policy with
          | lenient => exact ih
          | strict => exact List.nil_prefix

theorem lexeme_of_token? {lexeme : Lexeme} {token : Token} (isToken : lexeme.token? = some token) :
    lexeme = ⟨.emit token.kind, token.text, token.position⟩ := by
  rcases lexeme with ⟨action, text, position⟩
  cases action <;> cases isToken
  rfl

theorem lexeme_mem_of_token {policy : Policy} {lexemes : List Lexeme} {token : Token}
    (member : token ∈ (Lexing.ofLexemes policy lexemes).tokens) :
    ⟨.emit token.kind, token.text, token.position⟩ ∈ lexemes := by
  have found := (tokens_isPrefix_filterMap policy lexemes).subset member
  obtain ⟨lexeme, isLexeme, isToken⟩ := List.mem_filterMap.mp found
  rwa [← lexeme_of_token? isToken]

theorem cover_lexemes (source : String) : Cover .start source.toList (lexemes source) :=
  cover_lexemesFrom .start source.toList

theorem standsAt_of_mem_lexemes {source : String} {lexeme : Lexeme}
    (member : lexeme ∈ lexemes source) : StandsAt source lexeme.text lexeme.position := by
  have start : Position.start = .behind (String.ofList []) := Position.after_start []
  have stands := (cover_lexemes source).standsAt start member
  rwa [List.nil_append, String.ofList_toList] at stands

/-- Every token stands where its position says, tokens follow each other without an overlap, and
cutting up a source goes on by a character at least and ends with nothing left. -/
theorem tokens_stand_at_their_positions (policy : Policy) (source : String) :
    (∀ token ∈ (tokenize policy source).tokens,
      token.text ≠ "" ∧ StandsAt source token.text token.position) ∧
    (tokenize policy source).tokens.Pairwise (fun earlier later =>
      earlier.position.offset < later.position.offset ∧
        earlier.position.offset + earlier.text.utf8ByteSize ≤ later.position.offset) ∧
    (∀ text : List Char, text ≠ [] → ∃ action length,
      Rule.firstMatch? text = some (action, length) ∧ 0 < length ∧ length ≤ text.length) ∧
    (lexemes source).flatMap (·.text.toList) = source.toList ∧
    (lexemes source).length ≤ source.length := by
  have cover := cover_lexemes source
  refine ⟨fun token member => ?_, ?_, fun text nonempty => ?_, cover.join, ?_⟩
  · have isLexeme := lexeme_mem_of_token member
    have size := cover.size_pos isLexeme
    refine ⟨?_, standsAt_of_mem_lexemes isLexeme⟩
    intro isEmpty
    simp [isEmpty] at size
  · refine List.Pairwise.sublist (tokens_isPrefix_filterMap policy _).sublist ?_
    rw [List.pairwise_filterMap]
    refine (cover.pairwise).imp_of_mem fun {earlier later} isEarlier _ ends => ?_
    intro first isFirst second isSecond
    have size := cover.size_pos isEarlier
    rw [lexeme_of_token? isFirst] at ends size
    rw [lexeme_of_token? isSecond] at ends
    simp only [Lexeme.EndsBefore] at ends size
    exact ⟨by omega, ends⟩
  · obtain ⟨action, length, matched⟩ := Rule.exists_firstMatch nonempty
    obtain ⟨taken, rest, rfl, rfl, takenNonempty⟩ := Rule.exists_taken matched
    refine ⟨action, _, matched, List.length_pos_iff.mpr takenNonempty, ?_⟩
    simp
  · rw [← String.length_toList]
    exact cover.length_le

end Mel

import Mathlib.Algebra.Group.Nat.Even
import Mel.Proofs.Refusals
import Mel.Proofs.Relexing

/-!
# The two policies

A source is cut into the same lexemes under both policies. The lenient one drops the characters
that no rule knows, the strict one stops at the first of them. So both find the same tokens as
long as nothing is dropped, and that is as long as the source consists of tokens, blanks and
comments. This is said here without the rules: a text of that form is followed through, piece by
piece, and lexing is seen to cut it in the same way.

What is known of a quote depends on what stands behind it: it is dropped if no quote follows that
could close a string. A quote closes a string unless it is escaped, which the backslashes in front
of it tell by their number.
-/

namespace Mel

open Text (isBlank)

/-- The number of backslashes that a text ends with. -/
def endingBackslashes (text : List Char) : Nat :=
  (text.reverse.takeWhile (· = '\\')).length

/-- Does a quote follow that is not escaped? Backslashes escape each other in pairs. -/
def HasClosingQuote (text : List Char) : Prop :=
  ∃ inner rest, text = inner ++ '"' :: rest ∧ Even (endingBackslashes inner)

theorem endingBackslashes_le (text : List Char) : endingBackslashes text ≤ text.length := by
  rw [← text.length_reverse]
  exact (List.takeWhile_prefix _).length_le

/-- What stands in front counts only if there are backslashes from there to the end. -/
theorem endingBackslashes_cons (character : Char) (text : List Char) :
    endingBackslashes (character :: text) =
      if character = '\\' ∧ endingBackslashes text = text.length then text.length + 1
      else endingBackslashes text := by
  have folded : (text.reverse.takeWhile (· = '\\')).length = endingBackslashes text := rfl
  rw [endingBackslashes, List.reverse_cons, List.takeWhile_append, List.length_reverse, folded]
  by_cases whole : endingBackslashes text = text.length
  · by_cases isEscape : character = '\\'
    · rw [if_pos whole, if_pos ⟨isEscape, whole⟩]
      simp [isEscape]
    · rw [if_pos whole, if_neg fun both => isEscape both.1]
      simp [isEscape, whole]
  · rw [if_neg whole, if_neg fun both => whole both.2]
    rfl

/-- A backslash and what it escapes say nothing about what stands behind them. -/
theorem even_endingBackslashes_pair (character : Char) (text : List Char) :
    Even (endingBackslashes ('\\' :: character :: text)) ↔ Even (endingBackslashes text) := by
  have atMost := endingBackslashes_le text
  rw [endingBackslashes_cons, endingBackslashes_cons character, List.length_cons]
  by_cases whole : character = '\\' ∧ endingBackslashes text = text.length
  · rw [if_pos whole, if_pos ⟨rfl, rfl⟩, whole.2, Nat.even_add_one, Nat.even_add_one, not_not]
  · rw [if_neg whole, if_neg fun both => by omega]

namespace Pattern

theorem isSome_closingLength?_iff (text : List Char) :
    (closingLength? text).isSome ↔ HasClosingQuote text := by
  fun_induction closingLength? text with
  | case1 => simp [HasClosingQuote]
  | case2 text => exact iff_of_true rfl ⟨[], text, rfl, Even.zero⟩
  | case3 character text ih =>
      rw [Option.isSome_map, ih]
      constructor
      · rintro ⟨inner, rest, rfl, even⟩
        exact ⟨'\\' :: character :: inner, rest, rfl,
          (even_endingBackslashes_pair character inner).mpr even⟩
      · rintro ⟨inner, rest, isText, even⟩
        rcases inner with _ | ⟨first, _ | ⟨second, inner⟩⟩
        · cases isText
        · cases isText
          exact (Nat.not_even_one even).elim
        · cases isText
          exact ⟨inner, rest, rfl, (even_endingBackslashes_pair character inner).mp even⟩
  | case4 character text notQuote notEscape ih =>
      -- The character is a backslash only at the end of the text, where no quote can follow.
      have skips (inner : List Char) {rest : List Char} (isText : text = inner ++ '"' :: rest) :
          endingBackslashes (character :: inner) = endingBackslashes inner := by
        rw [endingBackslashes_cons, if_neg]
        rintro ⟨isEscape, -⟩
        cases text with
        | nil => simp at isText
        | cons next text => exact notEscape next text isEscape rfl
      rw [Option.isSome_map, ih]
      constructor
      · rintro ⟨inner, rest, isText, even⟩
        refine ⟨character :: inner, rest, congrArg _ isText, ?_⟩
        rwa [skips inner isText]
      · rintro ⟨inner, rest, isText, even⟩
        cases inner with
        | nil => exact (notQuote (List.cons.inj isText).1).elim
        | cons first inner =>
            obtain ⟨rfl, isRest⟩ := List.cons.inj isText
            rw [skips inner isRest] at even
            exact ⟨inner, rest, isRest, even⟩

end Pattern

namespace Rule

theorem firstMatch?_blank {first : Char} (blank : isBlank first) (text : List Char) :
    firstMatch? (first :: text) = some (.skip, (text.takeWhile isBlank).length + 1) := by
  have matched : Pattern.blanks.matchLength? (first :: text) =
      some ((text.takeWhile isBlank).length + 1) := by
    rw [Pattern.matchLength?, Pattern.blanksLength?_eq_some_iff, List.takeWhile_cons_of_pos blank]
    exact ⟨rfl, Nat.succ_ne_zero _⟩
  rw [firstMatch?_cons, rulesFor_blank blank, List.findSome?_cons, matched]
  rfl

end Rule

/-- A comment, without the line feed that ends it. -/
def IsComment (text : List Char) : Prop :=
  ∃ lead line, text = lead ++ '~' :: line ∧ '\n' ∉ line ∧
    (lead = [] ∨ ∃ gap, Pattern.IsGap gap ∧ lead = '>' :: gap)

namespace Rule

theorem takeWhile_line {line rest : List Char} (noFeed : '\n' ∉ line)
    (ends : ∀ character ∈ rest.head?, character = '\n') :
    (line ++ rest).takeWhile (· ≠ '\n') = line := by
  rw [List.takeWhile_append_of_pos]
  · cases rest with
    | nil => rw [List.takeWhile_nil, List.append_nil]
    | cons next rest =>
        rw [List.takeWhile_cons_of_neg (by simp [ends next rfl]), List.append_nil]
  · intro character member
    simp only [ne_eq, decide_eq_true_eq]
    rintro rfl
    exact noFeed member

theorem rulesFor_greater : rulesFor '>' =
    [⟨.skip, .markedComment⟩, token (.outputMany .newestFirst) ">>", token .output ">",
      ⟨.unknown, .anyCharacter⟩] := by
  decide

theorem firstMatch?_comment {text rest : List Char} (isComment : IsComment text)
    (ends : ∀ character ∈ rest.head?, character = '\n') :
    firstMatch? (text ++ rest) = some (.skip, text.length) := by
  obtain ⟨lead, line, rfl, noFeed, rfl | ⟨gap, blank, rfl⟩⟩ := isComment
  · have isLine := takeWhile_line noFeed ends
    have matched : Pattern.lineComment.matchLength? ('~' :: (line ++ rest)) =
        some ('~' :: line).length := by
      rw [Pattern.matchLength?, Pattern.commentLength?_cons, isLine, List.length_cons, Nat.add_comm]
    rw [List.nil_append, List.cons_append, firstMatch?_cons, rulesFor_tilde, List.findSome?_cons,
      matched]
    rfl
  · have isLine := takeWhile_line noFeed ends
    have matched : Pattern.markedComment.matchLength? ('>' :: (gap ++ '~' :: (line ++ rest))) =
        some ('>' :: gap ++ '~' :: line).length := by
      rw [Pattern.matchLength?, Pattern.markedCommentLength?_cons blank, isLine,
        List.cons_append, List.length_cons, List.length_append, List.length_cons]
    rw [List.cons_append, List.cons_append, List.append_assoc, List.cons_append, firstMatch?_cons,
      rulesFor_greater, List.findSome?_cons, matched]
    rfl

theorem pattern_of_skip : ∀ rule ∈ table, rule.action = .skip →
    rule.pattern = .blanks ∨ rule.pattern = .lineComment ∨ rule.pattern = .markedComment := by
  decide

/-- A line that is as long as it can be ends where the text ends or a line feed stands. -/
theorem ends_of_takeWhile {line rest : List Char} (run : line.takeWhile (· ≠ '\n') = line)
    (longest : ((line ++ rest).takeWhile (· ≠ '\n')).length = line.length) :
    '\n' ∉ line ∧ ∀ character ∈ rest.head?, character = '\n' := by
  have inLine : ∀ character ∈ line, character ≠ '\n' := by
    simpa using List.takeWhile_eq_self_iff.mp run
  refine ⟨fun member => inLine _ member rfl, fun character isHead => ?_⟩
  rw [List.takeWhile_append, run, if_pos rfl, List.length_append] at longest
  by_contra notFeed
  cases rest with
  | nil => cases isHead
  | cons next rest =>
      cases isHead
      rw [List.takeWhile_cons_of_pos (by simpa using notFeed), List.length_cons] at longest
      omega

/-- What is skipped are blanks or a comment up to the end of its line. -/
theorem cases_of_skip {taken rest : List Char}
    (matched : firstMatch? (taken ++ rest) = some (.skip, taken.length)) :
    Pattern.IsGap taken ∨
      (IsComment taken ∧ ∀ character ∈ rest.head?, character = '\n') := by
  obtain ⟨rule, isRule, ruleMatched⟩ := List.exists_of_findSome?_eq_some matched
  obtain ⟨length, isLength, isMatch⟩ := Option.map_eq_some_iff.mp ruleMatched
  obtain ⟨isSkip, rfl⟩ := Prod.mk.inj isMatch
  rcases pattern_of_skip rule isRule isSkip with isPattern | isPattern | isPattern
  · rw [isPattern, Pattern.matchLength?, Pattern.blanksLength?_eq_some_iff] at isLength
    have isRun := (List.append_inj List.takeWhile_append_dropWhile isLength.1).1
    rw [← isRun]
    exact .inl (Pattern.isGap_takeWhile _)
  · rw [isPattern, Pattern.matchLength?] at isLength
    obtain ⟨line, later, isText, length, run⟩ := Pattern.exists_comment isLength
    have isText : taken ++ rest = ('~' :: line) ++ later := isText
    obtain ⟨rfl, rfl⟩ := List.append_inj isText length
    rw [List.cons_append, Pattern.commentLength?_cons, Option.some.injEq, List.length_cons,
      Nat.add_comm, Nat.add_right_cancel_iff] at isLength
    obtain ⟨noFeed, ends⟩ := ends_of_takeWhile run isLength
    exact .inr ⟨⟨[], line, rfl, noFeed, .inl rfl⟩, ends⟩
  · rw [isPattern, Pattern.matchLength?] at isLength
    obtain ⟨gap, line, later, isText, length, blank, run⟩ :=
      Pattern.exists_markedComment isLength
    have isSplit : taken ++ rest = ('>' :: gap ++ '~' :: line) ++ later := by simpa using isText
    obtain ⟨rfl, rfl⟩ := List.append_inj isSplit (by simp [length])
    rw [isText, Pattern.markedCommentLength?_cons blank, Option.some.injEq, length,
      Nat.add_right_cancel_iff, Nat.add_left_cancel_iff, Nat.add_right_cancel_iff] at isLength
    obtain ⟨noFeed, ends⟩ := ends_of_takeWhile run isLength
    exact .inr ⟨⟨'>' :: gap, line, rfl, noFeed, .inr ⟨gap, blank, rfl⟩⟩, ends⟩

end Rule

/-- The text consists of the tokens, which stand at their places from a position on, of blanks, and
of comments. A comment reaches to the end of its line. -/
inductive ConsistsOf : Position → List Char → List Token → Prop where
  | nil {position : Position} : ConsistsOf position [] []
  | token {position : Position} {taken rest : List Char} {tokens : List Token} (kind : Kind)
      (behind : ConsistsOf (position.after taken) rest tokens) :
      ConsistsOf position (taken ++ rest) (⟨kind, String.ofList taken, position⟩ :: tokens)
  | blank {position : Position} {character : Char} {rest : List Char} {tokens : List Token}
      (blank : isBlank character) (behind : ConsistsOf (position.next character) rest tokens) :
      ConsistsOf position (character :: rest) tokens
  | comment {position : Position} {text rest : List Char} {tokens : List Token}
      (isComment : IsComment text) (ends : ∀ character ∈ rest.head?, character = '\n')
      (behind : ConsistsOf (position.after text) rest tokens) :
      ConsistsOf position (text ++ rest) tokens

theorem Pattern.IsGap.tail {character : Char} {gap : List Char}
    (blank : Pattern.IsGap (character :: gap)) : Pattern.IsGap gap :=
  fun other member => blank other (List.mem_cons_of_mem _ member)

theorem ConsistsOf.gap {gap : List Char} (blank : Pattern.IsGap gap) {position : Position}
    {rest : List Char} {tokens : List Token}
    (behind : ConsistsOf (position.after gap) rest tokens) :
    ConsistsOf position (gap ++ rest) tokens := by
  induction gap generalizing position with
  | nil => exact behind
  | cons character gap ih =>
      exact .blank (blank character List.mem_cons_self) (ih blank.tail behind)

/-- A text of which all lexemes are known consists of its tokens, blanks and comments. -/
theorem Cover.consistsOf {position : Position} {text : List Char} {lexemes : List Lexeme}
    (cover : Cover position text lexemes)
    (known : ∀ lexeme ∈ lexemes, lexeme.action ≠ .unknown) :
    ConsistsOf position text (lexemes.filterMap Lexeme.token?) := by
  induction cover with
  | nil => exact .nil
  | @cons position taken rest action lexemes nonempty matched later ih =>
      have consists := ih fun lexeme member => known lexeme (List.mem_cons_of_mem _ member)
      cases action with
      | emit kind => exact .token kind consists
      | skip =>
          rcases Rule.cases_of_skip matched with blank | ⟨isComment, ends⟩
          · exact .gap blank consists
          · exact .comment isComment ends consists
      | unknown => exact (known _ List.mem_cons_self rfl).elim

/-- The lexemes of a text that are not skipped. -/
def shown (position : Position) (text : List Char) : List Lexeme :=
  (lexemesFrom position text).filter (·.action ≠ .skip)

theorem exists_lexemesFrom {text : List Char} (nonempty : text ≠ []) (position : Position) :
    ∃ action taken rest, text = taken ++ rest ∧ taken ≠ [] ∧
      lexemesFrom position text =
        ⟨action, String.ofList taken, position⟩ :: lexemesFrom (position.after taken) rest := by
  obtain ⟨action, length, matched⟩ := Rule.exists_firstMatch nonempty
  obtain ⟨taken, rest, rfl, rfl, takenNonempty⟩ := Rule.exists_taken matched
  exact ⟨action, taken, rest, rfl, takenNonempty, lexemesFrom_append takenNonempty matched⟩

theorem filterMap_token?_shown (position : Position) (text : List Char) :
    (shown position text).filterMap Lexeme.token? =
      (lexemesFrom position text).filterMap Lexeme.token? := by
  have dropsSkipped : (fun lexeme : Lexeme =>
      if decide (lexeme.action ≠ .skip) = true then lexeme.token? else none) = Lexeme.token? := by
    funext lexeme
    cases isAction : lexeme.action <;> simp [Lexeme.token?, isAction]
  rw [shown, List.filterMap_filter, dropsSkipped]

theorem shown_skip {position : Position} {taken rest : List Char} (nonempty : taken ≠ [])
    (matched : Rule.firstMatch? (taken ++ rest) = some (.skip, taken.length)) :
    shown position (taken ++ rest) = shown (position.after taken) rest := by
  rw [shown, lexemesFrom_append nonempty matched]
  rfl

theorem shown_run (position : Position) (text : List Char) :
    shown position text =
      shown (position.after (text.takeWhile isBlank)) (text.dropWhile isBlank) := by
  cases text with
  | nil => rfl
  | cons character text =>
      by_cases blank : isBlank character
      · have isText := List.takeWhile_append_dropWhile (p := isBlank) (l := character :: text)
        have matched : Rule.firstMatch? ((character :: text).takeWhile isBlank ++
            (character :: text).dropWhile isBlank) =
              some (.skip, ((character :: text).takeWhile isBlank).length) := by
          rw [isText, Rule.firstMatch?_blank blank, List.takeWhile_cons_of_pos blank,
            List.length_cons]
        have nonempty : (character :: text).takeWhile isBlank ≠ [] := by
          rw [List.takeWhile_cons_of_pos blank]
          exact List.cons_ne_nil _ _
        rw [← shown_skip nonempty matched, isText]
      · rw [List.takeWhile_cons_of_neg blank, List.dropWhile_cons_of_neg blank, Position.after_nil]

/-- Blanks can be taken one by one. -/
theorem shown_blank {character : Char} (blank : isBlank character) (position : Position)
    (rest : List Char) :
    shown position (character :: rest) = shown (position.next character) rest := by
  rw [shown_run position, List.takeWhile_cons_of_pos blank, List.dropWhile_cons_of_pos blank,
    Position.after_cons, ← shown_run]

theorem shown_nil (position : Position) : shown position [] = [] := by
  rw [shown, lexemesFrom, List.filter_nil]

/-- The lexeme that a token is. -/
def Token.lexeme (token : Token) : Lexeme :=
  ⟨.emit token.kind, token.text, token.position⟩

theorem shown_gap {gap : List Char} (blank : Pattern.IsGap gap) (position : Position)
    (rest : List Char) :
    shown position (gap ++ rest) = shown (position.after gap) rest := by
  induction gap generalizing position with
  | nil => rfl
  | cons character gap ih =>
      rw [List.cons_append, shown_blank (blank character List.mem_cons_self), ih blank.tail,
        Position.after_cons]

theorem shown_token {position : Position} {taken rest : List Char} {kind : Kind}
    (nonempty : taken ≠ [])
    (matched : Rule.firstMatch? (taken ++ rest) = some (.emit kind, taken.length)) :
    shown position (taken ++ rest) =
      Token.lexeme ⟨kind, String.ofList taken, position⟩ :: shown (position.after taken) rest := by
  rw [shown, lexemesFrom_append nonempty matched]
  rfl

theorem offset_lt_of_token {position : Position} {taken rest : List Char} (nonempty : taken ≠ [])
    {token : Token}
    (member : token ∈ (lexemesFrom (position.after taken) rest).filterMap Lexeme.token?) :
    position.offset < token.position.offset := by
  obtain ⟨lexeme, isLexeme, isToken⟩ := List.mem_filterMap.mp member
  have le := (cover_lexemesFrom (position.after taken) rest).offset_le isLexeme
  have positive : 0 < (String.ofList taken).utf8ByteSize := by
    rw [Nat.pos_iff_ne_zero, Ne, String.utf8ByteSize_eq_zero_iff, ← String.toList_inj]
    simpa using nonempty
  rw [lexeme_of_token? isToken, Position.offset_after] at le
  exact Nat.lt_of_lt_of_le (Nat.lt_add_of_pos_right positive) le

/-- The first lexeme is the first token if that stands where the text starts. -/
theorem lexemesFrom_of_token {position : Position} {text : List Char} {token : Token}
    {tokens : List Token}
    (isTokens : (lexemesFrom position text).filterMap Lexeme.token? = token :: tokens)
    (starts : token.position = position) :
    ∃ rest, text = token.text.toList ++ rest ∧
      lexemesFrom position text = ⟨.emit token.kind, token.text, position⟩ ::
        lexemesFrom (position.after token.text.toList) rest := by
  have nonempty : text ≠ [] := by
    rintro rfl
    simp [lexemesFrom] at isTokens
  obtain ⟨action, taken, rest, rfl, takenNonempty, isLexemes⟩ :=
    exists_lexemesFrom nonempty position
  rw [isLexemes, List.filterMap_cons] at isTokens
  -- What is no token leaves the first token to stand further behind.
  have noLater : (lexemesFrom (position.after taken) rest).filterMap Lexeme.token? ≠
      token :: tokens := by
    intro isLater
    have less := offset_lt_of_token takenNonempty (isLater ▸ List.mem_cons_self)
    rw [starts] at less
    exact Nat.lt_irrefl _ less
  cases action with
  | emit kind =>
      obtain ⟨rfl, -⟩ := List.cons.inj isTokens
      exact ⟨rest, by rw [String.toList_ofList], by rw [isLexemes, String.toList_ofList]⟩
  | skip => exact (noLater isTokens).elim
  | unknown => exact (noLater isTokens).elim

/-- If a text consists of the tokens that are found in it, blanks and comments, then all of its
lexemes are known. -/
theorem ConsistsOf.known {position : Position} {text : List Char} {tokens : List Token}
    (consists : ConsistsOf position text tokens)
    (isTokens : (shown position text).filterMap Lexeme.token? = tokens) :
    ∀ lexeme ∈ shown position text, lexeme.action ≠ .unknown := by
  induction consists with
  | nil =>
      intro lexeme member
      simp [shown, lexemesFrom] at member
  | @token position taken rest tokens kind behind ih =>
      rw [filterMap_token?_shown] at isTokens
      obtain ⟨later, isText, isLexemes⟩ := lexemesFrom_of_token isTokens rfl
      rw [String.toList_ofList] at isText isLexemes
      obtain rfl := List.append_cancel_left isText
      have isShown : shown position (taken ++ rest) =
          ⟨.emit kind, String.ofList taken, position⟩ :: shown (position.after taken) rest := by
        rw [shown, isLexemes]
        rfl
      rw [isLexemes, List.filterMap_cons] at isTokens
      rw [isShown, List.forall_mem_cons]
      refine ⟨Action.noConfusion, ih ?_⟩
      rw [filterMap_token?_shown]
      exact (List.cons.inj isTokens).2
  | blank blank behind ih =>
      rw [shown_blank blank] at isTokens ⊢
      exact ih isTokens
  | @comment position text rest tokens isComment ends behind ih =>
      have nonempty : text ≠ [] := by
        obtain ⟨lead, line, rfl, -⟩ := isComment
        simp
      rw [shown_skip nonempty (Rule.firstMatch?_comment isComment ends)] at isTokens ⊢
      exact ih isTokens

theorem ofLexemes_lenient (lexemes : List Lexeme) :
    Lexing.ofLexemes .lenient lexemes = ⟨lexemes.filterMap Lexeme.token?, none⟩ := by
  induction lexemes with
  | nil => rfl
  | cons lexeme later ih =>
      cases isAction : lexeme.action <;>
        simp [Lexing.ofLexemes, Lexing.cons, Lexeme.token?, isAction, ih]

theorem ofLexemes_strict_of_known {lexemes : List Lexeme}
    (known : ∀ lexeme ∈ lexemes, lexeme.action ≠ .unknown) (behind : List Lexeme) :
    Lexing.ofLexemes .strict (lexemes ++ behind) =
      { Lexing.ofLexemes .strict behind with
        tokens :=
          lexemes.filterMap Lexeme.token? ++ (Lexing.ofLexemes .strict behind).tokens } := by
  induction lexemes with
  | nil => rfl
  | cons lexeme later ih =>
      rw [List.forall_mem_cons] at known
      cases isAction : lexeme.action with
      | unknown => exact (known.1 isAction).elim
      | _ => simp [Lexing.ofLexemes, Lexing.cons, Lexeme.token?, isAction, ih known.2]

/-- The characters that the lenient policy drops. -/
def discarded (source : String) : List Lexeme :=
  (lexemes source).filter (·.action = .unknown)

theorem discarded_eq_nil_iff (source : String) :
    discarded source = [] ↔ ∀ lexeme ∈ lexemes source, lexeme.action ≠ .unknown := by
  simp [discarded, List.filter_eq_nil_iff]

/-- Nothing is dropped from a source if and only if it consists of tokens, blanks and comments. -/
theorem discarded_eq_nil_iff_consistsOf (source : String) :
    discarded source = [] ↔
      ConsistsOf .start source.toList (tokenize .lenient source).tokens := by
  rw [discarded_eq_nil_iff, tokenize, ofLexemes_lenient]
  refine ⟨(cover_lexemes source).consistsOf, fun consists lexeme member unknown => ?_⟩
  have isShown : lexeme ∈ shown .start source.toList :=
    List.mem_filter.mpr ⟨member, by simp [unknown]⟩
  exact consists.known (filterMap_token?_shown _ _) lexeme isShown unknown

/-- Where a lexeme stands in a text, the first match is that lexeme. -/
theorem Cover.exists_split {position : Position} {text : List Char} {lexemes : List Lexeme}
    (cover : Cover position text lexemes) {lexeme : Lexeme} (member : lexeme ∈ lexemes) :
    ∃ before behind, text = before ++ (lexeme.text.toList ++ behind) ∧
      lexeme.position = position.after before ∧
      Rule.firstMatch? (lexeme.text.toList ++ behind) =
        some (lexeme.action, lexeme.text.toList.length) := by
  induction cover with
  | nil => cases member
  | @cons position taken rest action lexemes nonempty matched later ih =>
      rcases List.mem_cons.mp member with rfl | member
      · refine ⟨[], rest, ?_, rfl, ?_⟩
        · rw [String.toList_ofList, List.nil_append]
        · rwa [String.toList_ofList]
      · obtain ⟨before, behind, isRest, isPlace, matched⟩ := ih member
        refine ⟨taken ++ before, behind, ?_, ?_, matched⟩
        · rw [List.append_assoc, ← isRest]
        · rw [isPlace, Position.after_append]

/-- Two texts that a source begins with are the same if they end at the same place. -/
theorem eq_of_behind_eq {before before' behind behind' : List Char}
    (same : before ++ behind = before' ++ behind')
    (samePlace : Position.behind (String.ofList before) = .behind (String.ofList before')) :
    before = before' ∧ behind = behind' := by
  have sameSize : (String.ofList before).utf8ByteSize = (String.ofList before').utf8ByteSize :=
    congrArg Position.offset samePlace
  have isNil (excess : List Char) (noSize : (String.ofList excess).utf8ByteSize = 0) :
      excess = [] := by
    rw [String.utf8ByteSize_eq_zero_iff, ← String.toList_inj] at noSize
    simpa using noSize
  rcases List.append_eq_append_iff.mp same with ⟨excess, rfl, rfl⟩ | ⟨excess, rfl, rfl⟩
  · rw [String.ofList_append, String.utf8ByteSize_append] at sameSize
    rw [isNil excess (by omega), List.append_nil, List.nil_append]
    exact ⟨rfl, rfl⟩
  · rw [String.ofList_append, String.utf8ByteSize_append] at sameSize
    rw [isNil excess (by omega), List.append_nil, List.nil_append]
    exact ⟨rfl, rfl⟩

/-- No rule knows a quote that no quote behind it closes. -/
theorem Rule.unknown_quote_iff {text : List Char} {action : Action} {length : Nat}
    (matched : firstMatch? ('"' :: text) = some (action, length)) :
    action = .unknown ↔ ¬HasClosingQuote text := by
  rw [firstMatch?_cons, rulesFor_quote, List.findSome?_cons, Pattern.matchLength?,
    Pattern.stringLength?] at matched
  rw [← Pattern.isSome_closingLength?_iff]
  cases isLength : Pattern.closingLength? text with
  | some closing =>
      rw [isLength] at matched
      cases matched
      simp
  | none =>
      rw [isLength] at matched
      cases matched
      simp

theorem Lexeme.error_of_text {lexeme : Lexeme} {character : Char}
    (isText : lexeme.text = String.ofList [character]) :
    lexeme.error = if character = '"' then .unterminatedString lexeme.position
      else .unexpectedCharacter character lexeme.position := by
  rw [error, isText, String.toList_ofList]
  split
  · rename_i isHead
    rw [if_pos (List.cons.inj isHead).1]
  · rename_i isNil
    cases isNil
  · rename_i notQuote isHead
    obtain ⟨rfl, -⟩ := List.cons.inj isHead
    rw [if_neg notQuote]

/-- The tokens of the lexemes in front of one are those that start in front of it. -/
theorem Cover.filter_tokens {position : Position} {text : List Char}
    {earlier later : List Lexeme} {lexeme : Lexeme}
    (cover : Cover position text (earlier ++ lexeme :: later))
    (unknown : lexeme.action = .unknown) :
    ((earlier ++ lexeme :: later).filterMap Lexeme.token?).filter
        (fun token => token.position.offset < lexeme.position.offset) =
      earlier.filterMap Lexeme.token? := by
  have apart := List.pairwise_append.mp cover.pairwise
  have isNone : lexeme.token? = none := by rw [Lexeme.token?, unknown]
  have before : ∀ token ∈ earlier.filterMap Lexeme.token?,
      token.position.offset < lexeme.position.offset := by
    intro token member
    obtain ⟨other, isEarlier, isToken⟩ := List.mem_filterMap.mp member
    have size := cover.size_pos (List.mem_append_left _ isEarlier)
    have ends := apart.2.2 other isEarlier lexeme List.mem_cons_self
    rw [lexeme_of_token? isToken] at ends size
    simp only [Lexeme.EndsBefore] at ends size
    omega
  have notBefore : ∀ token ∈ later.filterMap Lexeme.token?,
      ¬token.position.offset < lexeme.position.offset := by
    intro token member
    obtain ⟨other, isLater, isToken⟩ := List.mem_filterMap.mp member
    have ends := (List.pairwise_cons.mp apart.2.1).1 other isLater
    rw [lexeme_of_token? isToken] at ends
    simp only [Lexeme.EndsBefore] at ends
    omega
  rw [List.filterMap_append, List.filterMap_cons, isNone, List.filter_append,
    List.filter_eq_self.mpr (by simpa using before),
    List.filter_eq_nil_iff.mpr (by simpa using notBefore), List.append_nil]

/-- The strict policy stops at the first character that the lenient one drops. -/
theorem strict_of_discarded_cons {source : String} {first : Lexeme} {later : List Lexeme}
    (isFirst : discarded source = first :: later) :
    tokenize .strict source =
      ⟨(tokenize .lenient source).tokens.filter
        (·.position.offset < first.position.offset), some first.error⟩ := by
  obtain ⟨known, others, isLexemes, noneUnknown, unknown, -⟩ := List.filter_eq_cons_iff.mp isFirst
  have unknown : first.action = .unknown := of_decide_eq_true unknown
  have allKnown : ∀ lexeme ∈ known, lexeme.action ≠ .unknown := by simpa using noneUnknown
  have cover := cover_lexemes source
  rw [isLexemes] at cover
  have stops : Lexing.ofLexemes .strict (first :: others) = ⟨[], some first.error⟩ := by
    simp only [Lexing.ofLexemes, unknown, Lexing.stopped]
  rw [tokenize, tokenize, ofLexemes_lenient, isLexemes, cover.filter_tokens unknown,
    ofLexemes_strict_of_known allKnown, stops, List.append_nil]

theorem strict_of_discarded_nil {source : String} (nothing : discarded source = []) :
    tokenize .strict source = tokenize .lenient source := by
  have isStrict := ofLexemes_strict_of_known ((discarded_eq_nil_iff source).mp nothing) []
  rw [List.append_nil] at isStrict
  rw [tokenize, tokenize, ofLexemes_lenient, isStrict, Lexing.ofLexemes, Lexing.done,
    List.append_nil]

/-- Where all that is shown are tokens, both policies find these tokens. -/
theorem tokenize_of_shown {source : String} {tokens : List Token}
    (isShown : shown .start source.toList = tokens.map Token.lexeme) (policy : Policy) :
    tokenize policy source = ⟨tokens, none⟩ := by
  have isLenient : tokenize .lenient source = ⟨tokens, none⟩ := by
    have isTokens : tokens.filterMap (Lexeme.token? ∘ Token.lexeme) = tokens :=
      List.filterMap_some
    rw [tokenize, ofLexemes_lenient, lexemes, ← filterMap_token?_shown, isShown,
      List.filterMap_map, isTokens]
  cases policy with
  | lenient => exact isLenient
  | strict =>
      rw [strict_of_discarded_nil ?_, isLenient]
      rw [discarded_eq_nil_iff]
      intro lexeme member unknown
      have isShownLexeme : lexeme ∈ shown .start source.toList :=
        List.mem_filter.mpr ⟨member, by simp [unknown]⟩
      rw [isShown, List.mem_map] at isShownLexeme
      obtain ⟨token, -, rfl⟩ := isShownLexeme
      cases unknown

/-- A lexeme that begins with a quote is dropped if and only if no quote closes it. -/
theorem mem_discarded_quote_iff {source before behind : String}
    (isSource : source = before ++ "\"" ++ behind) {lexeme : Lexeme}
    (member : lexeme ∈ lexemes source) (isPlace : lexeme.position = .behind before) :
    lexeme ∈ discarded source ↔ ¬HasClosingQuote behind.toList := by
  obtain ⟨front, rest, isText, place, matched⟩ := (cover_lexemes source).exists_split member
  rw [Position.after_start, isPlace, ← before.ofList_toList] at place
  have isSplit : before.toList ++ '"' :: behind.toList = front ++ (lexeme.text.toList ++ rest) := by
    rw [← isText, isSource]
    simp
  rw [← (eq_of_behind_eq isSplit place).2] at matched
  rw [← Rule.unknown_quote_iff matched, discarded, List.mem_filter, decide_eq_true_eq]
  exact and_iff_right member

/-- A character that is dropped, and all that is around it. -/
theorem exists_character_of_mem_discarded {source : String} {lexeme : Lexeme}
    (dropped : lexeme ∈ discarded source) :
    ∃ before character behind, source = before ++ String.ofList [character] ++ behind ∧
      lexeme.position = .behind before ∧ lexeme.text = String.ofList [character] := by
  obtain ⟨member, unknown⟩ := List.mem_filter.mp dropped
  obtain ⟨character, isText⟩ :=
    (cover_lexemes source).text_of_unknown member (of_decide_eq_true unknown)
  obtain ⟨before, behind, isSource, isPlace⟩ := standsAt_of_mem_lexemes member
  rw [isText] at isSource
  exact ⟨before, character, behind, isSource, isPlace, isText⟩

/-- The strict policy succeeds if and only if the lenient one drops nothing, which is if the source
consists of tokens, blanks and comments. Then both find the same tokens. Where the strict policy
fails, it does so at the first character that is dropped, with the tokens in front of it found. A
quote is dropped if and only if no quote that is not escaped follows it, and only such a quote is
reported as an unterminated string. -/
theorem strict_stops_where_lenient_drops (source : String) :
    ((tokenize .strict source).failure = none ↔ discarded source = []) ∧
    (discarded source = [] ↔
      ConsistsOf .start source.toList (tokenize .lenient source).tokens) ∧
    ((tokenize .strict source).failure = none →
      (tokenize .strict source).tokens = (tokenize .lenient source).tokens) ∧
    (∀ error, (tokenize .strict source).failure = some error →
      ∃ first later before character behind, discarded source = first :: later ∧
        source = before ++ String.ofList [character] ++ behind ∧
        first.text = String.ofList [character] ∧ first.position = .behind before ∧
        (error = if character = '"' then .unterminatedString (.behind before)
          else .unexpectedCharacter character (.behind before)) ∧
        (tokenize .strict source).tokens = (tokenize .lenient source).tokens.filter
          (·.position.offset < error.position.offset)) ∧
    (∀ before behind, source = before ++ "\"" ++ behind →
      ∀ lexeme ∈ lexemes source, lexeme.position = .behind before →
        (lexeme ∈ discarded source ↔ ¬HasClosingQuote behind.toList)) := by
  have succeeds (nothing : discarded source = []) :
      tokenize .strict source = ⟨(tokenize .lenient source).tokens, none⟩ := by
    rw [strict_of_discarded_nil nothing, tokenize, ofLexemes_lenient]
  have failure_eq_none_iff :
      (tokenize .strict source).failure = none ↔ discarded source = [] := by
    refine ⟨fun noFailure => ?_, fun nothing => by rw [succeeds nothing]⟩
    cases isDiscarded : discarded source with
    | nil => rfl
    | cons first later =>
        rw [strict_of_discarded_cons isDiscarded] at noFailure
        cases noFailure
  refine ⟨failure_eq_none_iff, discarded_eq_nil_iff_consistsOf source, fun noFailure => ?_,
    fun error failed => ?_, fun before behind isSource lexeme member isPlace =>
      mem_discarded_quote_iff isSource member isPlace⟩
  · rw [succeeds (failure_eq_none_iff.mp noFailure)]
  · cases isDiscarded : discarded source with
    | nil =>
        rw [succeeds isDiscarded] at failed
        cases failed
    | cons first later =>
        obtain ⟨before, character, behind, isSource, isPlace, isText⟩ :=
          exists_character_of_mem_discarded (isDiscarded ▸ List.mem_cons_self)
        rw [strict_of_discarded_cons isDiscarded, Option.some.injEq] at failed
        have isError := Lexeme.error_of_text isText
        have errorPlace : error.position = first.position := by
          rw [← failed, isError]
          split <;> rfl
        refine ⟨first, later, before, character, behind, rfl, isSource, isText, isPlace, ?_, ?_⟩
        · rw [← failed, isError, isPlace]
        · rw [strict_of_discarded_cons isDiscarded, errorPlace]

/-- What stands behind a quote that nothing closes is found as code by the lenient policy only. -/
example : tokenize .strict "a \"b" = ⟨[⟨.identifier, "a", ⟨0, 1, 1⟩⟩],
      some (.unterminatedString ⟨2, 1, 3⟩)⟩ ∧
    (tokenize .lenient "a \"b").tokens.map (·.text) = ["a", "b"] := by
  decide +kernel

end Mel

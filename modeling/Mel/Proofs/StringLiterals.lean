import Mel.Proofs.Places
import Mel.Proofs.Reading
import Mel.Proofs.Relexing

/-!
# String literals

Every text has a literal: its characters between quotes, with a backslash in front of quotes and
backslashes. The quote that closes the literal is found at its end, since a backslash takes the
character behind it along, and the backslashes stand in pairs or in front of quotes.

What follows a literal is cut up as if it stood alone. Rules do not look behind, so that only the
positions differ: those in the first line are moved by the columns in front of them, and all of them
by the lines and the bytes.
-/

namespace Mel

namespace Position

/-- A place in a text, where this text itself stands at `base`. -/
def moved (base position : Position) : Position where
  offset := base.offset + position.offset
  line := base.line + position.line - 1
  column := if position.line = 1 then base.column + position.column - 1 else position.column

/-- Lines and columns are counted from one. -/
def IsCounted (position : Position) : Prop :=
  1 ≤ position.line ∧ 1 ≤ position.column

variable {position : Position}

theorem isCounted_start : start.IsCounted :=
  ⟨Nat.le_refl 1, Nat.le_refl 1⟩

theorem IsCounted.next (counted : position.IsCounted) (character : Char) :
    (position.next character).IsCounted := by
  rw [Position.next]
  split
  · exact ⟨Nat.le_add_left 1 _, Nat.le_refl 1⟩
  · exact ⟨counted.1, Nat.le_add_left 1 _⟩

theorem IsCounted.after (counted : position.IsCounted) (text : List Char) :
    (position.after text).IsCounted := by
  induction text generalizing position with
  | nil => exact counted
  | cons character text ih => exact ih (counted.next character)

theorem IsCounted.moved_next (counted : position.IsCounted) (base : Position) (character : Char) :
    (base.moved position).next character = base.moved (position.next character) := by
  obtain ⟨someLine, someColumn⟩ := counted
  by_cases isFeed : character = '\n'
  · have notFirst : position.line + 1 ≠ 1 := by omega
    simp only [Position.next, moved, if_pos isFeed, if_neg notFirst, Position.mk.injEq, and_true]
    omega
  · simp only [Position.next, moved, if_neg isFeed, Position.mk.injEq, true_and]
    split <;> omega

theorem IsCounted.moved_after (counted : position.IsCounted) (base : Position) (text : List Char) :
    (base.moved position).after text = base.moved (position.after text) := by
  induction text generalizing position with
  | nil => rfl
  | cons character text ih => rw [after_cons, counted.moved_next, ih (counted.next character)]; rfl

end Position

def Lexeme.moved (base : Position) (lexeme : Lexeme) : Lexeme :=
  { lexeme with position := base.moved lexeme.position }

def Token.moved (base : Position) (token : Token) : Token :=
  { token with position := base.moved token.position }

def LexError.moved (base : Position) : LexError → LexError
  | .unexpectedCharacter character position => .unexpectedCharacter character (base.moved position)
  | .unterminatedString position => .unterminatedString (base.moved position)

/-- What is found in a text that stands at `base`. -/
def Lexing.moved (base : Position) (lexing : Lexing) : Lexing where
  tokens := lexing.tokens.map (Token.moved base)
  failure := lexing.failure.map (LexError.moved base)

theorem Cover.moved {position : Position} {text : List Char} {lexemes : List Lexeme}
    (cover : Cover position text lexemes) (counted : position.IsCounted) (base : Position) :
    Cover (base.moved position) text (lexemes.map (Lexeme.moved base)) := by
  induction cover with
  | nil => exact .nil
  | cons nonempty matched _ ih =>
      refine .cons nonempty matched ?_
      rw [counted.moved_after]
      exact ih (counted.after _)

/-- A text is cut up in the same way wherever it stands. -/
theorem lexemesFrom_eq_map_moved (base : Position) (text : List Char) :
    lexemesFrom base text = (lexemesFrom .start text).map (Lexeme.moved base) :=
  ((cover_lexemesFrom .start text).moved Position.isCounted_start base).eq_lexemesFrom.symm

theorem Lexeme.error_moved (base : Position) (lexeme : Lexeme) :
    (lexeme.moved base).error = lexeme.error.moved base := by
  simp only [error, moved]
  split <;> rfl

theorem Lexing.ofLexemes_map_moved (policy : Policy) (base : Position) (lexemes : List Lexeme) :
    ofLexemes policy (lexemes.map (Lexeme.moved base)) =
      (ofLexemes policy lexemes).moved base := by
  induction lexemes with
  | nil => rfl
  | cons lexeme later ih =>
      obtain ⟨action, text, position⟩ := lexeme
      rw [List.map_cons]
      cases action with
      | emit kind => exact congrArg (cons _) ih
      | skip => exact ih
      | unknown =>
          cases policy with
          | lenient => exact ih
          | strict => exact congrArg stopped (Lexeme.error_moved base _)

/-- A text that begins with a token goes on behind it as if the rest stood alone. -/
theorem tokenize_append (policy : Policy) {taken behind : String} {kind : Kind}
    (nonempty : taken.toList ≠ [])
    (matched : Rule.firstMatch? (taken.toList ++ behind.toList) =
      some (.emit kind, taken.toList.length)) :
    tokenize policy (taken ++ behind) =
      ((tokenize policy behind).moved (.behind taken)).cons ⟨kind, taken, .start⟩ := by
  have isBehind : Position.start.after taken.toList = .behind taken := by
    rw [Position.after_start, String.ofList_toList]
  rw [tokenize, lexemes, String.toList_append, lexemesFrom_append nonempty matched, isBehind,
    lexemesFrom_eq_map_moved, String.ofList_toList]
  exact congrArg (Lexing.cons _) (Lexing.ofLexemes_map_moved policy _ _)

/-- The closing quote is the one behind the text, however many backslashes stand in front of it. -/
theorem Pattern.closingLength?_tokenCharacters (content rest : List Char) :
    closingLength? (content.flatMap Text.tokenCharacters ++ '"' :: rest) =
      some ((content.flatMap Text.tokenCharacters).length + 1) := by
  induction content with
  | nil => rfl
  | cons character content ih =>
      rw [List.flatMap_cons, List.append_assoc]
      by_cases special : character = '"' ∨ character = '\\'
      · rw [Text.tokenCharacters, if_pos special, List.cons_append, List.cons_append,
          List.nil_append, closingLength?, ih]
        rfl
      · rw [not_or] at special
        rw [Text.tokenCharacters, if_neg (not_or.mpr special), List.singleton_append,
          closingLength?_cons special.1 special.2, ih]
        rfl

theorem Text.toList_toStringToken (content : String) :
    (toStringToken content).toList = '"' :: (content.toList.flatMap tokenCharacters ++ ['"']) := by
  rw [toStringToken, String.toList_ofList, List.cons_append]

theorem Rule.firstMatch?_toStringToken (content : String) (rest : List Char) :
    firstMatch? ((Text.toStringToken content).toList ++ rest) =
      some (.emit .string, (Text.toStringToken content).toList.length) := by
  have matched : Pattern.string.matchLength?
      ('"' :: (content.toList.flatMap Text.tokenCharacters ++ '"' :: rest)) =
        some ((content.toList.flatMap Text.tokenCharacters).length + 1 + 1) := by
    rw [Pattern.matchLength?, Pattern.stringLength?, Pattern.closingLength?_tokenCharacters]
    rfl
  rw [Text.toList_toStringToken, List.cons_append, List.append_assoc, List.singleton_append,
    firstMatch?_cons, rulesFor_quote, List.findSome?_cons, matched, List.length_cons,
    List.length_append]
  rfl

/-- The literal is one token, and what is behind it is cut up as if it stood alone. -/
theorem tokenize_toStringToken_append (policy : Policy) (content behind : String) :
    tokenize policy (Text.toStringToken content ++ behind) =
      ((tokenize policy behind).moved (.behind (Text.toStringToken content))).cons
        ⟨.string, Text.toStringToken content, .start⟩ := by
  refine tokenize_append policy ?_ (Rule.firstMatch?_toStringToken content behind.toList)
  rw [Text.toList_toStringToken]
  exact List.cons_ne_nil _ _

/-- For every text there is a literal, and it is the text with a backslash in front of each quote
and each backslash, between two quotes. Under both policies and whatever is behind it, it is one
token, and the tokens of the rest follow it, with the places moved, or what stopped the search for
them. Read as an expression, it is the text. -/
theorem string_literals_denote_their_texts (policy : Policy) (content behind : String) :
    let literal := Text.toStringToken content
    tokenize policy (literal ++ behind) =
      ((tokenize policy behind).moved (.behind literal)).cons ⟨.string, literal, .start⟩ ∧
    readExpression policy literal = .ok (.string content) := by
  intro literal
  refine ⟨tokenize_toStringToken_append policy content behind, ?_⟩
  have isToken : tokenize policy literal = ⟨[⟨.string, literal, .start⟩], none⟩ := by
    have alone := tokenize_toStringToken_append policy content ""
    have nothing : tokenize policy "" = ⟨[], none⟩ := by
      rw [tokenize, lexemes, String.toList_empty, lexemesFrom]
      rfl
    rw [String.append_empty, nothing] at alone
    exact alone
  have isExpression : Parser.expression 2 [⟨.string, literal, .start⟩] =
      .ok (.string content, []) := by
    refine Parser.expression_of_primary ?_ Kind.noConfusion ⟨rfl, rfl⟩
    rw [Parser.primary, Text.ofStringToken_toStringToken]
  rw [readExpression, readSource, isToken]
  simp only [parseExpression, Parser.run, Parser.enoughFuel, List.length_singleton]
  rw [isExpression]
  rfl

end Mel

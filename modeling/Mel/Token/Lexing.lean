import Mel.Token.Rule

/-!
# Lexing

A source is first cut into lexemes, which cover it without a gap: each lexeme is
what the first matching rule takes at the place where the one before ended.
Tokens are the lexemes that some kind was given to; comments and blanks go.

What happens to a character that no rule knows is a matter of policy. The
lenient policy drops it. The strict one stops there, and takes a quote that
opens no closed string for an unterminated string.
-/

namespace Mel

/-- What to do with a character that no rule knows. -/
inductive Policy where
  | lenient
  | strict
deriving DecidableEq, Repr

def Policy.ofStrict (strict : Bool) : Policy :=
  if strict then .strict else .lenient

/-- A stretch of the source that one rule took. -/
structure Lexeme where
  action : Action
  text : String
  position : Position
deriving DecidableEq, Repr

inductive LexError where
  | unexpectedCharacter (character : Char) (position : Position)
  | unterminatedString (position : Position)
deriving DecidableEq, Repr

/-- The tokens found, and what stopped the search for more. -/
structure Lexing where
  tokens : List Token
  failure : Option LexError
deriving DecidableEq, Repr

/-- Cuts a text that starts at `position` into the lexemes that cover it. -/
def lexemesFrom (position : Position) : (text : List Char) → List Lexeme
  | [] => []
  | first :: text =>
      let (action, length) := (Rule.firstMatch? (first :: text)).getD (.unknown, 1)
      let taken := first :: text.take (length - 1)
      ⟨action, String.ofList taken, position⟩
        :: lexemesFrom (position.after taken) (text.drop (length - 1))
termination_by text => text.length
decreasing_by simp only [List.length_drop, List.length_cons]; omega

def lexemes (source : String) : List Lexeme :=
  lexemesFrom .start source.toList

/-- The complaint about a lexeme that no rule knows. -/
def Lexeme.error (lexeme : Lexeme) : LexError :=
  match lexeme.text.toList with
  | '"' :: _ | [] => .unterminatedString lexeme.position
  | character :: _ => .unexpectedCharacter character lexeme.position

namespace Lexing

def done : Lexing := ⟨[], none⟩

def stopped (error : LexError) : Lexing := ⟨[], some error⟩

def cons (token : Token) (lexing : Lexing) : Lexing :=
  { lexing with tokens := token :: lexing.tokens }

/-- Keeps the lexemes that are tokens, up to the first that the policy refuses. -/
def ofLexemes (policy : Policy) : List Lexeme → Lexing
  | [] => done
  | lexeme :: later =>
      match lexeme.action, policy with
      | .emit kind, _ => cons ⟨kind, lexeme.text, lexeme.position⟩ (ofLexemes policy later)
      | .skip, _ | .unknown, .lenient => ofLexemes policy later
      | .unknown, .strict => stopped lexeme.error

end Lexing

/-- All tokens of a source under a policy. -/
def tokenize (policy : Policy) (source : String) : Lexing :=
  Lexing.ofLexemes policy (lexemes source)

namespace LexError

def position : LexError → Position
  | .unexpectedCharacter _ position => position
  | .unterminatedString position => position

def message : LexError → String
  | .unexpectedCharacter character _ => "Unexpected character '" ++ character.toString ++ "'"
  | .unterminatedString _ => "unterminated double quote string"

end LexError

end Mel

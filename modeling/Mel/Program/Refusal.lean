import Mel.Program
import Mel.Token.Lexing

/-!
# Refusals

Reading a program is refused at the first token that cannot stand where it stands,
or at the end of the tokens. A refusal names what would have been right there.

A block has no mark of its own that opens it. It ends in front of a token of one
of its closing kinds, which depend on what it belongs to.
-/

namespace Mel

/-- What a block belongs to. -/
inductive BlockOwner where
  | program
  | function
  | branch
  | lastBranch
  | loop
  | attempt
  | handler
deriving DecidableEq, Repr

/-- The kinds of token that end a block. They are not part of it. -/
def BlockOwner.closing : BlockOwner → List Kind
  | .program => [.programEnd]
  | .function => [.returnMark, .defineMark, .programEnd]
  | .branch => [.endIf, .elseIfMark, .elseMark]
  | .lastBranch => [.endIf]
  | .loop => [.endLoop]
  | .attempt => [.catchMark]
  | .handler =>
      [.programEnd, .defineMark, .returnMark, .tryMark, .ifMark, .whileMark, .forMark, .endIf,
        .endLoop, .elseIfMark, .elseMark, .catchMark]

/-- What would have been right where a refusal arose. -/
inductive Expectation where
  | programStart
  | programEnd
  | blockEnd (owner : BlockOwner)
  | statement
  | expression
  | variableName
  | loopVariable
  | functionName
  | callee
  | loopEnd
  | conditionalEnd
  | catchMark
  | arrayEnd
  | closingParen
  | plainRealNumber
deriving DecidableEq, Repr

def Expectation.text : Expectation → String
  | .programStart => "`::: Program start`"
  | .programEnd => "`;;; Program end`"
  | .blockEnd owner => String.intercalate " or " (owner.closing.map Kind.name)
  | .statement => "a statement"
  | .expression => "an expression"
  | .variableName => "a variable name"
  | .loopVariable => "a loop variable"
  | .functionName => "a function name"
  | .callee => "a function name or `:`"
  | .loopEnd => "`!@!` to close the loop"
  | .conditionalEnd => "`!` to close the conditional"
  | .catchMark => "`%%%%`"
  | .arrayEnd => "`]`"
  | .closingParen => "`)`"
  | .plainRealNumber => "a real number with at most one `:` separator"

/-- A refusal with the token at which it arose; at the end of the tokens it keeps the place of the
last one, or the start of the text if there was none. -/
structure ParseError where
  expected : Expectation
  found : Option Token
  line : Nat
  column : Nat
deriving DecidableEq, Repr

namespace ParseError

/-- The refusal with `rest` still to be read of `tokens`. -/
def locate (tokens rest : List Token) (expected : Expectation) : ParseError :=
  let place := ((rest.head?.or tokens.getLast?).map Token.position).getD .start
  ⟨expected, rest.head?, place.line, place.column⟩

/-- What was found instead. -/
def foundText (error : ParseError) : String :=
  match error.found with
  | some token => "'" ++ token.text ++ "' (" ++ token.kind.name ++ ")"
  | none => "end of input"

def message (error : ParseError) : String :=
  "expected " ++ error.expected.text ++ ", found " ++ error.foundText

end ParseError

/-- Why a source is no program. -/
inductive SourceError where
  | lexical (error : LexError)
  | grammatical (error : ParseError)
deriving DecidableEq, Repr

namespace SourceError

def message : SourceError → String
  | .lexical error => error.message
  | .grammatical error => error.message

def line : SourceError → Nat
  | .lexical error => error.position.line
  | .grammatical error => error.line

def column : SourceError → Nat
  | .lexical error => error.position.column
  | .grammatical error => error.column

end SourceError

end Mel

import Mel.Program.Refusal

/-!
# Diagnostics

What is reported about a source that is no program: a message, a stable code, at
most one line of help and a labelled span of the source. Spans count the bytes of
the UTF-8 encoding, lines and columns count from one.
-/

namespace Mel

/-- A stretch of a source, in bytes. -/
structure Span where
  offset : Nat
  length : Nat
deriving DecidableEq, Repr

structure Label where
  span : Span
  text : String
deriving DecidableEq, Repr

structure Diagnostic where
  message : String
  code : String
  help : Option String
  label : Label
  fileName : String
  line : Nat
  column : Nat
deriving DecidableEq, Repr

namespace LexError

def code : LexError → String
  | .unexpectedCharacter .. => "mel::lex::unexpected_character"
  | .unterminatedString _ => "mel::lex::unterminated_string"

def help? : LexError → Option String
  | .unexpectedCharacter character _ =>
      some ("remove or correct the character: `" ++ character.toString ++ "`")
  | .unterminatedString _ => none

/-- An unterminated string reaches to the end of a source of `size` bytes. -/
def label (size : Nat) : LexError → Label
  | .unexpectedCharacter character position =>
      ⟨⟨position.offset, character.utf8Size⟩, "this character"⟩
  | .unterminatedString position =>
      ⟨⟨position.offset, size - position.offset⟩,
        "Syntax Error: Missing trailing `\"` symbol to terminate the string literal"⟩

end LexError

namespace ParseError

def help (error : ParseError) : String :=
  "use " ++ error.expected.text ++ " here instead"

/-- The token at which the refusal arose, or the end of a source of `size` bytes. -/
def span (size : Nat) (error : ParseError) : Span :=
  match error.found with
  | some token => ⟨token.position.offset, token.text.utf8ByteSize⟩
  | none => ⟨size, 0⟩

end ParseError

namespace SourceError

def code : SourceError → String
  | .lexical error => error.code
  | .grammatical _ => "mel::parse"

def help? : SourceError → Option String
  | .lexical error => error.help?
  | .grammatical error => some error.help

def label (size : Nat) : SourceError → Label
  | .lexical error => error.label size
  | .grammatical error => ⟨error.span size, "here"⟩

/-- The report about a source, which may have come without a name. -/
def diagnose (fileName : Option String) (source : String) (error : SourceError) : Diagnostic where
  message := error.message
  code := error.code
  help := error.help?
  label := error.label source.utf8ByteSize
  fileName := fileName.getD "<input>"
  line := error.line
  column := error.column

end SourceError

end Mel

import Mel.Text.Blank
import Mel.Token

/-!
# Lexical rules

The language's vocabulary is an ordered table of rules. A rule pairs a pattern
with what becomes of the text it matches. At every place of a source the first
rule that matches there decides, so a rule whose text begins with another
rule's text stands before it.

Patterns answer with the number of characters they match. None matches the
empty text, and none looks behind the place where it starts.
-/

namespace Mel

inductive Pattern where
  /-- Exactly this text. -/
  | exact (text : String)
  /-- A lead, the word `Program` and a closing word, with blanks allowed between them. -/
  | marker (lead word : String)
  /-- A `>` in front of a comment belongs to the comment. -/
  | markedComment
  /-- A `~` and all that follows it on its line. -/
  | lineComment
  /-- A closed double-quoted string; a backslash takes the next character with it. -/
  | string
  /-- Runs of `#`, joined by single colons. -/
  | realNumber
  /-- An ASCII letter or underscore, then letters, digits and underscores. -/
  | identifier
  | blanks
  | anyCharacter
deriving DecidableEq, Repr

namespace Pattern

/-- What follows `lead` in a text that begins with it. -/
def afterLead? : (lead text : List Char) → Option (List Char)
  | [], text => some text
  | _ :: _, [] => none
  | expected :: lead, character :: text =>
      if expected = character then afterLead? lead text else none

def markerLength? (lead word text : List Char) : Option Nat := do
  let afterMark ← afterLead? lead text
  let afterProgram ← afterLead? "Program".toList (afterMark.dropWhile Text.isBlank)
  let remaining ← afterLead? word (afterProgram.dropWhile Text.isBlank)
  return text.length - remaining.length

/-- The length of a comment at the head of a text, up to but without the line feed. -/
def commentLength? : List Char → Option Nat
  | '~' :: text => some (1 + (text.takeWhile (· ≠ '\n')).length)
  | _ => none

def markedCommentLength? : List Char → Option Nat
  | '>' :: text => do
      let comment ← commentLength? (text.dropWhile Text.isBlank)
      return 1 + (text.takeWhile Text.isBlank).length + comment
  | _ => none

/-- The number of characters up to and with the quote that closes a string. -/
def closingLength? : List Char → Option Nat
  | [] => none
  | '"' :: _ => some 1
  | '\\' :: _ :: text => (closingLength? text).map (· + 2)
  | _ :: text => (closingLength? text).map (· + 1)

def stringLength? : List Char → Option Nat
  | '"' :: text => (closingLength? text).map (· + 1)
  | _ => none

/-- How far a number reaches that has begun with a `#`. -/
def numberTail : List Char → Nat
  | '#' :: text => 1 + numberTail text
  | ':' :: '#' :: text => 2 + numberTail text
  | _ => 0

def numberLength? : List Char → Option Nat
  | '#' :: text => some (1 + numberTail text)
  | _ => none

def isNameStart (character : Char) : Bool :=
  character.isAlpha || character == '_'

def isNamePart (character : Char) : Bool :=
  character.isAlphanum || character == '_'

def nameLength? : List Char → Option Nat
  | character :: text =>
      if isNameStart character then some (1 + (text.takeWhile isNamePart).length) else none
  | [] => none

/-- A run of blanks; the empty run is no match. -/
def blanksLength? (text : List Char) : Option Nat :=
  match (text.takeWhile Text.isBlank).length with
  | 0 => none
  | length => some length

/-- How many characters at the head of a text a pattern matches. -/
def matchLength? : Pattern → List Char → Option Nat
  | .exact expected, text => (afterLead? expected.toList text).map fun _ => expected.toList.length
  | .marker lead word, text => markerLength? lead.toList word.toList text
  | .markedComment, text => markedCommentLength? text
  | .lineComment, text => commentLength? text
  | .string, text => stringLength? text
  | .realNumber, text => numberLength? text
  | .identifier, text => nameLength? text
  | .blanks, text => blanksLength? text
  | .anyCharacter, text => if text.isEmpty then none else some 1

end Pattern

/-- What becomes of the text that a rule matches. -/
inductive Action where
  | emit (kind : Kind)
  | skip
  | unknown
deriving DecidableEq, Repr

structure Rule where
  action : Action
  pattern : Pattern
deriving DecidableEq, Repr

namespace Rule

def token (kind : Kind) (text : String) : Rule :=
  ⟨.emit kind, .exact text⟩

def operator (family : Family) (operation : Operation) : Rule :=
  token (.operator ⟨family, operation⟩) (Operator.text ⟨family, operation⟩)

/-- The vocabulary, in the order in which its rules are tried. -/
def table : List Rule :=
  [ ⟨.emit .programStart, .marker ":::" "start"⟩,
    ⟨.emit .programEnd, .marker ";;;" "end"⟩,
    ⟨.skip, .markedComment⟩,
    ⟨.skip, .lineComment⟩,
    ⟨.emit .string, .string⟩,
    token .arrayStart "[",
    token .arrayEnd "]",
    token .forMark "#@#",
    operator .real .lessEqual,
    operator .real .greaterEqual,
    operator .real .notEqual,
    operator .integer .lessEqual,
    operator .integer .greaterEqual,
    operator .integer .notEqual,
    operator .real .add,
    operator .real .sub,
    operator .real .mul,
    operator .real .div,
    operator .real .factorial,
    operator .real .sqrt,
    operator .real .mod,
    operator .real .pow,
    operator .integer .add,
    operator .integer .sub,
    operator .integer .mul,
    operator .integer .div,
    operator .integer .factorial,
    operator .integer .sqrt,
    operator .integer .mod,
    operator .integer .pow,
    operator .real .less,
    operator .real .equal,
    operator .real .greater,
    operator .integer .less,
    operator .integer .equal,
    operator .integer .greater,
    ⟨.emit .realNumber, .realNumber⟩,
    token .bitsMark ";;",
    token .assign "=",
    token .negate "|",
    token (.sentinel .bitOne) "$$$$$$$$",
    token (.sentinel .bitZero) "$$$$$$$",
    token (.sentinel .zero) "$$$$$$",
    token (.sentinel .empty) "$$$$$",
    token (.sentinel .nil) "$$$$",
    token (.sentinel .yes) "$$$",
    token (.sentinel .no) "$$",
    token .callMark "->>",
    token .defineMark "->",
    token (.outputMany .newestFirst) ">>",
    token (.outputMany .oldestFirst) "<<",
    token .output ">",
    token .input "<",
    token .catchMark "%%%%",
    token .tryMark "%%",
    token .elseIfMark "??#",
    token .elseMark "??:",
    token .ifMark "?",
    token .endLoop "!@!",
    token .endIf "!",
    token .whileMark "@",
    token .returnMark "^",
    token .comma ",",
    token .semicolon ";",
    token .leftParen "(",
    token .rightParen ")",
    token .colon ":",
    ⟨.emit .identifier, .identifier⟩,
    ⟨.skip, .blanks⟩,
    ⟨.unknown, .anyCharacter⟩ ]

/-- The action and the length of the first rule that matches at the head of a text. -/
def firstMatch? (text : List Char) : Option (Action × Nat) :=
  table.findSome? fun rule => (rule.pattern.matchLength? text).map (rule.action, ·)

end Rule

end Mel

import Mel.Operator

/-!
# Tokens

A token is a stretch of the source text with its kind and the position where it
starts. Positions count lines and columns from one, columns in characters, and
carry the byte offset in the UTF-8 encoding of the source as well.

Runs of two to eight dollars are the sentinels: the constants of the language
that are written without a name or a digit.
-/

namespace Mel

/-- A place in a text. -/
structure Position where
  offset : Nat
  line : Nat
  column : Nat
deriving DecidableEq, Repr

namespace Position

def start : Position := ⟨0, 1, 1⟩

/-- The position behind one character. -/
def next (position : Position) (character : Char) : Position :=
  if character = '\n' then
    ⟨position.offset + character.utf8Size, position.line + 1, 1⟩
  else
    ⟨position.offset + character.utf8Size, position.line, position.column + 1⟩

/-- The position behind a stretch of text. -/
def after (position : Position) (text : List Char) : Position :=
  text.foldl next position

@[simp]
theorem after_nil (position : Position) : position.after [] = position := rfl

@[simp]
theorem after_cons (position : Position) (character : Char) (text : List Char) :
    position.after (character :: text) = (position.next character).after text := rfl

theorem after_append (position : Position) (text later : List Char) :
    position.after (text ++ later) = (position.after text).after later := by
  simp [after, List.foldl_append]

end Position

/-- The constants written as runs of dollars. -/
inductive Sentinel where
  | no
  | yes
  | nil
  | empty
  | zero
  | bitZero
  | bitOne
deriving DecidableEq, Repr

namespace Sentinel

/-- How many dollars a sentinel has. -/
def dollars : Sentinel → Nat
  | .no => 2
  | .yes => 3
  | .nil => 4
  | .empty => 5
  | .zero => 6
  | .bitZero => 7
  | .bitOne => 8

def kindName : Sentinel → String
  | .no => "BINARY_FALSE"
  | .yes => "BINARY_TRUE"
  | .nil => "BINARY_ABSENCE"
  | .empty => "BINARY_EMPTY"
  | .zero => "BINARY_ZERO_DECIMAL"
  | .bitZero => "BINARY_BIT_ZERO"
  | .bitOne => "BINARY_BIT_ONE"

end Sentinel

/-- The order in which buffered characters are written out. -/
inductive Direction where
  | oldestFirst
  | newestFirst
deriving DecidableEq, Repr

inductive Kind where
  | programStart
  | programEnd
  | string
  | arrayStart
  | arrayEnd
  | realNumber
  | bitsMark
  | operator (symbol : Operator)
  | assign
  | negate
  | sentinel (constant : Sentinel)
  | input
  | output
  | outputMany (direction : Direction)
  | callMark
  | defineMark
  | tryMark
  | catchMark
  | ifMark
  | elseIfMark
  | elseMark
  | endIf
  | whileMark
  | forMark
  | endLoop
  | returnMark
  | comma
  | semicolon
  | leftParen
  | rightParen
  | colon
  | identifier
deriving DecidableEq, Repr

/-- The name under which listings and error messages show a kind. -/
def Kind.name : Kind → String
  | .programStart => "PROGRAM_START"
  | .programEnd => "PROGRAM_END"
  | .string => "STRING"
  | .arrayStart => "ARRAY_START"
  | .arrayEnd => "ARRAY_END"
  | .realNumber => "REAL_NUMBER"
  | .bitsMark => "BINARY_LITERAL_PREFIX"
  | .operator symbol => symbol.kindName
  | .assign => "ASSIGN"
  | .negate => "UNARY_NEGATE"
  | .sentinel constant => constant.kindName
  | .input => "INPUT"
  | .output => "OUTPUT_CHAR"
  | .outputMany .newestFirst => "OUTPUT_REVERSED"
  | .outputMany .oldestFirst => "OUTPUT_NORMAL"
  | .callMark => "FUNCTION_CALL_PREFIX"
  | .defineMark => "FUNCTION_DEF"
  | .tryMark => "TRY"
  | .catchMark => "CATCH"
  | .ifMark => "IF"
  | .elseIfMark => "ELSE_IF"
  | .elseMark => "ELSE"
  | .endIf => "END_CONDITIONAL"
  | .whileMark => "WHILE_LOOP"
  | .forMark => "FOR_LOOP"
  | .endLoop => "END_LOOP"
  | .returnMark => "RETURN"
  | .comma => "COMMA"
  | .semicolon => "SEMICOLON_DELIMITER"
  | .leftParen => "LPAREN"
  | .rightParen => "RPAREN"
  | .colon => "COLON"
  | .identifier => "IDENTIFIER"

structure Token where
  kind : Kind
  text : String
  position : Position
deriving DecidableEq, Repr

/-- A token as one line of a listing. -/
def Token.listing (token : Token) : String :=
  "[" ++ toString token.position.line ++ ":" ++ toString token.position.column ++ "] "
    ++ token.kind.name ++ " " ++ token.text

end Mel

import Mel.Arithmetic
import Mel.Program.Refusal
import Mel.Value

/-!
# Runtime errors

What can go wrong while a program runs. A program can catch each of these errors,
and none is lost: an error inside an embedded program is an error of the call that
ran it.
-/

namespace Mel

/-- The functions that are always there. -/
inductive Builtin where
  | append
  | length
  | getItem
  | list
  | reverse
deriving DecidableEq, Repr

namespace Builtin

def name : Builtin → String
  | .append => "append"
  | .length => "length"
  | .getItem => "getitem"
  | .list => "list"
  | .reverse => "reverse"

def ofName? (name : String) : Option Builtin :=
  [append, length, getItem, list, reverse].find? (·.name == name)

end Builtin

inductive RuntimeError where
  | raised (message : String)
  | undefinedVariable (name : String)
  | undefinedFunction (name : String)
  | argumentCount (name : String) (expected found : Nat)
  | callDepth (limit : Nat)
  | loopLimit (limit : Nat)
  | rangeNotArray (found : ValueType)
  | arithmetic (error : ArithmeticError)
  | literalTooWide
  | negationOperand (found : ValueType)
  | operands (operator : Operator) (left right : ValueType)
  | suffixOperand (operator : Operator) (found : ValueType)
  | noCharacter (number : String)
  | countNotNatural (found : String)
  | bufferTooShort (wanted available : Nat)
  | outputFailed (reason : String)
  | inputFailed (reason : String)
  | endOfInput
  | inputNotText
  | builtinArguments (builtin : Builtin)
  | builtinCollection (builtin : Builtin) (found : ValueType)
  | appendToVariable (name : String) (found : ValueType)
  | indexNotInteger (found : ValueType)
  | indexOutOfBounds (index : Int64)
  | embeddedArgument
  | embeddedSource (error : SourceError)
  | embeddedFailure (error : RuntimeError)
deriving DecidableEq, Repr

namespace Builtin

/-- What a builtin wants when the number of its arguments is wrong. -/
def argumentsMessage : Builtin → String
  | .append => "append requires an array and at least one item"
  | .getItem => "getitem requires a collection and an index"
  | builtin => builtin.name ++ " requires exactly one argument"

/-- What a builtin accepts as its first argument. -/
def collectionMessage : Builtin → String
  | .append => "append expects an array or a variable name"
  | builtin => builtin.name ++ " expects a string or an array"

end Builtin

namespace RuntimeError

def message : RuntimeError → String
  | .raised message => message
  | .undefinedVariable name => "Undefined variable '" ++ name ++ "'"
  | .undefinedFunction name => "Undefined function '" ++ name ++ "'"
  | .argumentCount name expected found =>
      "Function '" ++ name ++ "' expects " ++ toString expected ++ " arguments, got "
        ++ toString found
  | .callDepth limit => "maximum call depth of " ++ toString limit ++ " exceeded"
  | .loopLimit limit => "while loop exceeded " ++ toString limit ++ " iterations"
  | .rangeNotArray found => "For loop range expression must be an array, got " ++ found.name
  | .arithmetic error => error.message
  | .literalTooWide => "binary literal does not fit in 64 bits"
  | .negationOperand found => "Unary negate operator '|' expects a number, got " ++ found.name
  | .operands operator left right =>
      operator.family.title ++ " operator '" ++ operator.text ++ "' expects "
        ++ (match operator.family with | .integer => "integers" | .real => "numbers")
        ++ ", got " ++ left.name ++ " and " ++ right.name
  | .suffixOperand operator found =>
      "Operator '" ++ operator.text ++ "' cannot be applied to " ++ found.name
  | .noCharacter number => "Cannot convert number " ++ number ++ " to a character"
  | .countNotNatural found =>
      "Multi-character output count must be a non-negative integer, got " ++ found
  | .bufferTooShort wanted available =>
      "Cannot retrieve " ++ toString wanted ++ " characters, only " ++ toString available
        ++ " available in buffer."
  | .outputFailed reason => "output error: " ++ reason
  | .inputFailed reason => "input error: " ++ reason
  | .endOfInput => "Unexpected end of input"
  | .inputNotText => "input error: stream did not contain valid UTF-8"
  | .builtinArguments builtin => builtin.argumentsMessage
  | .builtinCollection builtin found => builtin.collectionMessage ++ ", got " ++ found.name
  | .appendToVariable name found =>
      "append: variable '" ++ name ++ "' holds " ++ found.name ++ ", not an array"
  | .indexNotInteger found => "getitem index must be an integer, got " ++ found.name
  | .indexOutOfBounds index =>
      "getitem index " ++ toString index.toInt ++ " out of bounds (1-based)"
  | .embeddedArgument => "Run MEL string code (->> :) expects a single string argument."
  | .embeddedSource error => "error in embedded program: " ++ error.message
  | .embeddedFailure error => "error in embedded program: " ++ error.message

def code : String := "mel::runtime"

end RuntimeError

end Mel

import Mel.Floating.Text
import Mel.Program

/-!
# Literals

How the text of a token stands for a constant. A string is what lies between its
quotes, with its escapes resolved: a backslash before `n`, `t`, `r` or `0` is a
control character, before any other character it is dropped.

A number is written by counting: a run of `#` is its length, and a second run
behind a colon gives the decimal digits of the fraction, so that three and one
make 3.1 and three and ten make 3.10.
-/

namespace Mel

namespace Text

def unescapeCharacter (character : Char) : Char :=
  match character with
  | 'n' => '\n'
  | 't' => '\t'
  | 'r' => '\r'
  | '0' => '\x00'
  | other => other

def unescape : List Char → List Char
  | [] => []
  | '\\' :: character :: text => unescapeCharacter character :: unescape text
  | character :: text => character :: unescape text

/-- The text that a string token stands for. -/
def ofStringToken (text : String) : String :=
  String.ofList (unescape (text.toList.drop 1).dropLast)

end Text

namespace RealLiteral

/-- Reads a number of one or two runs. -/
def ofText? (text : String) : Option RealLiteral :=
  let whole := text.toList.takeWhile (· ≠ ':')
  match text.toList.dropWhile (· ≠ ':') with
  | [] => some ⟨whole.length, none⟩
  | _ :: fraction =>
      if fraction.contains ':' then none else some ⟨whole.length, some fraction.length⟩

/-- The real nearest to the number. -/
def value (literal : RealLiteral) : Float :=
  match literal.fraction with
  | none => Floating.ofPlaces literal.whole 0
  | some fraction =>
      let places := Floating.Decimal.length fraction
      Floating.ofPlaces (literal.whole * Nat.pow 10 places + fraction) places

end RealLiteral

end Mel

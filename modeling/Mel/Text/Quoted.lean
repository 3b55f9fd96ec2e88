import Mel.Text.Obscure

/-!
# Quoted text

A text between double quotes, with a backslash in front of quotes and backslashes
inside it. Line feed, carriage return, tab and the null character have escapes of
one letter; the obscure characters are given by their code point.
-/

namespace Mel.Text

/-- The code point of a character in hexadecimal digits. -/
def codePoint (character : Char) : List Char :=
  Nat.toDigits 16 character.toNat

/-- How a character is written between quotes. -/
def escape (character : Char) : List Char :=
  match character with
  | '"' => ['\\', '"']
  | '\\' => ['\\', '\\']
  | '\n' => ['\\', 'n']
  | '\r' => ['\\', 'r']
  | '\t' => ['\\', 't']
  | '\x00' => ['\\', '0']
  | _ =>
      if ' ' ≤ character ∧ character ≤ '~' then [character]
      else if isObscure character then
        ['\\', 'u', '\x7b'] ++ codePoint character ++ ['\x7d']
      else [character]

/-- A text between quotes. -/
def quote (text : List Char) : List Char :=
  '"' :: (text.flatMap escape ++ ['"'])

end Mel.Text

import Mel.Machine

/-!
# Output by characters

One character at a time goes to the buffer and to the output. Several characters
at a time come out of the buffer again, the oldest ones of it, and go to the
output a second time, in order or reversed.

The buffer changes before the output does, and stays changed when the write fails.
-/

namespace Mel

/-- The character with a code point. -/
def Text.characterAt? (code : Nat) : Option Char :=
  if code.isValidChar then some (Char.ofNat code) else none

namespace Value

/-- An integer that is not negative. -/
def natural? : Value → Option Nat
  | .integer number => number.toInt.toNat?
  | _ => none

/-- The code point that a number stands for; the fraction of a real is dropped. -/
def codePoint? : Value → Option Nat
  | .real number =>
      if -1.0 < number ∧ number < 4294967296.0 then some (Floating.wholePart number) else none
  | value => value.natural?

end Value

namespace Exec

/-- The character that stands for a value: of a number the one with this code point, of all else the
first one of what the value is written as. -/
def characterOf? (value : Value) : Exec (Option Char) := do
  match value.type with
  | .integer | .real =>
      match value.codePoint?.bind Text.characterAt? with
      | some character => return some character
      | none => fail (.noCharacter (← textOf value))
  | _ => return (← textOf value).toList.head?

/-- Puts a character into the buffer. -/
def put (character : Char) : Exec Unit := do
  modify fun machine => { machine with buffer := machine.buffer.push character }
  record (.put character)

/-- Takes the oldest characters out of the buffer. -/
def take (direction : Direction) (count : Nat) : Exec (List Char) := do
  let characters := ((← get).buffer.take count).toList
  modify fun machine => { machine with buffer := machine.buffer.drop count }
  record (.taken direction characters)
  return characters

/-- Outputs the character of a value, if it has one. -/
def output (value : Value) : Exec Unit := do
  match ← characterOf? value with
  | none => return
  | some character =>
      put character
      write character.toString

/-- The number of characters that a value asks for. -/
def countOf (value : Value) : Exec Nat := do
  match value.natural? with
  | some count => return count
  | none => fail (.countNotNatural (← textOf value))

/-- Outputs the oldest characters of the buffer once more. -/
def outputMany (direction : Direction) (value : Value) : Exec Unit := do
  let count ← countOf value
  let available := (← get).buffer.size
  if available < count then
    fail (.bufferTooShort count available)
  else
    let characters ← take direction count
    write (String.ofList (match direction with
      | .oldestFirst => characters
      | .newestFirst => characters.reverse))

end Exec

end Mel

import Mel.Machine

/-!
# Builtin functions

Five functions on texts and arrays. Items are counted from one, and those of a
text are its characters.

Appending changes an array in place. It takes the array itself or, as a string,
the name of the variable that holds it, and then binds the array to its variable
once more.
-/

namespace Mel

namespace Exec

/-- The array to append to, and the variable that holds it. A value that came from a variable comes
with the name of that variable. -/
def appendTarget (variableName : Option String) : Value → Exec (ArrayRef × Option String)
  | .array ref => return (ref, variableName)
  | .string name => do
      match ← lookup name with
      | .array ref => return (ref, some name)
      | other => fail (.appendToVariable name other.type)
  | other => fail (.builtinCollection .append other.type)

def append (variableName : Option String) : List Value → Exec Value
  | first :: item :: items => do
      let (ref, name) ← appendTarget variableName first
      extendArray ref (item :: items)
      match name with
      | some name => assign name (.array ref)
      | none => pure ()
      return .nil
  | _ => fail (.builtinArguments .append)

/-- A number of items as an integer. What is too much for one counts as the greatest. -/
def countOfItems (number : Nat) : Int64 :=
  if number ≤ Int64.maxValue.toInt then .ofNat number else .maxValue

def length : List Value → Exec Value
  | [.string text] => return .integer (countOfItems text.length)
  | [.array ref] => return .integer (countOfItems (← itemsOf ref).length)
  | [other] => fail (.builtinCollection .length other.type)
  | _ => fail (.builtinArguments .length)

/-- The item at a position counted from one. -/
def itemAt? {α : Type} (items : List α) (position : Nat) : Option α :=
  items[position - 1]?

def getItem : List Value → Exec Value
  | [collection, .integer index] => do
      let position := index.toInt.toNat
      if position = 0 then
        fail (.indexOutOfBounds index)
      else
        match collection with
        | .string text =>
            match itemAt? text.toList position with
            | some character => return .string character.toString
            | none => fail (.indexOutOfBounds index)
        | .array ref =>
            match itemAt? (← itemsOf ref) position with
            | some item => return item
            | none => fail (.indexOutOfBounds index)
        | other => fail (.builtinCollection .getItem other.type)
  | [_, index] => fail (.indexNotInteger index.type)
  | _ => fail (.builtinArguments .getItem)

/-- Writes a text or an array past the buffer. -/
def list : List Value → Exec Value
  | [value] => do
      match value.type with
      | .string | .array =>
          write (← textOf value)
          return .nil
      | other => fail (.builtinCollection .list other)
  | _ => fail (.builtinArguments .list)

/-- Builds a new text or array with the items in the opposite order. -/
def reverse : List Value → Exec Value
  | [.string text] => return .string (String.ofList text.toList.reverse)
  | [.array ref] => do newArray (← itemsOf ref).reverse
  | [other] => fail (.builtinCollection .reverse other.type)
  | _ => fail (.builtinArguments .reverse)

end Exec

/-- Calls a builtin. Only appending makes use of the name of the variable that its first argument
came from. -/
def Builtin.call (builtin : Builtin) (variableName : Option String) (arguments : List Value) :
    Exec Value :=
  match builtin with
  | .append => Exec.append variableName arguments
  | .length => Exec.length arguments
  | .getItem => Exec.getItem arguments
  | .list => Exec.list arguments
  | .reverse => Exec.reverse arguments

end Mel

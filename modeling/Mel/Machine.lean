import Mel.RuntimeError
import Mel.Scope
import Mel.Streams
import Mel.Value.Content

/-!
# Machines

The state in which programs run, and the steps that change it.

A machine holds the bindings of variables, the functions defined so far, the
buffer of characters that were written one at a time, the arrays, the streams, how
deep calls are nested, and a history of what it did with its streams, its buffer,
its arrays and its limits.

A step ends with a result, with an error that the program can catch, or with a
halt that nothing can catch. Either way it leaves a machine behind.
-/

namespace Mel

/-- The limits of a run, and how sources are cut into tokens. -/
structure Options where
  policy : Policy := .lenient
  /-- How many rounds a while loop may start each time it is entered. -/
  loopLimit : Option Nat := none
  /-- How deep calls and embedded programs may be nested. -/
  depthLimit : Nat := 128
deriving DecidableEq, Repr

structure Function where
  parameters : List String
  body : Block

inductive Event where
  /-- A line was taken from the input. -/
  | lineRead (line : List UInt8)
  /-- A character was put into the buffer. -/
  | put (character : Char)
  /-- Characters were taken out of the buffer, the oldest first. -/
  | taken (direction : Direction) (characters : List Char)
  /-- An array was made. -/
  | arrayMade (items : List Value)
  /-- Items were put at the end of an array. -/
  | arrayExtended (ref : ArrayRef) (items : List Value)
  /-- A loop or a call ran into its limit. -/
  | limitReached
  /-- A program ran embedded in this one, with a history of its own. -/
  | embedded (events : List Event)

structure Machine where
  scope : Scope Value
  functions : Table Function
  buffer : Array Char
  heap : Heap
  streams : Streams
  depth : Nat
  /-- What has happened, the latest first. -/
  history : List Event

/-- A machine that has run nothing yet. -/
def Machine.fresh (streams : Streams) (depth : Nat) : Machine where
  scope := .empty
  functions := .empty
  buffer := #[]
  heap := .empty
  streams := streams
  depth := depth
  history := []

/-- Why a run stops without having failed. -/
inductive Halt where
  | outOfFuel
  /-- An array that contains itself was to be written. -/
  | endlessText
deriving DecidableEq, Repr

inductive Stop where
  | error (error : RuntimeError)
  | halt (reason : Halt)
deriving DecidableEq, Repr

/-- How a statement ends that does not stop: on its own, or with a value for the caller. -/
inductive Completion where
  | normal
  | returned (value : Value)

/-- Steps of a machine. -/
abbrev Exec := EStateM Stop Machine

namespace Exec

variable {α : Type}

def fail (error : RuntimeError) : Exec α :=
  throw (.error error)

def halt (reason : Halt) : Exec α :=
  throw (.halt reason)

def ofExcept : Except RuntimeError α → Exec α
  | .ok result => pure result
  | .error error => fail error

/-- Runs a step between two changes of the machine; the second is made however the step ends. -/
def between (enter leave : Machine → Machine) (step : Exec α) : Exec α := fun machine =>
  match step (enter machine) with
  | .ok result later => .ok result (leave later)
  | .error stop later => .error stop (leave later)

/-- Runs `handler` on the machine that an error left behind. -/
def catching (step handler : Exec α) : Exec α := fun machine =>
  match step machine with
  | .error (.error _) later => handler later
  | ended => ended

def record (event : Event) : Exec Unit :=
  modify fun machine => { machine with history := event :: machine.history }

/-- Fails because a limit is reached. -/
def failAtLimit (error : RuntimeError) : Exec α := do
  record .limitReached
  fail error

def lookup (name : String) : Exec Value := do
  match (← get).scope.get? name with
  | some value => return value
  | none => fail (.undefinedVariable name)

def define (name : String) (value : Value) : Exec Unit :=
  modify fun machine => { machine with scope := machine.scope.define name value }

def assign (name : String) (value : Value) : Exec Unit := do
  match (← get).scope.assign? name value with
  | some scope => modify fun machine => { machine with scope }
  | none => fail (.undefinedVariable name)

/-- Binds names to values, as far as there are both. -/
def defineAll : List String → List Value → Exec Unit
  | name :: names, value :: values => do
      define name value
      defineAll names values
  | _, _ => return

def defineFunction (name : String) (function : Function) : Exec Unit :=
  modify fun machine => { machine with functions := machine.functions.insert name function }

def openFrame (machine : Machine) : Machine :=
  { machine with scope := machine.scope.push }

def closeFrame (machine : Machine) : Machine :=
  { machine with scope := machine.scope.pop }

/-- Runs a step in a frame of its own. -/
def inFrame (step : Exec α) : Exec α :=
  between openFrame closeFrame step

def enterCall (machine : Machine) : Machine :=
  { machine with scope := machine.scope.push, depth := machine.depth + 1 }

def leaveCall (machine : Machine) : Machine :=
  { machine with scope := machine.scope.pop, depth := machine.depth - 1 }

/-- Runs a step in a frame of its own and one call deeper. -/
def inCall (step : Exec α) : Exec α :=
  between enterCall leaveCall step

def newArray (items : List Value) : Exec Value :=
  modifyGet fun machine =>
    let (ref, heap) := machine.heap.alloc items.toArray
    (.array ref, { machine with heap, history := .arrayMade items :: machine.history })

def itemsOf (ref : ArrayRef) : Exec (List Value) :=
  return ((← get).heap.items ref).toList

def extendArray (ref : ArrayRef) (items : List Value) : Exec Unit := do
  modify fun machine => { machine with heap := machine.heap.extend ref items.toArray }
  record (.arrayExtended ref items)

def isTruthy (value : Value) : Exec Bool :=
  return (← get).heap.isTruthy value

/-- What a value is written as. -/
def textOf (value : Value) : Exec String := do
  match (← get).heap.content? value with
  | some content => return content.text
  | none => halt .endlessText

/-- The text that a read gives, or why it gives none. -/
def textRead : Streams.Delivery → Except RuntimeError String
  | .failed reason => .error (.inputFailed reason)
  | .atEnd => .error .endOfInput
  | .line line =>
      match Text.ofLine? line with
      | some text => .ok text
      | none => .error .inputNotText

/-- Takes a line from the input. A line that is no text is taken all the same. -/
def readLine : Exec String := do
  let delivery := (← get).streams.delivery
  modify fun machine => { machine with streams := machine.streams.read }
  if let .line line := delivery then
    record (.lineRead line)
  ofExcept (textRead delivery)

/-- Writes a text to the output, or as much of it as is taken. -/
def write (text : String) : Exec Unit := do
  let bytes := text.toUTF8.data
  let failure := (← get).streams.writeError? bytes.size
  modify fun machine => { machine with streams := machine.streams.write bytes }
  match failure with
  | none => return
  | some reason => fail (.outputFailed reason)

end Exec

end Mel

import Mel.Evaluation

/-!
# Runs

Running sources on machines. A machine outlives a failure: it can go on with the
next source, with all that it knew before.
-/

namespace Mel

/-- Why a request to a machine has no result. -/
inductive Failure where
  | source (error : SourceError)
  | runtime (error : RuntimeError)
  | halted (reason : Halt)
deriving DecidableEq, Repr

def Halt.message : Halt → String
  | .outOfFuel => "the run takes too long"
  | .endlessText => "an array that contains itself cannot be written"

namespace Failure

def ofStop : Stop → Failure
  | .error error => .runtime error
  | .halt reason => .halted reason

def message : Failure → String
  | .source error => error.message
  | .runtime error => error.message
  | .halted reason => reason.message

end Failure

/-- More fuel than any run can burn. -/
def ampleFuel : Nat := Nat.pow 10 18

namespace Machine

variable {α : Type}

/-- Takes a step, and keeps the machine that it leaves however it ends. -/
def perform (machine : Machine) (step : Exec α) : Except Failure α × Machine :=
  match step machine with
  | .ok result later => (.ok result, later)
  | .error stop later => (.error (.ofStop stop), later)

/-- Reads a program and executes it. -/
def run (options : Options) (fuel : Nat) (source : String) (machine : Machine) :
    Except Failure Unit × Machine :=
  match readProgram options.policy source with
  | .error error => (.error (.source error), machine)
  | .ok block => machine.perform (interpret options fuel block)

/-- Reads the expression at the head of a source and evaluates it. -/
def evaluate (options : Options) (fuel : Nat) (source : String) (machine : Machine) :
    Except Failure Value × Machine :=
  match readExpression options.policy source with
  | .error error => (.error (.source error), machine)
  | .ok expression => machine.perform (Mel.evaluate options fuel expression)

/-- Runs a text as an embedded program. -/
def runEmbedded (options : Options) (fuel : Nat) (arguments : List Value) (machine : Machine) :
    Except Failure Value × Machine :=
  machine.perform (Exec.embedded options (execute options fuel) arguments)

/-- The content of a variable, if it is bound. -/
def valueOf? (machine : Machine) (name : String) : Option Value :=
  machine.scope.get? name

/-- The characters in the buffer, the oldest one first. -/
def buffered (machine : Machine) : String :=
  String.ofList machine.buffer.toList

end Machine

/-- Runs a source on a fresh machine. -/
def run (options : Options) (fuel : Nat) (source : String) (streams : Streams) :
    Except Failure Unit × Machine :=
  (Machine.fresh streams 0).run options fuel source

end Mel

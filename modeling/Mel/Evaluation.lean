import Mel.Machine.Builtin
import Mel.Machine.Output
import Mel.Program.Parser
import Mel.Value.Operation

/-!
# Evaluation

How expressions are evaluated and statements executed, one form at a time. Each
step says what a form does, given how the expressions and the statements inside it
are evaluated and executed; fuel ties the knot. Fuel bounds how deep evaluation
nests and how many rounds a while loop makes, and running out of it is a halt
that no program can catch. A run that ends with some fuel ends in the same way
with more of it.

An embedded program runs on a machine of its own, one call deeper, that shares
nothing but the streams.
-/

namespace Mel

namespace Exec

/-- Evaluates expressions from left to right. -/
def evaluateAll (evaluate : Expr → Exec Value) : List Expr → Exec (List Value)
  | [] => return []
  | expression :: expressions => do
      let value ← evaluate expression
      let values ← evaluateAll evaluate expressions
      return value :: values

def ofSentinel : Sentinel → Exec Value
  | .no => return .boolean false
  | .yes => return .boolean true
  | .nil => return .nil
  | .empty => newArray []
  | .zero | .bitZero => return .integer 0
  | .bitOne => return .integer 1

/-- Executes statements up to the first that returns. -/
def executeAll (execute : Statement → Exec Completion) : Block → Exec Completion
  | [] => return .normal
  | statement :: statements => do
      match ← execute statement with
      | .normal => executeAll execute statements
      | .returned value => return .returned value

/-- What a call is worth whose body has ended. -/
def resultOf : Completion → Value
  | .normal => .nil
  | .returned value => value

/-- Calls a function that the program defined. -/
def callFunction (options : Options) (execute : Statement → Exec Completion) (name : String)
    (arguments : List Value) : Exec Value := do
  match (← get).functions.get? name with
  | none => fail (.undefinedFunction name)
  | some function =>
      if arguments.length ≠ function.parameters.length then
        fail (.argumentCount name function.parameters.length arguments.length)
      else if options.depthLimit ≤ (← get).depth then
        failAtLimit (.callDepth options.depthLimit)
      else
        let completion ← inCall do
          defineAll function.parameters arguments
          executeAll execute function.body
        return resultOf completion

/-- Executes a block on a fresh machine with the same streams, one call deeper. -/
def runEmbedded (execute : Statement → Exec Completion) (block : Block) : Exec Unit :=
  fun machine =>
    let close (inner : Machine) : Machine :=
      { machine with
        streams := inner.streams, history := .embedded inner.history :: machine.history }
    match executeAll execute block (.fresh machine.streams (machine.depth + 1)) with
    | .ok _ inner => .ok () (close inner)
    | .error (.error error) inner => .error (.error (.embeddedFailure error)) (close inner)
    | .error (.halt reason) inner => .error (.halt reason) (close inner)

/-- Runs the program that a text holds. -/
def embedded (options : Options) (execute : Statement → Exec Completion) :
    List Value → Exec Value
  | [.string code] => do
      if options.depthLimit ≤ (← get).depth then
        failAtLimit (.embeddedFailure (.callDepth options.depthLimit))
      else
        match readProgram options.policy code with
        | .error error => fail (.embeddedSource error)
        | .ok block =>
            runEmbedded execute block
            return .nil
  | _ => fail .embeddedArgument

/-- The name of the variable that the first argument of a call is, if it is one. -/
def firstVariable? : List Expr → Option String
  | .variable name :: _ => some name
  | _ => none

/-- Evaluates the arguments of a call and makes it. The names of the builtins cannot be
redefined. -/
def call (options : Options) (evaluate : Expr → Exec Value)
    (execute : Statement → Exec Completion) (callee : Callee) (arguments : List Expr) :
    Exec Value := do
  let values ← evaluateAll evaluate arguments
  match callee with
  | .embedded => embedded options execute values
  | .named name =>
      match Builtin.ofName? name with
      | some builtin => builtin.call (firstVariable? arguments) values
      | none => callFunction options execute name values

def evaluateWith (options : Options) (evaluate : Expr → Exec Value)
    (execute : Statement → Exec Completion) : Expr → Exec Value
  | .string text => return .string text
  | .real literal => return .real literal.value
  | .sentinel constant => ofSentinel constant
  | .bits digits => ofExcept (Value.ofBits digits)
  | .array elements => do newArray (← evaluateAll evaluate elements)
  | .variable name => lookup name
  | .negate operand => do ofExcept (← evaluate operand).negate
  | .binary operator left right => do
      let leftValue ← evaluate left
      let rightValue ← evaluate right
      ofExcept (Value.apply operator leftValue rightValue)
  | .suffix operator operand _ => do ofExcept (Value.applySuffix operator (← evaluate operand))
  | .call callee arguments => call options evaluate execute callee arguments
  | .raise message => fail (.raised message)

/-- Executes the first branch whose condition holds. -/
def executeFallback (evaluate : Expr → Exec Value) (execute : Statement → Exec Completion) :
    Fallback → Exec Completion
  | .nothing => return .normal
  | .otherwise body => executeAll execute body
  | .elseIf condition body fallback => do
      if ← isTruthy (← evaluate condition) then executeAll execute body
      else executeFallback evaluate execute fallback

/-- Is a while loop that has started so many rounds beyond its limit? -/
def exceeds (limit : Option Nat) (started : Nat) : Option Nat :=
  limit.filter (· < started)

/-- Makes rounds while the condition holds; the limit is checked when a round is about to start. -/
def whileLoop (limit : Option Nat) (condition : Exec Bool) (body : Exec Completion) :
    (fuel : Nat) → (started : Nat) → Exec Completion
  | 0, _ => halt .outOfFuel
  | fuel + 1, started => do
      if ← condition then
        match exceeds limit (started + 1) with
        | some limit => failAtLimit (.loopLimit limit)
        | none =>
            match ← body with
            | .normal => whileLoop limit condition body fuel (started + 1)
            | .returned value => return .returned value
      else return .normal

/-- Makes a round for each item, with the item bound to the loop's variable. -/
def forEach (name : String) (body : Exec Completion) : List Value → Exec Completion
  | [] => return .normal
  | item :: items => do
      define name item
      match ← body with
      | .normal => forEach name body items
      | .returned value => return .returned value

def executeWith (options : Options) (evaluate : Expr → Exec Value)
    (execute : Statement → Exec Completion) (fuel : Nat) : Statement → Exec Completion
  | .assign name value => do
      define name (← evaluate value)
      return .normal
  | .input name => do
      assign name (.string (← readLine))
      return .normal
  | .output value => do
      output (← evaluate value)
      return .normal
  | .outputMany direction count => do
      outputMany direction (← evaluate count)
      return .normal
  | .call callee arguments => do
      discard (call options evaluate execute callee arguments)
      return .normal
  | .define name parameters body => do
      defineFunction name ⟨parameters, body⟩
      return .normal
  | .giveBack none => return .returned .nil
  | .giveBack (some value) => return .returned (← evaluate value)
  | .conditional condition body fallback =>
      executeFallback evaluate execute (.elseIf condition body fallback)
  | .whileLoop condition body =>
      whileLoop options.loopLimit (do isTruthy (← evaluate condition)) (executeAll execute body)
        fuel 0
  | .forLoop name range body => do
      match ← evaluate range with
      | .array ref =>
          let items ← itemsOf ref
          inFrame (forEach name (executeAll execute body) items)
      | other => fail (.rangeNotArray other.type)
  | .attempt body handler => catching (executeAll execute body) (executeAll execute handler)
  | .raise message => fail (.raised message)

end Exec

mutual

/-- Evaluates an expression with a given amount of fuel. -/
def evaluate (options : Options) : (fuel : Nat) → Expr → Exec Value
  | 0, _ => Exec.halt .outOfFuel
  | fuel + 1, expression =>
      Exec.evaluateWith options (evaluate options fuel) (execute options fuel) expression

/-- Executes a statement with a given amount of fuel. -/
def execute (options : Options) : (fuel : Nat) → Statement → Exec Completion
  | 0, _ => Exec.halt .outOfFuel
  | fuel + 1, statement =>
      Exec.executeWith options (evaluate options fuel) (execute options fuel) fuel statement

end

/-- Executes a whole program. A return outside of all functions ends it. -/
def interpret (options : Options) (fuel : Nat) (block : Block) : Exec Unit :=
  discard (Exec.executeAll (execute options fuel) block)

end Mel

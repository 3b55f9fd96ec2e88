import Mel.Evaluation

/-!
# Elementary steps

This file gives each elementary step of a machine as an equation: what it answers
on a given machine, and which machine it leaves behind. Proofs about runs go
through these equations and through the two ways in which steps are joined, so that
no other file opens an elementary step.

A step leaves a machine behind however it ends: with a result, with an error or with
a halt. `Exec.after` is that machine.
-/

namespace Mel.Exec

variable {α β : Type}

theorem bind_apply (step : Exec α) (next : α → Exec β) (machine : Machine) :
    (step >>= next) machine =
      match step machine with
      | .ok result later => next result later
      | .error stop later => .error stop later := by
  change EStateM.bind step next machine = _
  simp only [EStateM.bind]
  cases step machine <;> rfl

theorem bind_of_ok {step : Exec α} {next : α → Exec β} {machine later : Machine} {result : α}
    (ended : step machine = .ok result later) : (step >>= next) machine = next result later := by
  rw [bind_apply, ended]

theorem bind_of_error {step : Exec α} {next : α → Exec β} {machine later : Machine} {stop : Stop}
    (stopped : step machine = .error stop later) :
    (step >>= next) machine = .error stop later := by
  rw [bind_apply, stopped]

theorem discard_apply (step : Exec α) (machine : Machine) :
    discard step machine =
      match step machine with
      | .ok _ later => .ok () later
      | .error stop later => .error stop later := by
  change EStateM.map (Function.const α PUnit.unit) step machine = _
  simp only [EStateM.map]
  cases step machine <;> rfl

theorem discard_eq (step : Exec α) : discard step = step >>= fun _ => pure () := by
  funext machine
  rw [discard_apply, bind_apply]
  cases step machine <;> rfl

/-- Looking at the machine first changes nothing. -/
theorem get_bind_apply (next : Machine → Exec α) (machine : Machine) :
    (get >>= next) machine = next machine machine := rfl

theorem lookup_apply (name : String) (machine : Machine) :
    lookup name machine =
      match machine.scope.get? name with
      | some value => .ok value machine
      | none => .error (.error (.undefinedVariable name)) machine := by
  rw [lookup, get_bind_apply]
  cases machine.scope.get? name <;> rfl

theorem assign_apply (name : String) (value : Value) (machine : Machine) :
    assign name value machine =
      match machine.scope.assign? name value with
      | some scope => .ok () { machine with scope }
      | none => .error (.error (.undefinedVariable name)) machine := by
  rw [assign, get_bind_apply]
  cases machine.scope.assign? name value <;> rfl

theorem textOf_apply (value : Value) (machine : Machine) :
    textOf value machine =
      match machine.heap.content? value with
      | some content => .ok content.text machine
      | none => .error (.halt .endlessText) machine := by
  rw [textOf, get_bind_apply]
  cases machine.heap.content? value <;> rfl

/-- What a read tells the history. -/
def eventsRead : Streams.Delivery → List Event
  | .line line => [.lineRead line]
  | .failed _ | .atEnd => []

/-- The machine of a run that has just read from its input. -/
def behindRead (machine : Machine) : Machine :=
  { machine with
    streams := machine.streams.read
    history := eventsRead machine.streams.delivery ++ machine.history }

theorem readLine_apply (machine : Machine) :
    readLine machine = ofExcept (textRead machine.streams.delivery) (behindRead machine) := by
  rw [readLine, get_bind_apply, behindRead]
  cases machine.streams.delivery <;> rfl

/-- What a write comes to. -/
def writeResult (failure : Option String) (machine : Machine) :
    EStateM.Result Stop Machine Unit :=
  match failure with
  | none => .ok () machine
  | some reason => .error (.error (.outputFailed reason)) machine

theorem write_apply (text : String) (machine : Machine) :
    write text machine =
      writeResult (machine.streams.writeError? text.toUTF8.data.size)
        { machine with streams := machine.streams.write text.toUTF8.data } := by
  rw [write, get_bind_apply]
  cases machine.streams.writeError? text.toUTF8.data.size <;> rfl

theorem catching_apply (step handler : Exec α) (machine : Machine) :
    catching step handler machine =
      match step machine with
      | .ok result later => .ok result later
      | .error (.error _) later => handler later
      | .error (.halt reason) later => .error (.halt reason) later := by
  simp only [catching]
  rcases step machine with ⟨result, later⟩ | ⟨_ | _, later⟩ <;> rfl

/-- Characters in the order in which they are output. -/
def ordered (direction : Direction) (characters : List Char) : String :=
  String.ofList (match direction with
    | .oldestFirst => characters
    | .newestFirst => characters.reverse)

/-- Outputs this many of the oldest characters of the buffer once more. -/
def takeOut (direction : Direction) (count : Nat) : Exec Unit := do
  let available := (← get).buffer.size
  if available < count then
    fail (.bufferTooShort count available)
  else
    write (ordered direction (← take direction count))

theorem outputMany_eq (direction : Direction) (value : Value) :
    outputMany direction value = countOf value >>= takeOut direction := rfl

/-- The machine of a run that has just taken characters out of the buffer. -/
def behindTake (direction : Direction) (count : Nat) (machine : Machine) : Machine :=
  { machine with
    buffer := machine.buffer.drop count
    history := .taken direction (machine.buffer.take count).toList :: machine.history }

theorem takeOut_apply (direction : Direction) (count : Nat) (machine : Machine) :
    takeOut direction count machine =
      if machine.buffer.size < count then
        fail (.bufferTooShort count machine.buffer.size) machine
      else
        write (ordered direction (machine.buffer.take count).toList)
          (behindTake direction count machine) := by
  rw [takeOut, get_bind_apply]
  by_cases short : machine.buffer.size < count
  · rw [if_pos short, if_pos short]
  · rw [if_neg short, if_neg short]
    rfl

/-- The machine that a step has left behind, however it ended. -/
def machineOf : EStateM.Result Stop Machine α → Machine
  | .ok _ later => later
  | .error _ later => later

/-- The result of a step, or why it has stopped. -/
def outcomeOf : EStateM.Result Stop Machine α → Except Stop α
  | .ok result _ => .ok result
  | .error stop _ => .error stop

/-- The machine that a step leaves behind. -/
def after (step : Exec α) (machine : Machine) : Machine :=
  machineOf (step machine)

theorem machineOf_writeResult (failure : Option String) (machine : Machine) :
    machineOf (writeResult failure machine) = machine := by
  cases failure <;> rfl

theorem after_of_ok {step : Exec α} {machine later : Machine} {result : α}
    (ended : step machine = .ok result later) : step.after machine = later := by
  rw [after, ended, machineOf]

theorem after_of_error {step : Exec α} {machine later : Machine} {stop : Stop}
    (stopped : step machine = .error stop later) : step.after machine = later := by
  rw [after, stopped, machineOf]

theorem eq_ok_of_outcomeOf {step : Exec α} {machine : Machine}
    (succeeds : (outcomeOf (step machine)).toBool = true) :
    ∃ result, step machine = .ok result (step.after machine) := by
  rw [after]
  cases ended : step machine with
  | ok result later => exact ⟨result, rfl⟩
  | error stop later =>
      rw [ended] at succeeds
      cases succeeds

theorem after_between (enter leave : Machine → Machine) (step : Exec α) (machine : Machine) :
    (between enter leave step).after machine = leave (step.after (enter machine)) := by
  simp only [after, between]
  cases step (enter machine) <;> rfl

/-- The limit on the depth, where no further call can be made. -/
def depthExceeded (options : Options) (depth : Nat) : Option Nat :=
  if options.depthLimit ≤ depth then some options.depthLimit else none

theorem depthExceeded_of_le {options : Options} {depth : Nat}
    (deep : options.depthLimit ≤ depth) :
    depthExceeded options depth = some options.depthLimit :=
  if_pos deep

theorem depthExceeded_of_lt {options : Options} {depth : Nat}
    (shallow : depth < options.depthLimit) : depthExceeded options depth = none :=
  if_neg (Nat.not_le_of_lt shallow)

/-- Fails at a limit that is reached, and goes on otherwise. -/
def unlessLimited (error : Nat → RuntimeError) (limit : Option Nat) (step : Exec α) : Exec α :=
  match limit with
  | some limit => failAtLimit (error limit)
  | none => step

/-- Goes on after a round or a statement, unless it has returned. -/
def unlessReturned (rest : Exec Completion) : Completion → Exec Completion
  | .normal => rest
  | .returned value => return .returned value

theorem whileLoop_succ (limit : Option Nat) (condition : Exec Bool) (body : Exec Completion)
    (fuel started : Nat) :
    whileLoop limit condition body (fuel + 1) started =
      (condition >>= fun truth =>
        if truth then
          unlessLimited .loopLimit (exceeds limit (started + 1))
            (body >>= unlessReturned (whileLoop limit condition body fuel (started + 1)))
        else return .normal) := by
  rw [whileLoop]
  rfl

/-- Executes the body of a function in a frame with its parameters. -/
def callBody (execute : Statement → Exec Completion) (function : Function)
    (arguments : List Value) : Exec Value := do
  let completion ← inCall do
    defineAll function.parameters arguments
    executeAll execute function.body
  return resultOf completion

/-- The function that the program has defined under a name. -/
def functionOf (name : String) : Exec (Option Function) :=
  return (← get).functions.get? name

/-- Goes on with a call, unless the limit on the depth is reached. -/
def unlessDeep (options : Options) (error : Nat → RuntimeError) (step : Exec α) : Exec α := do
  unlessLimited error (depthExceeded options (← get).depth) step

theorem unlessDeep_apply (options : Options) (error : Nat → RuntimeError) (step : Exec α)
    (machine : Machine) :
    unlessDeep options error step machine =
      unlessLimited error (depthExceeded options machine.depth) step machine := rfl

/-- Calls a function, if there is one. -/
def callFound (options : Options) (execute : Statement → Exec Completion) (name : String)
    (arguments : List Value) : Option Function → Exec Value
  | none => fail (.undefinedFunction name)
  | some function =>
      if arguments.length ≠ function.parameters.length then
        fail (.argumentCount name function.parameters.length arguments.length)
      else
        unlessDeep options .callDepth (callBody execute function arguments)

theorem callFunction_eq (options : Options) (execute : Statement → Exec Completion)
    (name : String) (arguments : List Value) :
    callFunction options execute name arguments =
      functionOf name >>= callFound options execute name arguments := by
  funext machine
  change _ = callFound options execute name arguments (machine.functions.get? name) machine
  rw [callFunction, get_bind_apply]
  cases machine.functions.get? name with
  | none => rfl
  | some function =>
      by_cases mismatch : arguments.length ≠ function.parameters.length
      · simp only [callFound, if_pos mismatch]
      · simp only [callFound, if_neg mismatch, unlessDeep, get_bind_apply]
        by_cases deep : options.depthLimit ≤ machine.depth
        · rw [if_pos deep, depthExceeded_of_le deep, unlessLimited]
        · rw [if_neg deep, depthExceeded_of_lt (Nat.lt_of_not_le deep), unlessLimited, callBody]

/-- The machine behind an embedded program that has left its own machine behind. -/
def behindEmbedded (machine inner : Machine) : Machine :=
  { machine with
    streams := inner.streams, history := .embedded inner.history :: machine.history }

theorem runEmbedded_apply (execute : Statement → Exec Completion) (block : Block)
    (machine : Machine) :
    runEmbedded execute block machine =
      match executeAll execute block (.fresh machine.streams (machine.depth + 1)) with
      | .ok _ inner => .ok () (behindEmbedded machine inner)
      | .error (.error error) inner =>
          .error (.error (.embeddedFailure error)) (behindEmbedded machine inner)
      | .error (.halt reason) inner => .error (.halt reason) (behindEmbedded machine inner) := by
  simp only [runEmbedded]
  rcases executeAll execute block (.fresh machine.streams (machine.depth + 1)) with
    ⟨completion, inner⟩ | ⟨_ | _, inner⟩ <;> rfl

/-- Reads and runs the program that a text holds. -/
def runText (options : Options) (execute : Statement → Exec Completion) (code : String) :
    Exec Value :=
  match readProgram options.policy code with
  | .error error => fail (.embeddedSource error)
  | .ok block => do
      runEmbedded execute block
      return .nil

theorem embedded_refused (options : Options) (execute : Statement → Exec Completion)
    {arguments : List Value} (noText : ¬∃ code, arguments = [.string code]) :
    embedded options execute arguments = fail .embeddedArgument := by
  simp only [embedded]
  split
  · rename_i code
    exact (noText ⟨code, rfl⟩).elim
  · rfl

theorem embedded_eq (options : Options) (execute : Statement → Exec Completion)
    (code : String) :
    embedded options execute [.string code] =
      unlessDeep options (fun limit => .embeddedFailure (.callDepth limit))
        (runText options execute code) := by
  funext machine
  rw [embedded, unlessDeep, get_bind_apply, get_bind_apply]
  by_cases deep : options.depthLimit ≤ machine.depth
  · rw [if_pos deep, depthExceeded_of_le deep, unlessLimited]
  · rw [depthExceeded_of_lt (Nat.lt_of_not_le deep), unlessLimited]
    exact congrFun (if_neg deep) machine

/-- The machine with other functions. -/
def withFunctions (functions : Table Function) (machine : Machine) : Machine :=
  { machine with functions }

/-- Changes the machine that a step has left behind, however it ended. -/
def mapMachine (change : Machine → Machine) :
    EStateM.Result Stop Machine α → EStateM.Result Stop Machine α
  | .ok result later => .ok result (change later)
  | .error stop later => .error stop (change later)

/-- The step does the same on a machine with other functions, and keeps these. -/
def IgnoresFunctions (step : Exec α) : Prop :=
  ∀ functions machine,
    step (withFunctions functions machine) = mapMachine (withFunctions functions) (step machine)

theorem IgnoresFunctions.bind {step : Exec α} {next : α → Exec β} (ignores : IgnoresFunctions step)
    (ignoresNext : ∀ result, IgnoresFunctions (next result)) :
    IgnoresFunctions (step >>= next) := by
  intro functions machine
  rw [bind_apply, bind_apply, ignores functions machine]
  cases step machine with
  | ok result later => exact ignoresNext result functions later
  | error stop later => rfl

theorem ignoresFunctions_lookup (name : String) : IgnoresFunctions (lookup name) := by
  intro functions machine
  rw [lookup_apply, lookup_apply]
  change (match machine.scope.get? name with | some value => _ | none => _) = _
  cases machine.scope.get? name <;> rfl

theorem ignoresFunctions_assign (name : String) (value : Value) :
    IgnoresFunctions (assign name value) := by
  intro functions machine
  rw [assign_apply, assign_apply]
  change (match machine.scope.assign? name value with | some scope => _ | none => _) = _
  cases machine.scope.assign? name value <;> rfl

theorem ignoresFunctions_textOf (value : Value) : IgnoresFunctions (textOf value) := by
  intro functions machine
  rw [textOf_apply, textOf_apply]
  change (match machine.heap.content? value with | some content => _ | none => _) = _
  cases machine.heap.content? value <;> rfl

theorem ignoresFunctions_readLine : IgnoresFunctions readLine := by
  intro functions machine
  rw [readLine_apply, readLine_apply]
  change ofExcept (textRead machine.streams.delivery) _ = _
  cases textRead machine.streams.delivery <;> rfl

theorem ignoresFunctions_write (text : String) : IgnoresFunctions (write text) := by
  intro functions machine
  rw [write_apply, write_apply]
  change writeResult (machine.streams.writeError? _) _ = _
  cases machine.streams.writeError? text.toUTF8.data.size <;> rfl

theorem ignoresFunctions_takeOut (direction : Direction) (count : Nat) :
    IgnoresFunctions (takeOut direction count) := by
  intro functions machine
  rw [takeOut_apply, takeOut_apply]
  by_cases short : machine.buffer.size < count
  · rw [if_pos short]
    exact if_pos short
  · rw [if_neg short]
    have same : (withFunctions functions machine).buffer = machine.buffer := rfl
    rw [same, if_neg short]
    exact ignoresFunctions_write _ functions (behindTake direction count machine)

end Mel.Exec

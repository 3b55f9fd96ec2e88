import Mel.Proofs.Parallel
import Mathlib.Order.Defs.Unbundled

/-!
# Laws of steps

A law says how the machine behind a step compares with the machine before it. It
comes in two strengths, one for expressions and a weaker one for statements: an
expression can call functions, but what these bind is gone when they return.

A law has to hold of the elementary steps, to pass from step to step, and to
survive the end of a frame, of a call and of an embedded program. Then it holds of
every run, whatever its fuel and however it ends.
-/

namespace Mel

/-- A comparison of machines that elementary steps keep, that goes on from step to step, and that
the ends of frames, calls and embedded programs preserve. -/
structure StepLaw where
  /-- How the machine behind an expression compares with the one before it. -/
  expression : Machine → Machine → Prop
  /-- How the machine behind a statement compares with the one before it. -/
  statement : Machine → Machine → Prop
  refl : ∀ machine, expression machine machine
  expression_trans : ∀ {first second third}, expression first second →
    expression second third → expression first third
  statement_trans : ∀ {first second third}, statement first second →
    statement second third → statement first third
  weaken : ∀ {before later}, expression before later → statement before later
  newArray : ∀ (machine : Machine) items,
    expression machine
      { machine with
        heap := (machine.heap.alloc items.toArray).2
        history := .arrayMade items :: machine.history }
  extendArray : ∀ (machine : Machine) ref items,
    expression machine
      { machine with
        heap := machine.heap.extend ref items.toArray
        history := .arrayExtended ref items :: machine.history }
  assign : ∀ {machine : Machine} {name value scope},
    machine.scope.assign? name value = some scope → expression machine { machine with scope }
  write : ∀ (machine : Machine) bytes,
    expression machine { machine with streams := machine.streams.write bytes }
  limit : ∀ machine : Machine,
    expression machine { machine with history := .limitReached :: machine.history }
  call : ∀ {machine later}, statement (Exec.enterCall machine) later →
    expression machine (Exec.leaveCall later)
  embedded : ∀ {machine inner : Machine},
    statement (.fresh machine.streams (machine.depth + 1)) inner →
      expression machine (Exec.behindEmbedded machine inner)
  define : ∀ (machine : Machine) name value,
    statement machine { machine with scope := machine.scope.define name value }
  defineFunction : ∀ (machine : Machine) name function,
    statement machine { machine with functions := machine.functions.insert name function }
  readLine : ∀ machine, statement machine (Exec.behindRead machine)
  put : ∀ (machine : Machine) character,
    statement machine
      { machine with
        buffer := machine.buffer.push character, history := .put character :: machine.history }
  take : ∀ {machine : Machine} direction {count}, count ≤ machine.buffer.size →
    statement machine
      { machine with
        buffer := machine.buffer.drop count
        history := .taken direction (machine.buffer.take count).toList :: machine.history }
  frame : ∀ {machine later}, statement (Exec.openFrame machine) later →
    statement machine (Exec.closeFrame later)

namespace StepLaw

variable (law : StepLaw)

theorem statement_refl (machine : Machine) : law.statement machine machine :=
  law.weaken (law.refl machine)

instance : IsPreorder Machine law.expression where
  refl := law.refl
  trans _ _ _ := law.expression_trans

instance : IsPreorder Machine law.statement where
  refl := law.statement_refl
  trans _ _ _ := law.statement_trans

/-- What the law says of steps of this strength. -/
def relation : Exec.Strength → Machine → Machine → Prop
  | .expression => law.expression
  | .statement => law.statement

instance (strength : Exec.Strength) : IsPreorder Machine (law.relation strength) :=
  match strength with
  | .expression => inferInstanceAs (IsPreorder Machine law.expression)
  | .statement => inferInstanceAs (IsPreorder Machine law.statement)

theorem relation_of_expression {strength : Exec.Strength} {before later : Machine}
    (related : law.expression before later) : law.relation strength before later := by
  cases strength with
  | expression => exact related
  | statement => exact law.weaken related

theorem statement_of_relation {strength : Exec.Strength} {before later : Machine}
    (related : law.relation strength before later) : law.statement before later := by
  cases strength with
  | expression => exact law.weaken related
  | statement => exact related

/-- Two laws at once. -/
def and (first second : StepLaw) : StepLaw where
  expression before later := first.expression before later ∧ second.expression before later
  statement before later := first.statement before later ∧ second.statement before later
  refl machine := ⟨first.refl machine, second.refl machine⟩
  expression_trans early late :=
    ⟨first.expression_trans early.1 late.1, second.expression_trans early.2 late.2⟩
  statement_trans early late :=
    ⟨first.statement_trans early.1 late.1, second.statement_trans early.2 late.2⟩
  weaken both := ⟨first.weaken both.1, second.weaken both.2⟩
  newArray machine items := ⟨first.newArray machine items, second.newArray machine items⟩
  extendArray machine ref items :=
    ⟨first.extendArray machine ref items, second.extendArray machine ref items⟩
  assign assigned := ⟨first.assign assigned, second.assign assigned⟩
  write machine bytes := ⟨first.write machine bytes, second.write machine bytes⟩
  limit machine := ⟨first.limit machine, second.limit machine⟩
  call both := ⟨first.call both.1, second.call both.2⟩
  embedded both := ⟨first.embedded both.1, second.embedded both.2⟩
  define machine name value := ⟨first.define machine name value, second.define machine name value⟩
  defineFunction machine name function :=
    ⟨first.defineFunction machine name function, second.defineFunction machine name function⟩
  readLine machine := ⟨first.readLine machine, second.readLine machine⟩
  put machine character := ⟨first.put machine character, second.put machine character⟩
  take direction _ enough := ⟨first.take direction enough, second.take direction enough⟩
  frame both := ⟨first.frame both.1, second.frame both.2⟩

end StepLaw

namespace Exec

/-- A step leaves behind a machine that compares with the one before it in this way. -/
def Keeps {α : Type} (relation : Machine → Machine → Prop) (step : Exec α) : Prop :=
  ∀ machine, relation machine (step.after machine)

/-- What a step has reached is only carried further by what comes behind it. -/
theorem Keeps.after_bind {α β : Type} {relation : Machine → Machine → Prop}
    [IsPreorder Machine relation] {next : α → Exec β}
    (kept : ∀ result, Keeps relation (next result)) (step : Exec α) (machine : Machine) :
    relation (step.after machine) ((step >>= next).after machine) := by
  rcases ended : step machine with ⟨result, later⟩ | ⟨stop, later⟩
  · rw [after_of_ok ended, after, bind_of_ok ended]
    exact kept result later
  · rw [after_of_error ended, after_of_error (bind_of_error ended)]
    exact refl later

theorem Keeps.bind {α β : Type} {relation : Machine → Machine → Prop}
    [IsPreorder Machine relation] {step : Exec α} {next : α → Exec β}
    (kept : Keeps relation step) (keptNext : ∀ result, Keeps relation (next result)) :
    Keeps relation (step >>= next) :=
  fun machine => IsTrans.trans _ _ _ (kept machine) (Keeps.after_bind keptNext step machine)

variable {α : Type} (law : StepLaw) {strength : Strength}

theorem keeps_lookup (name : String) : Keeps law.expression (lookup name) := by
  intro machine
  rw [after, lookup_apply]
  cases machine.scope.get? name <;> exact law.refl machine

theorem keeps_assign (name : String) (value : Value) :
    Keeps law.expression (assign name value) := by
  intro machine
  rw [after, assign_apply]
  cases assigned : machine.scope.assign? name value with
  | none => exact law.refl machine
  | some scope => exact law.assign assigned

theorem keeps_textOf (value : Value) : Keeps law.expression (textOf value) := by
  intro machine
  rw [after, textOf_apply]
  cases machine.heap.content? value <;> exact law.refl machine

theorem keeps_readLine : Keeps law.statement readLine := by
  intro machine
  have read := law.readLine machine
  rw [after, readLine_apply]
  cases textRead machine.streams.delivery <;> exact read

theorem keeps_write (text : String) : Keeps law.expression (write text) := by
  intro machine
  have written := law.write machine text.toUTF8.data
  rw [after, write_apply, machineOf_writeResult]
  exact written

theorem keeps_takeOut (direction : Direction) (count : Nat) :
    Keeps law.statement (takeOut direction count) := by
  intro machine
  rw [after, takeOut_apply]
  by_cases short : machine.buffer.size < count
  · rw [if_pos short]
    exact law.statement_refl machine
  · rw [if_neg short]
    -- Only here is it known that there are enough characters to take.
    have taken : law.statement machine (behindTake direction count machine) :=
      law.take direction (Nat.le_of_not_lt short)
    exact law.statement_trans taken (law.weaken (keeps_write law _ _))

/-- Every law holds of the elementary steps. -/
theorem keeps_elementary {step : Exec α} (isElementary : Elementary strength step) :
    Keeps (law.relation strength) step := by
  cases isElementary with
  | pure result => exact law.refl
  | fail plain => exact law.refl
  | lookup name => exact keeps_lookup law name
  | assign name value => exact keeps_assign law name value
  | functionOf name => exact law.refl
  | newArray items => exact fun machine => law.newArray machine items
  | itemsOf ref => exact law.refl
  | extendArray ref items => exact fun machine => law.extendArray machine ref items
  | isTruthy value => exact law.refl
  | textOf value => exact keeps_textOf law value
  | write text => exact keeps_write law text
  | define name value => exact fun machine => law.define machine name value
  | defineFunction name function => exact fun machine => law.defineFunction machine name function
  | readLine => exact keeps_readLine law
  | put character => exact fun machine => law.put machine character
  | takeOut direction count => exact keeps_takeOut law direction count

theorem keeps_inFrame {step : Exec α} (kept : Keeps law.statement step) :
    Keeps law.statement (inFrame step) := by
  intro machine
  rw [inFrame, after_between]
  exact law.frame (kept (openFrame machine))

theorem keeps_inCall {step : Exec α} (kept : Keeps law.statement step) :
    Keeps law.expression (inCall step) := by
  intro machine
  rw [inCall, after_between]
  exact law.call (kept (enterCall machine))

theorem Keeps.after_catching {relation : Machine → Machine → Prop}
    [IsPreorder Machine relation] {handler : Exec α} (kept : Keeps relation handler)
    (step : Exec α) (machine : Machine) :
    relation (step.after machine) ((catching step handler).after machine) := by
  rw [after, after, catching_apply]
  rcases step machine with ⟨result, later⟩ | ⟨error | reason, later⟩
  · exact refl later
  · exact kept later
  · exact refl later

theorem keeps_catching {step handler : Exec α} (kept : Keeps law.statement step)
    (keptHandler : Keeps law.statement handler) : Keeps law.statement (catching step handler) :=
  fun machine => law.statement_trans (kept machine) (keptHandler.after_catching step machine)

theorem keeps_unlessLimited {step : Exec α} (kept : Keeps (law.relation strength) step)
    (error : Nat → RuntimeError) (limit : Option Nat) :
    Keeps (law.relation strength) (unlessLimited error limit step) := by
  cases limit with
  | none => exact kept
  | some limit => exact fun machine => law.relation_of_expression (law.limit machine)

theorem keeps_unlessDeep {step : Exec α} (kept : Keeps (law.relation strength) step)
    (options : Options) (error : Nat → RuntimeError) :
    Keeps (law.relation strength) (unlessDeep options error step) := by
  intro machine
  rw [after, unlessDeep_apply]
  exact keeps_unlessLimited law kept error (depthExceeded options machine.depth) machine

/-- An embedded program keeps the law on a machine of its own, from which the law of embedding leads
back to the machine outside. -/
theorem keeps_runEmbedded {execute : Statement → Exec Completion} {block : Block}
    (kept : Keeps law.statement (executeAll execute block)) :
    Keeps law.expression (runEmbedded execute block) := by
  intro machine
  have closed := law.embedded (kept (.fresh machine.streams (machine.depth + 1)))
  simp only [after] at closed
  rw [after, runEmbedded_apply]
  rcases ended : executeAll execute block (.fresh machine.streams (machine.depth + 1)) with
    ⟨completion, later⟩ | ⟨error | reason, later⟩
  · rwa [ended] at closed
  · rwa [ended] at closed
  · rwa [ended] at closed

variable {left right : Options} {early : Prop}

/-- Every law holds of all steps that are put together from elementary ones. -/
theorem Parallel.keeps {first second : Exec α}
    (parallel : Parallel left right early strength first second) :
    Keeps (law.relation strength) first := by
  induction parallel with
  | elementary isElementary => exact keeps_elementary law isElementary
  | weaken _ kept => exact fun machine => law.weaken (kept machine)
  | bind _ _ kept keptNext => exact kept.bind keptNext
  | inFrame _ kept => exact keeps_inFrame law kept
  | inCall _ kept => exact keeps_inCall law kept
  | catching _ _ kept keptHandler => exact keeps_catching law kept keptHandler
  | unlessLooping started _ kept => exact keeps_unlessLimited law kept _ _
  | unlessDeep _ kept => exact keeps_unlessDeep law kept _ _
  | unlessDeepEmbedded _ kept => exact keeps_unlessDeep law kept _ _
  | runEmbedded _ kept => exact keeps_runEmbedded law kept
  | exhausted => exact law.refl
  | early _ _ => exact law.refl

end Exec

/-- Every law holds of all runs. -/
theorem StepLaw.keeps_run (law : StepLaw) (options : Options) (fuel : Nat) :
    (∀ expression, Exec.Keeps law.expression (evaluate options fuel expression)) ∧
      ∀ statement, Exec.Keeps law.statement (execute options fuel statement) := by
  have fuels : Exec.FuelFor False fuel fuel := .inl rfl
  rcases Exec.parallel_run (Eq.refl options.policy) fuels with ⟨evaluated, executed⟩
  exact ⟨fun expression => (evaluated expression).keeps law,
    fun statement => (executed statement).keeps law⟩

theorem StepLaw.keeps_evaluateAll (law : StepLaw) (options : Options) (fuel : Nat)
    (expressions : List Expr) :
    Exec.Keeps law.expression (Exec.evaluateAll (evaluate options fuel) expressions) := by
  have fuels : Exec.FuelFor False fuel fuel := .inl rfl
  exact (Exec.parallel_evaluateAll (Exec.parallel_run (Eq.refl options.policy) fuels).1
    expressions).keeps law

theorem StepLaw.keeps_interpret (law : StepLaw) (options : Options) (fuel : Nat) (block : Block) :
    Exec.Keeps law.statement (interpret options fuel block) := by
  have fuels : Exec.FuelFor False fuel fuel := .inl rfl
  exact (Exec.parallel_interpret (Eq.refl options.policy) fuels block).keeps law

end Mel

import Mathlib.Data.List.Forall2
import Mathlib.Data.Option.Basic
import Mel.Proofs.Parallel
import Mel.Proofs.Scopes

/-!
# Programs that run alike

Two programs can differ and do the same: an operand that plays no part can be another one, a
number can be written in another way, and some constants have two forms. This file says when
programs are alike in this sense, and that alike programs run alike on the same machine.

The functions that they define are alike as well, not the same. So the machines behind two runs
agree in all but the bodies of functions, and go on agreeing whatever is run on them next.
-/

namespace Mel

/-- What evaluating an expression comes to that has no parts. -/
def Expr.constant? : Expr → Option (Exec Value)
  | .string text => some (return .string text)
  | .real literal => some (return .real literal.value)
  | .sentinel constant => some (Exec.ofSentinel constant)
  | .bits digits => some (Exec.ofExcept (Value.ofBits digits))
  | .array [] => some (Exec.newArray [])
  | .raise message => some (Exec.fail (.raised message))
  | _ => none

/-- Expressions with the same constants and the same names in the same places. -/
inductive Expr.Alike : Expr → Expr → Prop where
  | constant {first second : Expr} {step : Exec Value} (isFirst : first.constant? = some step)
      (isSecond : second.constant? = some step) : Alike first second
  | variable (name : String) : Alike (.variable name) (.variable name)
  | array {elements elements' : List Expr} (alike : List.Forall₂ Alike elements elements') :
      Alike (.array elements) (.array elements')
  | negate {operand operand' : Expr} (alike : Alike operand operand') :
      Alike (.negate operand) (.negate operand')
  | binary (operator : Operator) {left left' right right' : Expr} (alikeLeft : Alike left left')
      (alikeRight : Alike right right') :
      Alike (.binary operator left right) (.binary operator left' right')
  | suffix (operator : Operator) {operand operand' : Expr} (alike : Alike operand operand')
      (trailing trailing' : Option Expr) :
      Alike (.suffix operator operand trailing) (.suffix operator operand' trailing')
  | call (callee : Callee) {arguments arguments' : List Expr}
      (alike : List.Forall₂ Alike arguments arguments') :
      Alike (.call callee arguments) (.call callee arguments')

mutual

/-- Statements with alike expressions in the same places. -/
inductive Statement.Alike : Statement → Statement → Prop where
  | assign (name : String) {value value' : Expr} (alike : value.Alike value') :
      Statement.Alike (.assign name value) (.assign name value')
  | input (name : String) : Statement.Alike (.input name) (.input name)
  | output {value value' : Expr} (alike : value.Alike value') :
      Statement.Alike (.output value) (.output value')
  | outputMany (direction : Direction) {count count' : Expr} (alike : count.Alike count') :
      Statement.Alike (.outputMany direction count) (.outputMany direction count')
  | call (callee : Callee) {arguments arguments' : List Expr}
      (alike : List.Forall₂ Expr.Alike arguments arguments') :
      Statement.Alike (.call callee arguments) (.call callee arguments')
  | define (name : String) (parameters : List String) {body body' : List Statement}
      (alike : List.Forall₂ Statement.Alike body body') :
      Statement.Alike (.define name parameters body) (.define name parameters body')
  | giveBackNothing : Statement.Alike (.giveBack none) (.giveBack none)
  | giveBack {value value' : Expr} (alike : value.Alike value') :
      Statement.Alike (.giveBack (some value)) (.giveBack (some value'))
  | conditional {condition condition' : Expr} {body body' : List Statement}
      {fallback fallback' : Fallback} (alikeCondition : condition.Alike condition')
      (alike : List.Forall₂ Statement.Alike body body') (alikeFallback : fallback.Alike fallback') :
      Statement.Alike (.conditional condition body fallback)
        (.conditional condition' body' fallback')
  | whileLoop {condition condition' : Expr} {body body' : List Statement}
      (alikeCondition : condition.Alike condition')
      (alike : List.Forall₂ Statement.Alike body body') :
      Statement.Alike (.whileLoop condition body) (.whileLoop condition' body')
  | forLoop (name : String) {range range' : Expr} {body body' : List Statement}
      (alikeRange : range.Alike range') (alike : List.Forall₂ Statement.Alike body body') :
      Statement.Alike (.forLoop name range body) (.forLoop name range' body')
  | attempt {body body' handler handler' : List Statement}
      (alike : List.Forall₂ Statement.Alike body body')
      (alikeHandler : List.Forall₂ Statement.Alike handler handler') :
      Statement.Alike (.attempt body handler) (.attempt body' handler')
  | raise (message : String) : Statement.Alike (.raise message) (.raise message)

inductive Fallback.Alike : Fallback → Fallback → Prop where
  | nothing : Fallback.Alike .nothing .nothing
  | otherwise {body body' : List Statement} (alike : List.Forall₂ Statement.Alike body body') :
      Fallback.Alike (.otherwise body) (.otherwise body')
  | elseIf {condition condition' : Expr} {body body' : List Statement}
      {fallback fallback' : Fallback} (alikeCondition : condition.Alike condition')
      (alike : List.Forall₂ Statement.Alike body body')
      (alikeFallback : fallback.Alike fallback') :
      Fallback.Alike (.elseIf condition body fallback) (.elseIf condition' body' fallback')

end

theorem Expr.not_variable_of_constant {expression : Expr} {step : Exec Value}
    (isConstant : expression.constant? = some step) (later : List Expr) :
    Exec.firstVariable? (expression :: later) = none := by
  cases expression <;> first | rfl | cases isConstant

/-- Of alike expressions both are the same variable or none is one. -/
theorem Expr.Alike.firstVariable?_cons {first second : Expr} (alike : first.Alike second)
    (later later' : List Expr) :
    Exec.firstVariable? (second :: later') = Exec.firstVariable? (first :: later) := by
  cases alike with
  | constant isFirst isSecond =>
      rw [not_variable_of_constant isFirst, not_variable_of_constant isSecond]
  | _ => rfl

/-- Blocks of alike statements. -/
abbrev Block.Alike (first second : Block) : Prop :=
  List.Forall₂ Statement.Alike first second

mutual

theorem Expr.alike_refl : ∀ expression : Expr, expression.Alike expression
  | .string _ | .real _ | .sentinel _ | .bits _ | .raise _ => .constant rfl rfl
  | .array elements => .array (alikeAll_refl elements)
  | .variable name => .variable name
  | .negate operand => .negate (alike_refl operand)
  | .binary operator left right => .binary operator (alike_refl left) (alike_refl right)
  | .suffix operator operand trailing => .suffix operator (alike_refl operand) trailing trailing
  | .call callee arguments => .call callee (alikeAll_refl arguments)

theorem Expr.alikeAll_refl : ∀ expressions : List Expr,
    List.Forall₂ Expr.Alike expressions expressions
  | [] => .nil
  | expression :: expressions => .cons (alike_refl expression) (alikeAll_refl expressions)

end

mutual

theorem Statement.alike_refl : ∀ statement : Statement, statement.Alike statement
  | .assign name value => .assign name value.alike_refl
  | .input name => .input name
  | .output value => .output value.alike_refl
  | .outputMany direction count => .outputMany direction count.alike_refl
  | .call callee arguments => .call callee (Expr.alikeAll_refl arguments)
  | .define name parameters body => .define name parameters (Block.alike_refl body)
  | .giveBack none => .giveBackNothing
  | .giveBack (some value) => .giveBack value.alike_refl
  | .conditional condition body fallback =>
      .conditional condition.alike_refl (Block.alike_refl body) (Fallback.alike_refl fallback)
  | .whileLoop condition body => .whileLoop condition.alike_refl (Block.alike_refl body)
  | .forLoop name range body => .forLoop name range.alike_refl (Block.alike_refl body)
  | .attempt body handler => .attempt (Block.alike_refl body) (Block.alike_refl handler)
  | .raise message => .raise message

theorem Block.alike_refl : ∀ block : List Statement, Block.Alike block block
  | [] => .nil
  | statement :: statements => .cons (Statement.alike_refl statement) (Block.alike_refl statements)

theorem Fallback.alike_refl : ∀ fallback : Fallback, fallback.Alike fallback
  | .nothing => .nothing
  | .otherwise body => .otherwise (Block.alike_refl body)
  | .elseIf condition body fallback =>
      .elseIf condition.alike_refl (Block.alike_refl body) (Fallback.alike_refl fallback)

end

/-- Functions with the same parameters and alike bodies. -/
structure Function.Alike (first second : Function) : Prop where
  parameters : first.parameters = second.parameters
  body : Block.Alike first.body second.body

/-- Tables with alike functions under the same names in the same order. -/
def Table.Alike (first second : Table Function) : Prop :=
  List.Forall₂ (fun entry entry' => entry.1 = entry'.1 ∧ entry.2.Alike entry'.2)
    first.entries second.entries

theorem Function.alike_refl (function : Function) : function.Alike function :=
  ⟨rfl, Block.alike_refl function.body⟩

namespace Table

theorem alike_refl (table : Table Function) : table.Alike table :=
  List.forall₂_same.mpr fun entry _ => ⟨rfl, entry.2.alike_refl⟩

theorem Alike.get? {first second : Table Function} (alike : first.Alike second) (name : String) :
    Option.Rel Function.Alike (first.get? name) (second.get? name) := by
  have matching : first.Matches Function.Alike second := alike
  exact matching.get? name

theorem Alike.insert {first second : Table Function} (alike : first.Alike second) (name : String)
    {function function' : Function} (alikeFunction : function.Alike function') :
    (first.insert name function).Alike (second.insert name function') := by
  have matching : first.Matches Function.Alike second := alike
  exact matching.insert name alikeFunction

end Table

/-- Machines that are the same but for the bodies of their functions. -/
structure Machine.Alike (left right : Machine) : Prop where
  machine : right = Exec.withFunctions right.functions left
  functions : left.functions.Alike right.functions

theorem Machine.alike_refl (machine : Machine) : machine.Alike machine :=
  ⟨rfl, machine.functions.alike_refl⟩

/-- Changes that have nothing to do with functions. -/
theorem Machine.Alike.change {left right : Machine} (alike : left.Alike right)
    (change : Machine → Machine)
    (commutes : ∀ functions machine,
      change (Exec.withFunctions functions machine) =
        Exec.withFunctions functions (change machine)) :
    (change left).Alike (change right) := by
  have onLeft : change left = Exec.withFunctions left.functions (change left) := commutes _ left
  have onRight : change right = Exec.withFunctions right.functions (change left) := by
    rw [← commutes, ← alike.machine]
  have keptLeft : (change left).functions = left.functions := by rw [onLeft, Exec.withFunctions]
  have keptRight : (change right).functions = right.functions := by rw [onRight, Exec.withFunctions]
  refine ⟨?_, ?_⟩
  · rw [keptRight]
    exact onRight
  · rw [keptLeft, keptRight]
    exact alike.functions

namespace Exec

variable {α β : Type}

/-- Ends of steps with the same result or the same error on alike machines. -/
inductive EndsAlike : EStateM.Result Stop Machine α → EStateM.Result Stop Machine α → Prop where
  | ok (result : α) {left right : Machine} (alike : left.Alike right) :
      EndsAlike (.ok result left) (.ok result right)
  | error (stop : Stop) {left right : Machine} (alike : left.Alike right) :
      EndsAlike (.error stop left) (.error stop right)

/-- Steps that end alike on alike machines. -/
def RunsAlike (first second : Exec α) : Prop :=
  ∀ left right : Machine, left.Alike right → EndsAlike (first left) (second right)

/-- A step that ignores functions does not see the one difference there is between alike
machines. -/
theorem IgnoresFunctions.runsAlike {step : Exec α} (ignores : IgnoresFunctions step) :
    RunsAlike step step := by
  intro left right alike
  have onLeft := ignores left.functions left
  have onRight := ignores right.functions left
  rw [← alike.machine] at onRight
  rw [onRight]
  -- The step has kept the functions of the first machine.
  have same : withFunctions left.functions left = left := rfl
  rw [same] at onLeft
  cases ended : step left with
  | ok result later =>
      rw [ended, mapMachine] at onLeft
      obtain ⟨-, kept⟩ := EStateM.Result.ok.inj onLeft
      refine .ok result ⟨rfl, ?_⟩
      rw [kept]
      exact alike.functions
  | error stop later =>
      rw [ended, mapMachine] at onLeft
      obtain ⟨-, kept⟩ := EStateM.Result.error.inj onLeft
      refine .error stop ⟨rfl, ?_⟩
      rw [kept]
      exact alike.functions

theorem Functionless.runsAlike {strength : Strength} {step : Exec α}
    (functionless : Functionless strength step) : RunsAlike step step :=
  functionless.ignores.runsAlike

theorem runsAlike_pure (result : α) : RunsAlike (pure result) (pure result) :=
  fun _ _ alike => .ok result alike

theorem runsAlike_throw (stop : Stop) : RunsAlike (throw stop : Exec α) (throw stop) :=
  fun _ _ alike => .error stop alike

theorem RunsAlike.bind {first second : Exec α} {firstNext secondNext : α → Exec β}
    (runs : RunsAlike first second)
    (runsNext : ∀ result, RunsAlike (firstNext result) (secondNext result)) :
    RunsAlike (first >>= firstNext) (second >>= secondNext) := by
  intro left right alike
  have ends := runs left right alike
  rw [bind_apply, bind_apply]
  generalize first left = ended, second right = ended' at ends ⊢
  cases ends with
  | ok result alike => exact runsNext result _ _ alike
  | error stop alike => exact .error stop alike

theorem RunsAlike.between {first second : Exec α} (runs : RunsAlike first second)
    {enter leave : Machine → Machine}
    (enters : ∀ functions machine,
      enter (withFunctions functions machine) = withFunctions functions (enter machine))
    (leaves : ∀ functions machine,
      leave (withFunctions functions machine) = withFunctions functions (leave machine)) :
    RunsAlike (between enter leave first) (between enter leave second) := by
  intro left right alike
  have ends := runs _ _ (alike.change enter enters)
  simp only [Exec.between]
  generalize first (enter left) = ended, second (enter right) = ended' at ends ⊢
  cases ends with
  | ok result alike => exact .ok result (alike.change leave leaves)
  | error stop alike => exact .error stop (alike.change leave leaves)

theorem RunsAlike.inFrame {first second : Exec α} (runs : RunsAlike first second) :
    RunsAlike (inFrame first) (inFrame second) :=
  runs.between (fun _ _ => rfl) fun _ _ => rfl

theorem RunsAlike.inCall {first second : Exec α} (runs : RunsAlike first second) :
    RunsAlike (inCall first) (inCall second) :=
  runs.between (fun _ _ => rfl) fun _ _ => rfl

theorem RunsAlike.catching {first second handler handler' : Exec α}
    (runs : RunsAlike first second) (runsHandler : RunsAlike handler handler') :
    RunsAlike (catching first handler) (catching second handler') := by
  intro left right alike
  have ends := runs left right alike
  rw [catching_apply, catching_apply]
  generalize first left = ended, second right = ended' at ends ⊢
  cases ends with
  | ok result alike => exact .ok result alike
  | error stop alike =>
      cases stop with
      | error error => exact runsHandler _ _ alike
      | halt reason => exact .error _ alike

theorem RunsAlike.unlessLimited {first second : Exec α} (runs : RunsAlike first second)
    (error : Nat → RuntimeError) (limit : Option Nat) :
    RunsAlike (unlessLimited error limit first) (unlessLimited error limit second) := by
  cases limit with
  | none => exact runs
  | some limit =>
      have ignores : IgnoresFunctions (failAtLimit (error limit) : Exec α) := fun _ _ => rfl
      exact ignores.runsAlike

theorem RunsAlike.unlessDeep {first second : Exec α} (runs : RunsAlike first second)
    (options : Options) (error : Nat → RuntimeError) :
    RunsAlike (unlessDeep options error first) (unlessDeep options error second) := by
  intro left right alike
  have sameDepth : right.depth = left.depth := by rw [alike.machine, withFunctions]
  rw [unlessDeep_apply, unlessDeep_apply, sameDepth]
  exact runs.unlessLimited error (depthExceeded options left.depth) left right alike

theorem RunsAlike.unlessReturned {first second : Exec Completion} (runs : RunsAlike first second)
    (completion : Completion) :
    RunsAlike (unlessReturned first completion) (unlessReturned second completion) := by
  cases completion with
  | normal => exact runs
  | returned value => exact runsAlike_pure _

/-- Constants are evaluated without any function. -/
theorem constant?_functionless {expression : Expr} {step : Exec Value}
    (isConstant : expression.constant? = some step) : Functionless .expression step := by
  unfold Expr.constant? at isConstant
  split at isConstant <;> cases isConstant
  · exact functionless_pure _ _
  · exact functionless_pure _ _
  · exact functionless_ofSentinel _
  · exact functionless_ofExcept fun _ => Value.isPlain_of_ofBits
  · exact functionless_newArray []
  · exact functionless_fail rfl

theorem evaluateWith_constant {expression : Expr} {step : Exec Value}
    (isConstant : expression.constant? = some step) (options : Options)
    (evaluate : Expr → Exec Value) (execute : Statement → Exec Completion) :
    evaluateWith options evaluate execute expression = step := by
  unfold Expr.constant? at isConstant
  split at isConstant <;> cases isConstant <;> rfl

section

variable {options : Options} {evaluate : Expr → Exec Value}
  {execute : Statement → Exec Completion}
  (evaluates : ∀ first second, first.Alike second →
    RunsAlike (evaluate first) (evaluate second))
  (executes : ∀ first second, first.Alike second → RunsAlike (execute first) (execute second))

include evaluates in
theorem runsAlike_evaluateAll {first second : List Expr}
    (alike : List.Forall₂ Expr.Alike first second) :
    RunsAlike (evaluateAll evaluate first) (evaluateAll evaluate second) := by
  induction alike with
  | nil => exact runsAlike_pure []
  | cons head _ ih =>
      refine (evaluates _ _ head).bind fun value => ?_
      exact ih.bind fun values => runsAlike_pure (value :: values)

include executes in
theorem runsAlike_executeAll {first second : Block} (alike : first.Alike second) :
    RunsAlike (executeAll execute first) (executeAll execute second) := by
  induction alike with
  | nil => exact runsAlike_pure _
  | cons head _ ih => exact (executes _ _ head).bind ih.unlessReturned

include executes in
/-- The two functions under one name have the same parameters and alike bodies. -/
theorem runsAlike_callFound (name : String) (arguments : List Value)
    {found found' : Option Function} (alike : Option.Rel Function.Alike found found') :
    RunsAlike (callFound options execute name arguments found)
      (callFound options execute name arguments found') := by
  cases alike with
  | none => exact runsAlike_throw _
  | @some function function' alike =>
      simp only [callFound, ← alike.parameters]
      split
      · exact runsAlike_throw _
      · refine RunsAlike.unlessDeep ?_ options .callDepth
        have called := (functionless_defineAll function.parameters arguments).runsAlike.bind
          fun _ => runsAlike_executeAll executes alike.body
        simp only [callBody, ← alike.parameters]
        exact called.inCall.bind fun _ => runsAlike_pure _

include executes in
theorem runsAlike_callFunction (name : String) (arguments : List Value) :
    RunsAlike (callFunction options execute name arguments)
      (callFunction options execute name arguments) := by
  intro left right alike
  rw [callFunction_eq]
  exact runsAlike_callFound executes name arguments (alike.functions.get? name) left right alike

include executes in
/-- Embedded programs begin on the same machine, as that one has no functions yet. -/
theorem runsAlike_runEmbedded (block : Block) :
    RunsAlike (runEmbedded execute block) (runEmbedded execute block) := by
  intro left right alike
  have start : Machine.fresh right.streams (right.depth + 1) =
      .fresh left.streams (left.depth + 1) := by rw [alike.machine, withFunctions]
  have behind {inner inner' : Machine} (alikeInner : inner.Alike inner') :
      (behindEmbedded left inner).Alike (behindEmbedded right inner') := by
    have same : behindEmbedded right inner' = behindEmbedded right inner := by
      rw [alikeInner.machine]
      rfl
    rw [same]
    exact alike.change (behindEmbedded · inner) fun _ _ => rfl
  have ends := runsAlike_executeAll executes (Block.alike_refl block) _ _
    (Machine.alike_refl (.fresh left.streams (left.depth + 1)))
  rw [runEmbedded_apply, runEmbedded_apply, start]
  generalize executeAll execute block (.fresh left.streams (left.depth + 1)) = ended,
    executeAll execute block (.fresh left.streams (left.depth + 1)) = ended' at ends ⊢
  cases ends with
  | ok result alike => exact .ok () (behind alike)
  | error stop alike => cases stop <;> exact .error _ (behind alike)

include executes in
theorem runsAlike_embedded (arguments : List Value) :
    RunsAlike (embedded options execute arguments) (embedded options execute arguments) := by
  by_cases text : ∃ code, arguments = [.string code]
  · rcases text with ⟨code, rfl⟩
    rw [embedded_eq]
    refine RunsAlike.unlessDeep ?_ options _
    rw [runText]
    split
    · exact runsAlike_throw _
    · exact (runsAlike_runEmbedded executes _).bind fun _ => runsAlike_pure _
  · rw [embedded_refused _ _ text]
    exact runsAlike_throw _

include evaluates executes in
theorem runsAlike_call (callee : Callee) {first second : List Expr}
    (alike : List.Forall₂ Expr.Alike first second) :
    RunsAlike (call options evaluate execute callee first)
      (call options evaluate execute callee second) := by
  have sameVariable : firstVariable? second = firstVariable? first := by
    cases alike with
    | nil => rfl
    | cons head _ => exact head.firstVariable?_cons _ _
  refine (runsAlike_evaluateAll evaluates alike).bind fun values => ?_
  cases callee with
  | embedded => exact runsAlike_embedded executes values
  | named name =>
      dsimp only
      split
      · rw [sameVariable]
        exact (functionless_builtin _ _ _).runsAlike
      · exact runsAlike_callFunction executes name values

include evaluates executes in
/-- Alike expressions are evaluated alike if alike programs inside them are. -/
theorem runsAlike_evaluateWith {first second : Expr} (alike : first.Alike second) :
    RunsAlike (evaluateWith options evaluate execute first)
      (evaluateWith options evaluate execute second) := by
  cases alike with
  | constant isFirst isSecond =>
      rw [evaluateWith_constant isFirst, evaluateWith_constant isSecond]
      exact (constant?_functionless isFirst).runsAlike
  | «variable» name => exact (functionless_lookup name).runsAlike
  | array alike =>
      refine (runsAlike_evaluateAll evaluates alike).bind fun values => ?_
      exact (functionless_newArray values).runsAlike
  | negate alike =>
      refine (evaluates _ _ alike).bind fun value => ?_
      exact (functionless_ofExcept fun _ => Value.isPlain_of_negate).runsAlike
  | binary operator alikeLeft alikeRight =>
      refine (evaluates _ _ alikeLeft).bind fun left => ?_
      refine (evaluates _ _ alikeRight).bind fun right => ?_
      exact (functionless_ofExcept fun _ => Value.isPlain_of_apply).runsAlike
  | suffix operator alike _ _ =>
      refine (evaluates _ _ alike).bind fun value => ?_
      exact (functionless_ofExcept fun _ => Value.isPlain_of_applySuffix).runsAlike
  | call callee alike => exact runsAlike_call evaluates executes callee alike

include evaluates executes in
theorem runsAlike_executeFallback : ∀ {first second : Fallback}, first.Alike second →
    RunsAlike (executeFallback evaluate execute first) (executeFallback evaluate execute second)
  | _, _, .nothing => runsAlike_pure _
  | _, _, .otherwise alike => runsAlike_executeAll executes alike
  | _, _, .elseIf alikeCondition alike alikeFallback => by
      refine (evaluates _ _ alikeCondition).bind fun value => ?_
      refine (functionless_isTruthy value).runsAlike.bind fun truth => ?_
      cases truth with
      | true => exact runsAlike_executeAll executes alike
      | false => exact runsAlike_executeFallback alikeFallback

theorem runsAlike_whileLoop (limit : Option Nat) {condition condition' : Exec Bool}
    {body body' : Exec Completion} (conditions : RunsAlike condition condition')
    (bodies : RunsAlike body body') (fuel started : Nat) :
    RunsAlike (whileLoop limit condition body fuel started)
      (whileLoop limit condition' body' fuel started) := by
  induction fuel generalizing started with
  | zero => exact runsAlike_throw _
  | succ fuel ih =>
      rw [whileLoop_succ, whileLoop_succ]
      refine conditions.bind fun truth => ?_
      cases truth with
      | false => exact runsAlike_pure _
      | true =>
          refine RunsAlike.unlessLimited ?_ _ _
          exact bodies.bind (ih (started + 1)).unlessReturned

theorem runsAlike_forEach (name : String) {body body' : Exec Completion}
    (bodies : RunsAlike body body') (items : List Value) :
    RunsAlike (forEach name body items) (forEach name body' items) := by
  induction items with
  | nil => exact runsAlike_pure _
  | cons item items ih =>
      refine (functionless_define name item).runsAlike.bind fun _ => ?_
      exact bodies.bind ih.unlessReturned

theorem runsAlike_defineFunction (name : String) {function function' : Function}
    (alikeFunction : function.Alike function') :
    RunsAlike (defineFunction name function) (defineFunction name function') := by
  intro left right alike
  refine .ok () ⟨?_, alike.functions.insert name alikeFunction⟩
  have same := alike.machine
  rw [same]
  rfl

include evaluates executes in
/-- Alike statements are executed alike if alike programs inside them are. -/
theorem runsAlike_executeWith (fuel : Nat) {first second : Statement}
    (alike : first.Alike second) :
    RunsAlike (executeWith options evaluate execute fuel first)
      (executeWith options evaluate execute fuel second) := by
  cases alike with
  | assign name alike =>
      refine (evaluates _ _ alike).bind fun value => ?_
      exact (functionless_define name value).runsAlike.bind fun _ => runsAlike_pure _
  | input name =>
      refine functionless_readLine.runsAlike.bind fun line => ?_
      exact (functionless_assign name _).runsAlike.bind fun _ => runsAlike_pure _
  | output alike =>
      refine (evaluates _ _ alike).bind fun value => ?_
      exact (functionless_output value).runsAlike.bind fun _ => runsAlike_pure _
  | outputMany direction alike =>
      refine (evaluates _ _ alike).bind fun count => ?_
      exact (functionless_outputMany direction count).runsAlike.bind fun _ => runsAlike_pure _
  | call callee alike =>
      simp only [executeWith, discard_eq]
      refine RunsAlike.bind ?_ fun _ => runsAlike_pure _
      exact (runsAlike_call evaluates executes callee alike).bind fun _ => runsAlike_pure ()
  | @define name parameters body body' alike =>
      have alikeFunction : Function.Alike ⟨parameters, body⟩ ⟨parameters, body'⟩ := ⟨rfl, alike⟩
      exact (runsAlike_defineFunction name alikeFunction).bind fun _ => runsAlike_pure _
  | giveBackNothing => exact runsAlike_pure _
  | giveBack alike => exact (evaluates _ _ alike).bind fun value => runsAlike_pure _
  | conditional alikeCondition alike alikeFallback =>
      exact runsAlike_executeFallback evaluates executes
        (.elseIf alikeCondition alike alikeFallback)
  | whileLoop alikeCondition alike =>
      have conditions := (evaluates _ _ alikeCondition).bind
        fun value => (functionless_isTruthy value).runsAlike
      exact runsAlike_whileLoop options.loopLimit conditions (runsAlike_executeAll executes alike)
        fuel 0
  | forLoop name alikeRange alike =>
      refine (evaluates _ _ alikeRange).bind fun range => ?_
      cases range with
      | array ref =>
          refine (functionless_itemsOf ref).runsAlike.bind fun items => ?_
          exact (runsAlike_forEach name (runsAlike_executeAll executes alike) items).inFrame
      | _ => exact runsAlike_throw _
  | attempt alike alikeHandler =>
      exact (runsAlike_executeAll executes alike).catching
        (runsAlike_executeAll executes alikeHandler)
  | raise message => exact runsAlike_throw _

end

/-- Alike expressions are evaluated alike, and alike statements executed alike. -/
theorem runsAlike_run (options : Options) (fuel : Nat) :
    (∀ first second, first.Alike second →
      RunsAlike (evaluate options fuel first) (evaluate options fuel second)) ∧
    ∀ first second, first.Alike second →
      RunsAlike (execute options fuel first) (execute options fuel second) := by
  induction fuel with
  | zero => exact ⟨fun _ _ _ => runsAlike_throw _, fun _ _ _ => runsAlike_throw _⟩
  | succ fuel ih =>
      rcases ih with ⟨evaluates, executes⟩
      exact ⟨fun _ _ alike => runsAlike_evaluateWith evaluates executes alike,
        fun _ _ alike => runsAlike_executeWith evaluates executes fuel alike⟩

/-- Alike programs end alike on alike machines. -/
theorem runsAlike_interpret (options : Options) (fuel : Nat) {first second : Block}
    (alike : first.Alike second) :
    RunsAlike (interpret options fuel first) (interpret options fuel second) := by
  simp only [interpret, discard_eq]
  exact (runsAlike_executeAll (runsAlike_run options fuel).2 alike).bind
    fun _ => runsAlike_pure ()

end Exec

end Mel

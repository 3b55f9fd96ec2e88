import Mel.Proofs.Step

/-!
# Steps side by side

Two runs of a program, under two sets of options or with two amounts of fuel, are
put together in the same way from the same elementary steps, and differ only where
they check a limit or run out of fuel. This file says so once, along the definition
of evaluation. What is to be shown of all runs, or of all pairs of runs, then needs
one case for each elementary step and one for each way of putting steps together.
-/

namespace Mel

/-- Errors that any run can fail with: they are about no limit and from no embedded program. -/
def RuntimeError.isPlain : RuntimeError → Bool
  | .callDepth _ | .loopLimit _ | .embeddedFailure _ => false
  | _ => true

namespace Value

theorem isPlain_of_ofArithmetic {α : Type} {value : α → Value}
    {result : Except ArithmeticError α} {error : RuntimeError}
    (failed : ofArithmetic value result = .error error) : error.isPlain := by
  cases result with
  | ok number => simp [ofArithmetic] at failed
  | error arithmeticError =>
      simp only [ofArithmetic, Except.error.injEq] at failed
      subst error
      rfl

theorem isPlain_of_apply {operator : Operator} {left right : Value} {error : RuntimeError}
    (failed : apply operator left right = .error error) : error.isPlain := by
  simp only [apply] at failed
  split at failed
  all_goals
    split at failed
    · exact isPlain_of_ofArithmetic failed
    · cases failed
      rfl

theorem isPlain_of_applySuffix {operator : Operator} {operand : Value} {error : RuntimeError}
    (failed : applySuffix operator operand = .error error) : error.isPlain := by
  simp only [applySuffix] at failed
  split at failed
  all_goals
    split at failed
    · exact isPlain_of_ofArithmetic failed
    · cases failed
      rfl

theorem isPlain_of_negate {operand : Value} {error : RuntimeError}
    (failed : negate operand = .error error) : error.isPlain := by
  cases operand with
  | integer number => exact isPlain_of_ofArithmetic failed
  | real number => cases failed
  | _ =>
      cases failed
      rfl

theorem isPlain_of_ofBits {digits : List Bool} {error : RuntimeError}
    (failed : ofBits digits = .error error) : error.isPlain := by
  simp only [ofBits] at failed
  split at failed
  · cases failed
  · cases failed
    rfl

end Value

namespace Exec

/-- What a step can do: an expression can call functions, but what these bind is gone when they
return. -/
inductive Strength where
  | expression
  | statement

/-- Steps that do one thing and look at no option. -/
inductive Elementary : Strength → {α : Type} → Exec α → Prop where
  | pure {α : Type} (result : α) : Elementary .expression (pure result)
  | fail {α : Type} {error : RuntimeError} (plain : error.isPlain) :
      Elementary .expression (fail error : Exec α)
  | lookup (name : String) : Elementary .expression (lookup name)
  | assign (name : String) (value : Value) : Elementary .expression (assign name value)
  | functionOf (name : String) : Elementary .expression (functionOf name)
  | newArray (items : List Value) : Elementary .expression (newArray items)
  | itemsOf (ref : ArrayRef) : Elementary .expression (itemsOf ref)
  | extendArray (ref : ArrayRef) (items : List Value) :
      Elementary .expression (extendArray ref items)
  | isTruthy (value : Value) : Elementary .expression (isTruthy value)
  | textOf (value : Value) : Elementary .expression (textOf value)
  | write (text : String) : Elementary .expression (write text)
  | define (name : String) (value : Value) : Elementary .statement (define name value)
  | defineFunction (name : String) (function : Function) :
      Elementary .statement (defineFunction name function)
  | readLine : Elementary .statement readLine
  | put (character : Char) : Elementary .statement (put character)
  | takeOut (direction : Direction) (count : Nat) :
      Elementary .statement (takeOut direction count)

/-- Steps that are made of elementary ones alone: they check no limit and burn no fuel. -/
inductive Composed : Strength → {α : Type} → Exec α → Prop where
  | elementary {strength : Strength} {α : Type} {step : Exec α}
      (isElementary : Elementary strength step) : Composed strength step
  | weaken {α : Type} {step : Exec α} (composed : Composed .expression step) :
      Composed .statement step
  | bind {strength : Strength} {α β : Type} {step : Exec α} {next : α → Exec β}
      (composed : Composed strength step)
      (composedNext : ∀ result, Composed strength (next result)) :
      Composed strength (step >>= next)

/-- Steps that are put together in the same way, under two sets of options. The first one may run
out of fuel early. -/
inductive Parallel (left right : Options) (early : Prop) :
    Strength → {α : Type} → Exec α → Exec α → Prop where
  | elementary {strength : Strength} {α : Type} {step : Exec α}
      (isElementary : Elementary strength step) : Parallel left right early strength step step
  | weaken {α : Type} {first second : Exec α}
      (parallel : Parallel left right early .expression first second) :
      Parallel left right early .statement first second
  | bind {strength : Strength} {α β : Type} {first second : Exec α}
      {firstNext secondNext : α → Exec β}
      (parallel : Parallel left right early strength first second)
      (next : ∀ result,
        Parallel left right early strength (firstNext result) (secondNext result)) :
      Parallel left right early strength (first >>= firstNext) (second >>= secondNext)
  | inFrame {α : Type} {first second : Exec α}
      (parallel : Parallel left right early .statement first second) :
      Parallel left right early .statement (inFrame first) (inFrame second)
  | inCall {α : Type} {first second : Exec α}
      (parallel : Parallel left right early .statement first second) :
      Parallel left right early .expression (inCall first) (inCall second)
  | catching {α : Type} {first second firstHandler secondHandler : Exec α}
      (parallel : Parallel left right early .statement first second)
      (handlers : Parallel left right early .statement firstHandler secondHandler) :
      Parallel left right early .statement (catching first firstHandler)
        (catching second secondHandler)
  | unlessLooping {α : Type} {first second : Exec α} (started : Nat)
      (parallel : Parallel left right early .statement first second) :
      Parallel left right early .statement
        (unlessLimited .loopLimit (exceeds left.loopLimit started) first)
        (unlessLimited .loopLimit (exceeds right.loopLimit started) second)
  | unlessDeep {α : Type} {first second : Exec α}
      (parallel : Parallel left right early .expression first second) :
      Parallel left right early .expression (unlessDeep left .callDepth first)
        (unlessDeep right .callDepth second)
  | unlessDeepEmbedded {α : Type} {first second : Exec α}
      (parallel : Parallel left right early .expression first second) :
      Parallel left right early .expression
        (unlessDeep left (fun limit => .embeddedFailure (.callDepth limit)) first)
        (unlessDeep right (fun limit => .embeddedFailure (.callDepth limit)) second)
  | runEmbedded {executeLeft executeRight : Statement → Exec Completion} {block : Block}
      (parallel : Parallel left right early .statement (executeAll executeLeft block)
        (executeAll executeRight block)) :
      Parallel left right early .expression (runEmbedded executeLeft block)
        (runEmbedded executeRight block)
  | exhausted {α : Type} :
      Parallel left right early .expression (halt .outOfFuel : Exec α) (halt .outOfFuel)
  | early {α : Type} (isEarly : early) (second : Exec α) :
      Parallel left right early .expression (halt .outOfFuel) second

variable {left right : Options} {early : Prop} {α : Type}

theorem Elementary.parallel {strength : Strength} {step : Exec α}
    (isElementary : Elementary strength step) : Parallel left right early strength step step :=
  .elementary isElementary

/-- Where the first steps do not run out of fuel early, they go along with the second ones as
well. -/
theorem Parallel.symm {strength : Strength} {first second : Exec α}
    (parallel : Parallel left right early strength first second) (late : ¬early) :
    Parallel right left early strength second first := by
  induction parallel with
  | elementary isElementary => exact .elementary isElementary
  | weaken _ ih => exact ih.weaken
  | bind _ _ ih ihNext => exact ih.bind ihNext
  | inFrame _ ih => exact ih.inFrame
  | inCall _ ih => exact ih.inCall
  | catching _ _ ih ihHandler => exact ih.catching ihHandler
  | unlessLooping started _ ih => exact .unlessLooping started ih
  | unlessDeep _ ih => exact ih.unlessDeep
  | unlessDeepEmbedded _ ih => exact ih.unlessDeepEmbedded
  | runEmbedded _ ih => exact ih.runEmbedded
  | exhausted => exact .exhausted
  | early isEarly _ => exact (late isEarly).elim

theorem Elementary.composed {strength : Strength} {step : Exec α}
    (isElementary : Elementary strength step) : Composed strength step :=
  .elementary isElementary

theorem composed_pure (strength : Strength) (result : α) :
    Composed strength (pure result : Exec α) := by
  cases strength with
  | expression => exact (Elementary.pure result).composed
  | statement => exact (Elementary.pure result).composed.weaken

theorem composed_fail {error : RuntimeError} (plain : error.isPlain) :
    Composed .expression (fail error : Exec α) :=
  (Elementary.fail plain).composed

/-- Steps that are made of elementary ones alone, none of which has to do with functions. -/
structure Functionless (strength : Strength) (step : Exec α) : Prop where
  composed : Composed strength step
  ignores : IgnoresFunctions step

theorem Functionless.weaken {step : Exec α} (functionless : Functionless .expression step) :
    Functionless .statement step :=
  ⟨functionless.composed.weaken, functionless.ignores⟩

theorem Functionless.bind {strength : Strength} {β : Type} {step : Exec α} {next : α → Exec β}
    (functionless : Functionless strength step)
    (functionlessNext : ∀ result, Functionless strength (next result)) :
    Functionless strength (step >>= next) :=
  ⟨functionless.composed.bind fun result => (functionlessNext result).composed,
    functionless.ignores.bind fun result => (functionlessNext result).ignores⟩

theorem functionless_pure (strength : Strength) (result : α) :
    Functionless strength (pure result : Exec α) :=
  ⟨composed_pure strength result, fun _ _ => rfl⟩

theorem functionless_fail {error : RuntimeError} (plain : error.isPlain) :
    Functionless .expression (fail error : Exec α) :=
  ⟨composed_fail plain, fun _ _ => rfl⟩

theorem functionless_ofExcept {result : Except RuntimeError α}
    (plain : ∀ error, result = .error error → error.isPlain) :
    Functionless .expression (ofExcept result) := by
  cases result with
  | ok value => exact functionless_pure _ value
  | error error => exact functionless_fail (plain error rfl)

theorem functionless_lookup (name : String) : Functionless .expression (lookup name) :=
  ⟨(Elementary.lookup name).composed, ignoresFunctions_lookup name⟩

theorem functionless_assign (name : String) (value : Value) :
    Functionless .expression (assign name value) :=
  ⟨(Elementary.assign name value).composed, ignoresFunctions_assign name value⟩

theorem functionless_newArray (items : List Value) : Functionless .expression (newArray items) :=
  ⟨(Elementary.newArray items).composed, fun _ _ => rfl⟩

theorem functionless_itemsOf (ref : ArrayRef) : Functionless .expression (itemsOf ref) :=
  ⟨(Elementary.itemsOf ref).composed, fun _ _ => rfl⟩

theorem functionless_extendArray (ref : ArrayRef) (items : List Value) :
    Functionless .expression (extendArray ref items) :=
  ⟨(Elementary.extendArray ref items).composed, fun _ _ => rfl⟩

theorem functionless_isTruthy (value : Value) : Functionless .expression (isTruthy value) :=
  ⟨(Elementary.isTruthy value).composed, fun _ _ => rfl⟩

theorem functionless_textOf (value : Value) : Functionless .expression (textOf value) :=
  ⟨(Elementary.textOf value).composed, ignoresFunctions_textOf value⟩

theorem functionless_write (text : String) : Functionless .expression (write text) :=
  ⟨(Elementary.write text).composed, ignoresFunctions_write text⟩

theorem functionless_define (name : String) (value : Value) :
    Functionless .statement (define name value) :=
  ⟨(Elementary.define name value).composed, fun _ _ => rfl⟩

theorem functionless_readLine : Functionless .statement readLine :=
  ⟨Elementary.readLine.composed, ignoresFunctions_readLine⟩

theorem functionless_put (character : Char) : Functionless .statement (put character) :=
  ⟨(Elementary.put character).composed, fun _ _ => rfl⟩

theorem functionless_takeOut (direction : Direction) (count : Nat) :
    Functionless .statement (takeOut direction count) :=
  ⟨(Elementary.takeOut direction count).composed, ignoresFunctions_takeOut direction count⟩

theorem functionless_defineAll (names : List String) (values : List Value) :
    Functionless .statement (defineAll names values) := by
  induction names generalizing values with
  | nil => exact functionless_pure _ ()
  | cons name names ih =>
      cases values with
      | nil => exact functionless_pure _ ()
      | cons value values => exact (functionless_define name value).bind fun _ => ih values

/-- The empty array is the one constant that is made anew each time. -/
theorem functionless_ofSentinel (constant : Sentinel) :
    Functionless .expression (ofSentinel constant) := by
  cases constant with
  | empty => exact (functionless_newArray [])
  | _ => exact functionless_pure _ _

/-- Steps that do no more than look at what a value is written as. -/
inductive LooksAt (value : Value) {α : Type} : Exec α → Prop where
  | pure (result : α) : LooksAt value (pure result)
  | fail {error : RuntimeError} (plain : error.isPlain)
      (noWrite : ∀ reason, error ≠ .outputFailed reason) : LooksAt value (fail error)
  | textOf {next : String → Exec α} (looks : ∀ text, LooksAt value (next text)) :
      LooksAt value (textOf value >>= next)

theorem looksAt_characterOf? (value : Value) : LooksAt value (characterOf? value) := by
  have refused (text : String) :
      LooksAt value (fail (.noCharacter text) : Exec (Option Char)) := by
    apply LooksAt.fail rfl
    intro reason equal
    cases equal
  simp only [characterOf?]
  split
  · split
    · exact .pure _
    · exact .textOf refused
  · split
    · exact .pure _
    · exact .textOf refused
  · exact .textOf fun _ => .pure _

theorem looksAt_countOf (value : Value) : LooksAt value (countOf value) := by
  simp only [countOf]
  split
  · exact .pure _
  · apply LooksAt.textOf
    intro text
    apply LooksAt.fail rfl
    intro reason equal
    cases equal

/-- To look at what a value is written as is to look at its text, as often as that may be. -/
theorem LooksAt.functionless {value : Value} {step : Exec α} (looks : LooksAt value step) :
    Functionless .expression step := by
  induction looks with
  | pure result => exact functionless_pure _ result
  | fail plain _ => exact functionless_fail plain
  | textOf _ ih => exact (functionless_textOf value).bind ih

theorem functionless_output (value : Value) : Functionless .statement (output value) := by
  apply (looksAt_characterOf? value).functionless.weaken.bind
  rintro (_ | character)
  · exact functionless_pure _ ()
  · apply (functionless_put character).bind
    intro _
    exact (functionless_write _).weaken

theorem functionless_outputMany (direction : Direction) (value : Value) :
    Functionless .statement (outputMany direction value) := by
  rw [outputMany_eq]
  apply (looksAt_countOf value).functionless.weaken.bind
  intro count
  exact (functionless_takeOut direction count)

theorem functionless_appendTarget (variableName : Option String) (value : Value) :
    Functionless .expression (appendTarget variableName value) := by
  cases value with
  | array ref => exact functionless_pure _ _
  | string name =>
      apply (functionless_lookup name).bind
      intro found
      cases found with
      | array ref => exact functionless_pure _ _
      | _ => exact functionless_fail rfl
  | _ => exact functionless_fail rfl

theorem functionless_append (variableName : Option String) (arguments : List Value) :
    Functionless .expression (append variableName arguments) := by
  simp only [append]
  split
  · apply (functionless_appendTarget variableName _).bind
    rintro ⟨ref, name⟩
    apply (functionless_extendArray ref _).bind
    intro _
    cases name with
    | none => exact functionless_pure _ _
    | some name => exact (functionless_assign name _).bind fun _ => functionless_pure _ _
  · exact functionless_fail rfl

theorem functionless_length (arguments : List Value) :
    Functionless .expression (length arguments) := by
  simp only [length]
  split
  · exact functionless_pure _ _
  · exact (functionless_itemsOf _).bind fun _ => functionless_pure _ _
  · exact functionless_fail rfl
  · exact functionless_fail rfl

theorem functionless_getItem (arguments : List Value) :
    Functionless .expression (getItem arguments) := by
  simp only [getItem]
  split
  · split
    · exact functionless_fail rfl
    · split
      · split
        · exact functionless_pure _ _
        · exact functionless_fail rfl
      · apply (functionless_itemsOf _).bind
        intro items
        split
        · exact functionless_pure _ _
        · exact functionless_fail rfl
      · exact functionless_fail rfl
  · exact functionless_fail rfl
  · exact functionless_fail rfl

theorem functionless_list (arguments : List Value) : Functionless .expression (list arguments) := by
  have written (value : Value) :
      Functionless .expression (textOf value >>= fun text => write text >>= fun _ =>
        (pure .nil : Exec Value)) := by
    apply (functionless_textOf value).bind
    intro text
    exact (functionless_write text).bind fun _ => functionless_pure _ _
  simp only [list]
  split
  · split
    · exact written _
    · exact written _
    · exact functionless_fail rfl
  · exact functionless_fail rfl

theorem functionless_reverse (arguments : List Value) :
    Functionless .expression (reverse arguments) := by
  simp only [reverse]
  split
  · exact functionless_pure _ _
  · exact (functionless_itemsOf _).bind fun _ => (functionless_newArray _)
  · exact functionless_fail rfl
  · exact functionless_fail rfl

/-- No builtin function has to do with the functions that a program defines. -/
theorem functionless_builtin (builtin : Builtin) (variableName : Option String)
    (arguments : List Value) : Functionless .expression (builtin.call variableName arguments) := by
  cases builtin with
  | append => exact functionless_append variableName arguments
  | length => exact functionless_length arguments
  | getItem => exact functionless_getItem arguments
  | list => exact functionless_list arguments
  | reverse => exact functionless_reverse arguments

/-- What checks no limit and burns no fuel goes along with itself under all options. -/
theorem Composed.parallel {strength : Strength} {step : Exec α}
    (composed : Composed strength step) : Parallel left right early strength step step := by
  induction composed with
  | elementary isElementary => exact .elementary isElementary
  | weaken _ ih => exact ih.weaken
  | bind _ _ ih ihNext => exact ih.bind ihNext

theorem parallel_pure (strength : Strength) (result : α) :
    Parallel left right early strength (pure result) (pure result) :=
  (composed_pure strength result).parallel

theorem parallel_fail {error : RuntimeError} (plain : error.isPlain) :
    Parallel left right early .expression (fail error : Exec α) (fail error) :=
  (composed_fail plain).parallel

theorem parallel_ofExcept {result : Except RuntimeError α}
    (plain : ∀ error, result = .error error → error.isPlain) :
    Parallel left right early .expression (ofExcept result) (ofExcept result) :=
  (functionless_ofExcept plain).composed.parallel

section

variable {evaluateLeft evaluateRight : Expr → Exec Value}
  {executeLeft executeRight : Statement → Exec Completion}
  (policy : right.policy = left.policy)
  (evaluated : ∀ expression,
    Parallel left right early .expression (evaluateLeft expression) (evaluateRight expression))
  (executed : ∀ statement,
    Parallel left right early .statement (executeLeft statement) (executeRight statement))

include evaluated in
theorem parallel_evaluateAll (expressions : List Expr) :
    Parallel left right early .expression (evaluateAll evaluateLeft expressions)
      (evaluateAll evaluateRight expressions) := by
  induction expressions with
  | nil => exact parallel_pure _ []
  | cons expression expressions ih =>
      refine (evaluated expression).bind fun value => ?_
      exact ih.bind fun values => parallel_pure _ (value :: values)

theorem parallel_unlessReturned {first second : Exec Completion}
    (parallel : Parallel left right early .statement first second) (completion : Completion) :
    Parallel left right early .statement (unlessReturned first completion)
      (unlessReturned second completion) := by
  cases completion with
  | normal => exact parallel
  | returned value => exact parallel_pure _ _

include executed in
theorem parallel_executeAll (block : Block) :
    Parallel left right early .statement (executeAll executeLeft block)
      (executeAll executeRight block) := by
  induction block with
  | nil => exact parallel_pure _ _
  | cons statement statements ih =>
      exact (executed statement).bind (parallel_unlessReturned ih)

include executed in
theorem parallel_callBody (function : Function) (arguments : List Value) :
    Parallel left right early .expression (callBody executeLeft function arguments)
      (callBody executeRight function arguments) := by
  have called := (functionless_defineAll function.parameters arguments).composed.parallel.bind
    fun _ => parallel_executeAll executed function.body
  exact called.inCall.bind fun _ => parallel_pure _ _

include executed in
theorem parallel_callFunction (name : String) (arguments : List Value) :
    Parallel left right early .expression (callFunction left executeLeft name arguments)
      (callFunction right executeRight name arguments) := by
  rw [callFunction_eq, callFunction_eq]
  refine (Elementary.functionOf name).parallel.bind fun found => ?_
  cases found with
  | none => exact parallel_fail rfl
  | some function =>
      simp only [callFound]
      split
      · exact parallel_fail rfl
      · exact (parallel_callBody executed function arguments).unlessDeep

include policy executed in
/-- A text is read in the same way under both sets of options, as long as they have one policy. -/
theorem parallel_runText (code : String) :
    Parallel left right early .expression (runText left executeLeft code)
      (runText right executeRight code) := by
  rw [runText, runText, policy]
  cases readProgram left.policy code with
  | error error => exact parallel_fail rfl
  | ok block =>
      exact (parallel_executeAll executed block).runEmbedded.bind fun _ => parallel_pure _ _

include policy executed in
theorem parallel_embedded (arguments : List Value) :
    Parallel left right early .expression (embedded left executeLeft arguments)
      (embedded right executeRight arguments) := by
  by_cases text : ∃ code, arguments = [.string code]
  · rcases text with ⟨code, rfl⟩
    rw [embedded_eq, embedded_eq]
    exact (parallel_runText policy executed code).unlessDeepEmbedded
  · rw [embedded_refused _ _ text, embedded_refused _ _ text]
    exact parallel_fail rfl

include policy evaluated executed in
theorem parallel_call (callee : Callee) (arguments : List Expr) :
    Parallel left right early .expression
      (call left evaluateLeft executeLeft callee arguments)
      (call right evaluateRight executeRight callee arguments) := by
  refine (parallel_evaluateAll evaluated arguments).bind fun values => ?_
  cases callee with
  | embedded => exact parallel_embedded policy executed values
  | named name =>
      dsimp only
      split
      · exact (functionless_builtin _ _ _).composed.parallel
      · exact parallel_callFunction executed name values

include policy evaluated executed in
/-- Two runs of an expression are put together alike if the runs of all that is inside it are. -/
theorem parallel_evaluateWith (expression : Expr) :
    Parallel left right early .expression
      (evaluateWith left evaluateLeft executeLeft expression)
      (evaluateWith right evaluateRight executeRight expression) := by
  cases expression with
  | string text => exact parallel_pure _ _
  | real literal => exact parallel_pure _ _
  | sentinel constant => exact (functionless_ofSentinel constant).composed.parallel
  | bits digits => exact parallel_ofExcept fun _ => Value.isPlain_of_ofBits
  | array elements =>
      refine (parallel_evaluateAll evaluated elements).bind fun values => ?_
      exact (Elementary.newArray values).parallel
  | «variable» name => exact (Elementary.lookup name).parallel
  | negate operand =>
      exact (evaluated operand).bind fun _ => parallel_ofExcept fun _ => Value.isPlain_of_negate
  | binary operator left right =>
      refine (evaluated left).bind fun leftValue => ?_
      exact (evaluated right).bind fun _ => parallel_ofExcept fun _ => Value.isPlain_of_apply
  | suffix operator operand trailing =>
      exact (evaluated operand).bind
        fun _ => parallel_ofExcept fun _ => Value.isPlain_of_applySuffix
  | call callee arguments => exact parallel_call policy evaluated executed callee arguments
  | raise message => exact parallel_fail rfl

include evaluated executed in
theorem parallel_executeFallback :
    ∀ fallback, Parallel left right early .statement
      (executeFallback evaluateLeft executeLeft fallback)
      (executeFallback evaluateRight executeRight fallback)
  | .nothing => parallel_pure _ _
  | .otherwise body => parallel_executeAll executed body
  | .elseIf condition body fallback => by
      refine (evaluated condition).weaken.bind fun value => ?_
      refine (Elementary.isTruthy value).parallel.weaken.bind fun truth => ?_
      cases truth with
      | true => exact parallel_executeAll executed body
      | false => exact parallel_executeFallback fallback

/-- The second run has the fuel for whatever the first one does. -/
def FuelFor (early : Prop) (fuel fuel' : Nat) : Prop :=
  fuel = fuel' ∨ early ∧ fuel ≤ fuel'

theorem FuelFor.zero {fuel' : Nat} (fuels : FuelFor early 0 fuel') : 0 = fuel' ∨ early :=
  fuels.imp_right And.left

/-- With fuel for a round in the first run there is fuel for one in the second. -/
theorem FuelFor.succ {fuel fuel' : Nat} (fuels : FuelFor early (fuel + 1) fuel') :
    ∃ rest, fuel' = rest + 1 ∧ FuelFor early fuel rest := by
  cases fuel' with
  | zero =>
      rcases fuels with same | ⟨-, le⟩
      · exact (Nat.succ_ne_zero fuel same).elim
      · exact (Nat.not_succ_le_zero fuel le).elim
  | succ rest =>
      refine ⟨rest, rfl, ?_⟩
      rcases fuels with same | ⟨isEarly, le⟩
      · exact .inl (Nat.succ.inj same)
      · exact .inr ⟨isEarly, Nat.le_of_succ_le_succ le⟩

/-- The two runs of a loop may be cut at different rounds, which is where they differ. -/
theorem parallel_whileLoop {firstCondition secondCondition : Exec Bool}
    {firstBody secondBody : Exec Completion}
    (conditions : Parallel left right early .expression firstCondition secondCondition)
    (bodies : Parallel left right early .statement firstBody secondBody) {fuel fuel' : Nat}
    (fuels : FuelFor early fuel fuel') (started : Nat) :
    Parallel left right early .statement
      (whileLoop left.loopLimit firstCondition firstBody fuel started)
      (whileLoop right.loopLimit secondCondition secondBody fuel' started) := by
  -- Only the fuel of the first run is counted down: it is never more than that of the second.
  induction fuel generalizing fuel' started with
  | zero =>
      rcases fuels.zero with rfl | isEarly
      · exact Parallel.exhausted.weaken
      · exact (Parallel.early isEarly _).weaken
  | succ fuel ih =>
      rcases fuels.succ with ⟨rest, rfl, restFuels⟩
      rw [whileLoop_succ, whileLoop_succ]
      refine conditions.weaken.bind fun truth => ?_
      cases truth with
      | false => exact parallel_pure _ _
      | true =>
          have later := ih restFuels (started + 1)
          exact .unlessLooping (started + 1) (bodies.bind (parallel_unlessReturned later))

theorem parallel_forEach {firstBody secondBody : Exec Completion}
    (bodies : Parallel left right early .statement firstBody secondBody) (name : String)
    (items : List Value) :
    Parallel left right early .statement (forEach name firstBody items)
      (forEach name secondBody items) := by
  induction items with
  | nil => exact parallel_pure _ _
  | cons item items ih =>
      refine (Elementary.define name item).parallel.bind fun _ => ?_
      exact bodies.bind (parallel_unlessReturned ih)

include policy evaluated executed in
/-- Two runs of a statement are put together alike if the runs of all that is inside it are. -/
theorem parallel_executeWith {fuel fuel' : Nat} (fuels : FuelFor early fuel fuel')
    (statement : Statement) :
    Parallel left right early .statement
      (executeWith left evaluateLeft executeLeft fuel statement)
      (executeWith right evaluateRight executeRight fuel' statement) := by
  cases statement with
  | assign name value =>
      refine (evaluated value).weaken.bind fun result => ?_
      exact (Elementary.define name result).parallel.bind fun _ => parallel_pure _ _
  | input name =>
      refine Elementary.readLine.parallel.bind fun line => ?_
      exact (Elementary.assign name _).parallel.weaken.bind fun _ => parallel_pure _ _
  | output value =>
      refine (evaluated value).weaken.bind fun result => ?_
      exact (functionless_output result).composed.parallel.bind fun _ => parallel_pure _ _
  | outputMany direction count =>
      refine (evaluated count).weaken.bind fun result => ?_
      exact (functionless_outputMany direction result).composed.parallel.bind
        fun _ => parallel_pure _ _
  | call callee arguments =>
      have called := parallel_call policy evaluated executed callee arguments
      have discarded := called.weaken.bind fun _ => parallel_pure .statement ()
      simp only [executeWith, discard_eq]
      exact discarded.bind fun _ => parallel_pure _ _
  | define name parameters body =>
      refine (Elementary.defineFunction name ⟨parameters, body⟩).parallel.bind fun _ => ?_
      exact parallel_pure _ _
  | giveBack value =>
      cases value with
      | none => exact parallel_pure _ _
      | some value => exact (evaluated value).weaken.bind fun result => parallel_pure _ _
  | conditional condition body fallback =>
      exact parallel_executeFallback evaluated executed (.elseIf condition body fallback)
  | whileLoop condition body =>
      have conditions := (evaluated condition).bind
        fun value => (Elementary.isTruthy value).parallel
      exact parallel_whileLoop conditions (parallel_executeAll executed body) fuels 0
  | forLoop name range body =>
      refine (evaluated range).weaken.bind fun value => ?_
      cases value with
      | array ref =>
          refine (Elementary.itemsOf ref).parallel.weaken.bind fun items => ?_
          exact (parallel_forEach (parallel_executeAll executed body) name items).inFrame
      | _ => exact (parallel_fail rfl).weaken
  | attempt body handler =>
      exact (parallel_executeAll executed body).catching (parallel_executeAll executed handler)
  | raise message => exact (parallel_fail rfl).weaken

end

/-- Every run is put together as every other run of the same expression or statement is. -/
theorem parallel_run (policy : right.policy = left.policy) {fuel fuel' : Nat}
    (fuels : FuelFor early fuel fuel') :
    (∀ expression, Parallel left right early .expression (evaluate left fuel expression)
      (evaluate right fuel' expression)) ∧
    ∀ statement, Parallel left right early .statement (execute left fuel statement)
      (execute right fuel' statement) := by
  induction fuel generalizing fuel' with
  | zero =>
      rcases fuels.zero with rfl | isEarly
      · exact ⟨fun _ => .exhausted, fun _ => Parallel.exhausted.weaken⟩
      · exact ⟨fun _ => .early isEarly _, fun _ => (Parallel.early isEarly _).weaken⟩
  | succ fuel ih =>
      rcases fuels.succ with ⟨rest, rfl, restFuels⟩
      rcases ih restFuels with ⟨evaluated, executed⟩
      exact ⟨parallel_evaluateWith policy evaluated executed,
        parallel_executeWith policy evaluated executed restFuels⟩

theorem parallel_interpret (policy : right.policy = left.policy) {fuel fuel' : Nat}
    (fuels : FuelFor early fuel fuel') (block : Block) :
    Parallel left right early .statement (interpret left fuel block)
      (interpret right fuel' block) := by
  simp only [interpret, discard_eq]
  exact (parallel_executeAll (parallel_run policy fuels).2 block).bind fun _ => parallel_pure _ ()

end Exec

end Mel

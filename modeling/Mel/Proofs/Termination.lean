import Mel.Proofs.Settling
import Mathlib.Logic.ExistsUnique

/-!
# Termination

Under a limit on the rounds of while loops, every run ends, whatever the program, its
input and its output do.

Calls and embedded programs nest no deeper than the limit on the depth allows,
whatever they define or read while they run. Below that, evaluation follows the
syntax: a for loop makes a round for each item that the array had when the loop
began, and a while loop is cut off. So the main induction is on the calls that are
left, inside it there is one along the syntax, and inside that one on the rounds that
a while loop has left. An error that is caught leads on to a handler, which is syntax
as well.
-/

namespace Mel.Exec

variable {options : Options} {depth : Nat}

/-- A block for which there is enough fuel at this depth. -/
abbrev BlockSettles (options : Options) (depth : Nat) (block : Block) : Prop :=
  Settles options depth .statement fun fuel => executeAll (execute options fuel) block

theorem uniform_execute (options : Options) (statement : Statement) :
    Uniform options .statement fun fuel => execute options fuel statement := by
  intro fuel fuel' le
  exact (parallel_run rfl (fuelFor_of_le le)).2 statement

theorem settles_evaluate_of_step {expression : Expr}
    (settles : Settles options depth .expression fun fuel =>
      evaluateWith options (evaluate options fuel) (execute options fuel) expression) :
    Settles options depth .expression fun fuel => evaluate options fuel expression := by
  constructor
  · intro fuel fuel' le
    exact (parallel_run rfl (fuelFor_of_le le)).1 expression
  · intro machine atDepth
    rcases settles.ends machine atDepth with ⟨fuel, hasEnded⟩
    exact ⟨fuel + 1, hasEnded⟩

theorem settles_execute_of_step {statement : Statement}
    (settles : Settles options depth .statement fun fuel =>
      executeWith options (evaluate options fuel) (execute options fuel) fuel statement) :
    Settles options depth .statement fun fuel => execute options fuel statement := by
  refine ⟨uniform_execute options statement, ?_⟩
  intro machine atDepth
  rcases settles.ends machine atDepth with ⟨fuel, hasEnded⟩
  exact ⟨fuel + 1, hasEnded⟩

/-- Unless the limit is reached, there is enough fuel for every block one call deeper. -/
abbrev DeeperSettles (options : Options) (depth : Nat) : Prop :=
  depth < options.depthLimit → ∀ block, BlockSettles options (depth + 1) block

section

variable (deeper : DeeperSettles options depth)

include deeper

theorem settles_callFunction (name : String) (arguments : List Value) :
    Settles options depth .expression fun fuel =>
      callFunction options (execute options fuel) name arguments := by
  simp only [callFunction_eq]
  apply Settles.bind (.ofComposed (Elementary.functionOf name).composed)
  intro found
  cases found with
  | none => exact .ofComposed (composed_fail rfl)
  | some function =>
      simp only [callFound]
      split
      · exact .ofComposed (composed_fail rfl)
      · apply Settles.unlessDeep
        · intro fuel fuel' le
          exact parallel_callBody (fun statement => uniform_execute options statement le) _ _
        · intro shallow
          have body : Settles options (depth + 1) .statement fun fuel =>
              defineAll function.parameters arguments >>= fun _ =>
                executeAll (execute options fuel) function.body :=
            .bind (.ofComposed (functionless_defineAll _ _).composed)
              fun _ => deeper shallow function.body
          exact body.inCall.bind fun completion => .ofComposed (composed_pure _ _)

/-- An embedded program is one call deeper, where every block has settled already. -/
theorem settles_runEmbedded (shallow : depth < options.depthLimit) (block : Block) :
    Settles options depth .expression fun fuel => runEmbedded (execute options fuel) block := by
  constructor
  · intro fuel fuel' le
    exact ((deeper shallow block).uniform le).runEmbedded
  · intro machine atDepth
    have inside : (Machine.fresh machine.streams (machine.depth + 1)).depth = depth + 1 := by
      simp [Machine.fresh, atDepth]
    rcases (deeper shallow block).ends _ inside with ⟨fuel, hasEnded⟩
    refine ⟨fuel, ?_⟩
    intro later exhausted
    rw [runEmbedded_apply] at exhausted
    split at exhausted
    · cases exhausted
    · cases exhausted
    · rename_i reason inner halted
      cases exhausted
      exact hasEnded inner halted

theorem settles_embedded (arguments : List Value) :
    Settles options depth .expression fun fuel =>
      embedded options (execute options fuel) arguments := by
  by_cases text : ∃ code, arguments = [.string code]
  · rcases text with ⟨code, rfl⟩
    simp only [embedded_eq]
    apply Settles.unlessDeepEmbedded
    · intro fuel fuel' le
      exact parallel_runText rfl (fun statement => uniform_execute options statement le) code
    · intro shallow
      simp only [runText]
      cases readProgram options.policy code with
      | error error => exact .ofComposed (composed_fail rfl)
      | ok block =>
          apply (settles_runEmbedded deeper shallow block).bind
          intro _
          exact .ofComposed (composed_pure _ _)
  · simp only [embedded_refused _ _ text]
    exact .ofComposed (composed_fail rfl)

theorem settles_call (callee : Callee) {arguments : List Expr}
    (settles : Settles options depth .expression fun fuel =>
      evaluateAll (evaluate options fuel) arguments) :
    Settles options depth .expression fun fuel =>
      call options (evaluate options fuel) (execute options fuel) callee arguments := by
  simp only [call]
  apply settles.bind
  intro values
  cases callee with
  | embedded => exact settles_embedded deeper values
  | named name =>
      cases found : Builtin.ofName? name with
      | none => simpa only [found] using settles_callFunction deeper name values
      | some builtin => simpa only [found] using .ofComposed (functionless_builtin _ _ _).composed

end

mutual

/-- The expressions inside another one settle by recursion, and the functions that they call one
call deeper. -/
theorem settles_evaluate (deeper : DeeperSettles options depth) : ∀ expression,
    Settles options depth .expression fun fuel => evaluate options fuel expression
  | .string _ | .real _ => settles_evaluate_of_step (.ofComposed (composed_pure _ _))
  | .sentinel constant =>
      settles_evaluate_of_step (.ofComposed (functionless_ofSentinel constant).composed)
  | .bits _ =>
      settles_evaluate_of_step
        (.ofComposed (functionless_ofExcept fun _ => Value.isPlain_of_ofBits).composed)
  | .array elements => by
      apply settles_evaluate_of_step
      apply (settles_evaluateAll deeper elements).bind
      intro values
      exact .ofComposed (Elementary.newArray values).composed
  | .variable name =>
      settles_evaluate_of_step (.ofComposed (Elementary.lookup name).composed)
  | .negate operand => by
      apply settles_evaluate_of_step
      apply (settles_evaluate deeper operand).bind
      intro _
      exact .ofComposed (functionless_ofExcept fun _ => Value.isPlain_of_negate).composed
  | .binary _ left right => by
      apply settles_evaluate_of_step
      apply (settles_evaluate deeper left).bind
      intro _
      apply (settles_evaluate deeper right).bind
      intro _
      exact .ofComposed (functionless_ofExcept fun _ => Value.isPlain_of_apply).composed
  | .suffix _ operand _ => by
      apply settles_evaluate_of_step
      apply (settles_evaluate deeper operand).bind
      intro _
      exact .ofComposed (functionless_ofExcept fun _ => Value.isPlain_of_applySuffix).composed
  | .call callee arguments =>
      settles_evaluate_of_step (settles_call deeper callee (settles_evaluateAll deeper arguments))
  | .raise _ => settles_evaluate_of_step (.ofComposed (composed_fail rfl))

theorem settles_evaluateAll (deeper : DeeperSettles options depth) : ∀ expressions,
    Settles options depth .expression fun fuel =>
      evaluateAll (evaluate options fuel) expressions
  | [] => .ofComposed (composed_pure _ _)
  | expression :: expressions => by
      apply (settles_evaluate deeper expression).bind
      intro value
      apply (settles_evaluateAll deeper expressions).bind
      intro values
      exact .ofComposed (composed_pure _ _)

end

theorem settles_unlessReturned {rest : Nat → Exec Completion}
    (settles : Settles options depth .statement rest) (completion : Completion) :
    Settles options depth .statement fun fuel => unlessReturned (rest fuel) completion := by
  cases completion with
  | normal => exact settles
  | returned value => exact .ofComposed (composed_pure _ _)

theorem exceeds_of_le {limit started : Nat} (le : limit ≤ started) :
    exceeds (some limit) (started + 1) = some limit := by
  simp [exceeds, Option.filter]
  omega

/-- A loop that may start `rounds` more rounds needs fuel for one more check of its condition. -/
theorem settles_rounds {limit : Nat} (limited : options.loopLimit = some limit)
    {condition : Nat → Exec Bool} {body : Nat → Exec Completion}
    (conditions : Settles options depth .expression condition)
    (bodies : Settles options depth .statement body) {rounds started : Nat}
    (enough : limit ≤ started + rounds) :
    Settles options depth .statement fun fuel =>
      whileLoop options.loopLimit (condition fuel) (body fuel) (rounds + 1) started := by
  induction rounds generalizing started with
  | zero =>
      simp only [whileLoop_succ]
      apply conditions.weaken.bind
      rintro (_ | _)
      · exact .ofComposed (composed_pure _ _)
      · apply Settles.unlessLooping
        · intro fuel fuel' le
          apply (bodies.uniform le).bind
          intro completion
          exact parallel_unlessReturned Parallel.exhausted.weaken completion
        · intro below
          rw [limited, exceeds_of_le enough] at below
          cases below
  | succ rounds ih =>
      have later : Settles options depth .statement fun fuel =>
          whileLoop options.loopLimit (condition fuel) (body fuel) (rounds + 1) (started + 1) := by
        apply ih
        omega
      have round := bodies.bind (settles_unlessReturned later)
      simp only [whileLoop_succ _ _ _ (rounds + 1)]
      apply conditions.weaken.bind
      rintro (_ | _)
      · exact .ofComposed (composed_pure _ _)
      · exact .unlessLooping (started + 1) round.uniform fun _ => round

/-- A loop under a limit starts with as many rounds as the limit allows. -/
theorem settles_whileLoop {limit : Nat} (limited : options.loopLimit = some limit)
    {condition : Nat → Exec Bool} {body : Nat → Exec Completion}
    (conditions : Settles options depth .expression condition)
    (bodies : Settles options depth .statement body) :
    Settles options depth .statement fun fuel =>
      whileLoop options.loopLimit (condition fuel) (body fuel) fuel 0 := by
  have uniform {fuel fuel' loopFuel loopFuel' : Nat} (le : fuel ≤ fuel')
      (loopLe : loopFuel ≤ loopFuel') := parallel_whileLoop (conditions.uniform le)
        (bodies.uniform le) (fuelFor_of_le loopLe) 0
  constructor
  · intro fuel fuel' le
    exact uniform le le
  · intro machine atDepth
    have rounds : limit ≤ 0 + limit := by omega
    rcases (settles_rounds limited conditions bodies rounds).ends machine atDepth
      with ⟨fuel, hasEnded⟩
    refine ⟨max fuel (limit + 1), ?_⟩
    have extended := uniform (Nat.le_max_left fuel (limit + 1)) (Nat.le_max_right fuel (limit + 1))
    rw [extended.extends machine hasEnded]
    exact hasEnded

theorem settles_forEach {body : Nat → Exec Completion}
    (bodies : Settles options depth .statement body) (name : String) (items : List Value) :
    Settles options depth .statement fun fuel => forEach name (body fuel) items := by
  induction items with
  | nil => exact .ofComposed (composed_pure _ _)
  | cons item items ih =>
      apply Settles.bind (.ofComposed (Elementary.define name item).composed)
      intro _
      exact bodies.bind (settles_unlessReturned ih)

theorem settles_elseIf {condition : Expr} {body : Block} {fallback : Fallback}
    (conditions : Settles options depth .expression fun fuel => evaluate options fuel condition)
    (bodies : BlockSettles options depth body)
    (fallbacks : Settles options depth .statement fun fuel =>
      executeFallback (evaluate options fuel) (execute options fuel) fallback) :
    Settles options depth .statement fun fuel =>
      executeFallback (evaluate options fuel) (execute options fuel)
        (.elseIf condition body fallback) := by
  apply conditions.weaken.bind
  intro value
  apply Settles.bind (.ofComposed (Elementary.isTruthy value).composed.weaken)
  rintro (_ | _)
  · exact fallbacks
  · exact bodies

section

variable {limit : Nat}

mutual

/-- The statements inside another one settle by recursion, with all the rounds of their loops. -/
theorem settles_execute (limited : options.loopLimit = some limit)
    (deeper : DeeperSettles options depth) : ∀ statement,
    Settles options depth .statement fun fuel => execute options fuel statement
  | .assign name value => by
      apply settles_execute_of_step
      apply (settles_evaluate deeper value).weaken.bind
      intro result
      exact .ofComposed ((Elementary.define name result).composed.bind fun _ => composed_pure _ _)
  | .input name => by
      apply settles_execute_of_step
      apply Settles.ofComposed
      apply Elementary.readLine.composed.bind
      intro line
      exact (Elementary.assign name _).composed.weaken.bind fun _ => composed_pure _ _
  | .output value => by
      apply settles_execute_of_step
      apply (settles_evaluate deeper value).weaken.bind
      intro result
      exact .ofComposed ((functionless_output result).composed.bind fun _ => composed_pure _ _)
  | .outputMany direction count => by
      apply settles_execute_of_step
      apply (settles_evaluate deeper count).weaken.bind
      intro result
      have composed := (functionless_outputMany direction result).composed
      exact .ofComposed (composed.bind fun _ => composed_pure _ _)
  | .call callee arguments => by
      apply settles_execute_of_step
      have called := settles_call deeper callee (settles_evaluateAll deeper arguments)
      have discarded := called.weaken.bind fun _ => .ofComposed (composed_pure .statement ())
      simp only [executeWith, discard_eq]
      exact discarded.bind fun _ => .ofComposed (composed_pure _ _)
  | .define name parameters body => by
      apply settles_execute_of_step
      apply Settles.ofComposed
      exact (Elementary.defineFunction name ⟨parameters, body⟩).composed.bind
        fun _ => composed_pure _ _
  | .giveBack none => settles_execute_of_step (.ofComposed (composed_pure _ _))
  | .giveBack (some value) => by
      apply settles_execute_of_step
      apply (settles_evaluate deeper value).weaken.bind
      intro result
      exact .ofComposed (composed_pure _ _)
  | .conditional condition body fallback => by
      apply settles_execute_of_step
      exact settles_elseIf (settles_evaluate deeper condition)
        (settles_executeAll limited deeper body) (settles_executeFallback limited deeper fallback)
  | .whileLoop condition body => by
      apply settles_execute_of_step
      have truth (value : Value) : Settles options depth .expression fun _ => isTruthy value :=
        .ofComposed (Elementary.isTruthy value).composed
      have conditions := (settles_evaluate deeper condition).bind truth
      exact settles_whileLoop limited conditions (settles_executeAll limited deeper body)
  | .forLoop name range body => by
      apply settles_execute_of_step
      apply (settles_evaluate deeper range).weaken.bind
      intro value
      cases value with
      | array ref =>
          apply Settles.bind (.ofComposed (Elementary.itemsOf ref).composed.weaken)
          intro items
          exact (settles_forEach (settles_executeAll limited deeper body) name items).inFrame
      | _ => exact .ofComposed (composed_fail rfl).weaken
  | .attempt body handler => by
      apply settles_execute_of_step
      exact (settles_executeAll limited deeper body).catching
        (settles_executeAll limited deeper handler)
  | .raise _ => settles_execute_of_step (.ofComposed (composed_fail rfl).weaken)

theorem settles_executeAll (limited : options.loopLimit = some limit)
    (deeper : DeeperSettles options depth) : ∀ block, BlockSettles options depth block
  | [] => .ofComposed (composed_pure _ _)
  | statement :: statements => by
      apply (settles_execute limited deeper statement).bind
      intro completion
      exact settles_unlessReturned (settles_executeAll limited deeper statements) completion

theorem settles_executeFallback (limited : options.loopLimit = some limit)
    (deeper : DeeperSettles options depth) : ∀ fallback,
    Settles options depth .statement fun fuel =>
      executeFallback (evaluate options fuel) (execute options fuel) fallback
  | .nothing => .ofComposed (composed_pure _ _)
  | .otherwise body => settles_executeAll limited deeper body
  | .elseIf condition body fallback =>
      settles_elseIf (settles_evaluate deeper condition)
        (settles_executeAll limited deeper body) (settles_executeFallback limited deeper fallback)

end

/-- Under a limit on the rounds of loops, there is enough fuel for every block. -/
theorem settles_block (limited : options.loopLimit = some limit) (depth : Nat) (block : Block) :
    BlockSettles options depth block := by
  apply settles_executeAll limited
  intro shallow inner
  exact settles_block limited (depth + 1) inner
termination_by options.depthLimit - depth

end

/-- With a limit on the rounds of while loops, every program comes to an end on every machine, and
to one only: some amount of fuel is enough, and more of it changes nothing. -/
theorem ends_under_loopLimit (options : Options) (limit : Nat) (block : Block)
    (machine : Machine) :
    ∃! ended,
      Ends (fun fuel => interpret { options with loopLimit := some limit } fuel block)
        machine ended := by
  have limited : { options with loopLimit := some limit }.loopLimit = some limit := rfl
  have settles := settles_block limited machine.depth block
  have discarded := settles.bind fun _ => .ofComposed (composed_pure .statement ())
  simp only [← discard_eq] at discarded
  rcases discarded.ends machine rfl with ⟨fuel, hasEnded⟩
  refine ⟨_, ⟨hasEnded, fuel, rfl⟩, ?_⟩
  intro other ends
  exact ends.unique (fuelStable_interpret _ block) ⟨hasEnded, fuel, rfl⟩

end Mel.Exec

import Mel.Proofs.Lockstep
import Mel.Proofs.Termination

/-!
# The rounds of a while loop

What a while loop comes to is described round by round, without any fuel: its condition is
evaluated, and its body is executed if the condition holds and the limit allows another round. The
description counts both. It is right for every limit of the loop itself, in particular for none,
with the limits inside the loop left as they are, so a loop with a limit can be compared with the
same loop without one. They go through the same rounds until the limit cuts the first one off.

The rounds are counted from zero on every machine on which the loop is executed, whatever has been
executed on it before.
-/

namespace Mel.Exec

variable {α β : Type}

theorem Uniform.stable {options : Options} {strength : Strength} {run : Nat → Exec α}
    (uniform : Uniform options strength run) : FuelStable run :=
  fun _ _ machine le hasEnded => (uniform le).extends machine hasEnded

/-- What comes behind a step that has ended with a result ends in the same way as both together. -/
theorem Ends.bind_iff {run : Nat → Exec α} {next : Nat → α → Exec β} (stable : FuelStable run)
    {machine later : Machine} {result : α} (ends : Ends run machine (.ok result later))
    (stableNext : FuelStable fun fuel => next fuel result)
    (ended : EStateM.Result Stop Machine β) :
    Ends (fun fuel => run fuel >>= next fuel) machine ended ↔
      Ends (fun fuel => next fuel result) later ended := by
  rcases ends.eventually stable with ⟨enough, reached⟩
  constructor
  · rintro ⟨hasEnded, fuel, isEnd⟩
    subst isEnd
    have isResult : run fuel machine = .ok result later :=
      Ends.unique stable ⟨hasEnded.of_bind, fuel, rfl⟩ ends
    rw [bind_of_ok isResult] at hasEnded ⊢
    exact ⟨hasEnded, fuel, rfl⟩
  · intro endsNext
    rcases endsNext.eventually stableNext with ⟨enoughNext, reachedNext⟩
    have first := reached _ (Nat.le_max_left enough enoughNext)
    have second := reachedNext _ (Nat.le_max_right enough enoughNext)
    exact ⟨endsNext.hasEnded, max enough enoughNext, (bind_of_ok first).trans second⟩

/-- What took place in a while loop: how often its condition was evaluated and its body started, and
the machine that the last evaluation of the condition has left behind. -/
structure LoopRecord where
  checks : Nat
  rounds : Nat
  checked : Machine

def LoopRecord.afterRound (record : LoopRecord) : LoopRecord :=
  { record with checks := record.checks + 1, rounds := record.rounds + 1 }

/-- A while loop, of which some rounds have been started already, goes from a machine to its end. -/
inductive LoopRun (limit : Option Nat) (condition : Nat → Exec Bool)
    (body : Nat → Exec Completion) :
    (started : Nat) → Machine → LoopRecord → EStateM.Result Stop Machine Completion → Prop where
  | left {started : Nat} {machine checked : Machine}
      (fails : Ends condition machine (.ok false checked)) :
      LoopRun limit condition body started machine ⟨1, 0, checked⟩ (.ok .normal checked)
  | stopped {started : Nat} {machine checked : Machine} {stop : Stop}
      (stops : Ends condition machine (.error stop checked)) :
      LoopRun limit condition body started machine ⟨1, 0, checked⟩ (.error stop checked)
  | cut {started bound : Nat} {machine checked : Machine}
      (holds : Ends condition machine (.ok true checked))
      (exceeded : exceeds limit (started + 1) = some bound) :
      LoopRun limit condition body started machine ⟨1, 0, checked⟩
        (.error (.error (.loopLimit bound)) checked.atLimit)
  | leftInside {started : Nat} {machine checked : Machine}
      {ended : EStateM.Result Stop Machine Completion}
      (holds : Ends condition machine (.ok true checked))
      (allowed : exceeds limit (started + 1) = none) (ends : Ends body checked ended)
      (leaves : ∀ later, ended ≠ .ok .normal later) :
      LoopRun limit condition body started machine ⟨1, 1, checked⟩ ended
  | round {started : Nat} {machine checked behind : Machine} {record : LoopRecord}
      {ended : EStateM.Result Stop Machine Completion}
      (holds : Ends condition machine (.ok true checked))
      (allowed : exceeds limit (started + 1) = none) (ends : Ends body checked (.ok .normal behind))
      (later : LoopRun limit condition body (started + 1) behind record ended) :
      LoopRun limit condition body started machine record.afterRound ended

section

variable {limit : Option Nat} {condition : Nat → Exec Bool} {body : Nat → Exec Completion}
  {started : Nat} {machine : Machine} {record record' : LoopRecord}
  {ended ended' : EStateM.Result Stop Machine Completion}

theorem LoopRun.hasEnded (run : LoopRun limit condition body started machine record ended) :
    HasEnded ended := by
  induction run with
  | left _ | cut _ _ =>
      intro later exhausted
      cases exhausted
  | stopped stops =>
      intro later exhausted
      cases exhausted
      exact stops.hasEnded _ rfl
  | leftInside _ _ ends _ => exact ends.hasEnded
  | round _ _ _ _ ih => exact ih

theorem exists_loopRun {fuel loopFuel : Nat}
    (hasEnded : HasEnded (whileLoop limit (condition fuel) (body fuel) loopFuel started machine)) :
    ∃ record, LoopRun limit condition body started machine record
      (whileLoop limit (condition fuel) (body fuel) loopFuel started machine) := by
  -- The fuel for the rounds is counted down, the fuel inside them stays.
  induction loopFuel generalizing started machine with
  | zero => exact (hasEnded machine rfl).elim
  | succ loopFuel ih =>
      rw [whileLoop_succ] at hasEnded ⊢
      have check : Ends condition machine (condition fuel machine) :=
        ⟨hasEnded.of_bind, fuel, rfl⟩
      rcases isCheck : condition fuel machine with ⟨_ | _, checked⟩ | ⟨stop, checked⟩
      · rw [isCheck] at check
        rw [bind_of_ok isCheck]
        exact ⟨_, .left check⟩
      · rw [isCheck] at check
        rw [bind_of_ok isCheck] at hasEnded ⊢
        rw [if_pos rfl] at hasEnded ⊢
        cases exceeded : exceeds limit (started + 1) with
        | some bound => exact ⟨_, .cut check exceeded⟩
        | none =>
            rw [exceeded, unlessLimited] at hasEnded
            rw [unlessLimited]
            have inside : Ends body checked (body fuel checked) := ⟨hasEnded.of_bind, fuel, rfl⟩
            rcases isInside : body fuel checked with ⟨_ | value, behind⟩ | ⟨stop, behind⟩
            · rw [isInside] at inside
              rw [bind_of_ok isInside] at hasEnded ⊢
              rcases ih hasEnded with ⟨record, later⟩
              exact ⟨_, .round check exceeded inside later⟩
            · rw [isInside] at inside
              rw [bind_of_ok isInside]
              exact ⟨_, .leftInside check exceeded inside (by rintro _ ⟨⟩)⟩
            · rw [isInside] at inside
              rw [bind_of_error isInside]
              exact ⟨_, .leftInside check exceeded inside (by rintro _ ⟨⟩)⟩
      · rw [isCheck] at check
        rw [bind_of_error isCheck]
        exact ⟨_, .stopped check⟩

variable (stableCondition : FuelStable condition) (stableBody : FuelStable body)
include stableCondition stableBody

theorem LoopRun.reached (run : LoopRun limit condition body started machine record ended) :
    ∃ enough, ∀ fuel loopFuel, enough ≤ fuel → enough ≤ loopFuel →
      whileLoop limit (condition fuel) (body fuel) (loopFuel + 1) started machine = ended := by
  induction run with
  | left fails =>
      rcases fails.eventually stableCondition with ⟨enough, reached⟩
      refine ⟨enough, fun fuel loopFuel le _ => ?_⟩
      rw [whileLoop_succ, bind_of_ok (reached fuel le)]
      rfl
  | stopped stops =>
      rcases stops.eventually stableCondition with ⟨enough, reached⟩
      refine ⟨enough, fun fuel loopFuel le _ => ?_⟩
      rw [whileLoop_succ, bind_of_error (reached fuel le)]
  | cut holds exceeded =>
      rcases holds.eventually stableCondition with ⟨enough, reached⟩
      refine ⟨enough, fun fuel loopFuel le _ => ?_⟩
      rw [whileLoop_succ, bind_of_ok (reached fuel le), if_pos rfl, exceeded]
      rfl
  | @leftInside _ _ checked ended holds allowed ends leaves =>
      rcases holds.eventually stableCondition with ⟨enough, reached⟩
      rcases ends.eventually stableBody with ⟨enoughInside, reachedInside⟩
      refine ⟨max enough enoughInside, fun fuel loopFuel le _ => ?_⟩
      have check := reached fuel (Nat.le_trans (Nat.le_max_left _ _) le)
      have inside := reachedInside fuel (Nat.le_trans (Nat.le_max_right _ _) le)
      rw [whileLoop_succ, bind_of_ok check, if_pos rfl, allowed, unlessLimited, bind_apply, inside]
      rcases ended with ⟨_ | value, behind⟩ | ⟨stop, behind⟩
      · exact (leaves behind rfl).elim
      · rfl
      · rfl
  | round holds allowed ends _ ih =>
      rcases holds.eventually stableCondition with ⟨enough, reached⟩
      rcases ends.eventually stableBody with ⟨enoughInside, reachedInside⟩
      rcases ih with ⟨enoughLater, reachedLater⟩
      refine ⟨max (max enough enoughInside) enoughLater + 1, fun fuel loopFuel le loopLe => ?_⟩
      rcases loopFuel with _ | loopFuel
      · exact (Nat.not_succ_le_zero _ loopLe).elim
      rw [whileLoop_succ, bind_of_ok (reached fuel (by omega)), if_pos rfl, allowed, unlessLimited,
        bind_of_ok (reachedInside fuel (by omega))]
      exact reachedLater fuel loopFuel (by omega) (by omega)

/-- A while loop comes to what its rounds lead to. -/
theorem ends_whileLoop_iff :
    Ends (fun fuel => whileLoop limit (condition fuel) (body fuel) fuel started) machine ended ↔
      ∃ record, LoopRun limit condition body started machine record ended := by
  constructor
  · rintro ⟨hasEnded, fuel, reached⟩
    subst reached
    exact exists_loopRun hasEnded
  · rintro ⟨record, run⟩
    rcases run.reached stableCondition stableBody with ⟨enough, reached⟩
    exact ⟨run.hasEnded, enough + 1, reached _ _ (Nat.le_succ enough) (Nat.le_refl enough)⟩

/-- A loop goes through the same rounds each time that it starts on the same machine. -/
theorem LoopRun.unique (run : LoopRun limit condition body started machine record ended)
    (run' : LoopRun limit condition body started machine record' ended') :
    record' = record ∧ ended' = ended := by
  induction run generalizing record' ended' with
  | left fails =>
      cases run' with
      | left check' =>
          cases check'.unique stableCondition fails
          exact ⟨rfl, rfl⟩
      | stopped check' | cut check' _ | leftInside check' _ _ _ | round check' _ _ _ =>
          cases check'.unique stableCondition fails
  | stopped stops =>
      cases run' with
      | stopped check' =>
          cases check'.unique stableCondition stops
          exact ⟨rfl, rfl⟩
      | left check' | cut check' _ | leftInside check' _ _ _ | round check' _ _ _ =>
          cases check'.unique stableCondition stops
  | cut holds exceeded =>
      cases run' with
      | cut check' exceeded' =>
          cases check'.unique stableCondition holds
          cases exceeded.symm.trans exceeded'
          exact ⟨rfl, rfl⟩
      | left check' | stopped check' => cases check'.unique stableCondition holds
      | leftInside _ allowed' _ _ | round _ allowed' _ _ => cases exceeded.symm.trans allowed'
  | leftInside holds allowed ends leaves =>
      cases run' with
      | leftInside check' _ ends' _ =>
          cases check'.unique stableCondition holds
          cases ends'.unique stableBody ends
          exact ⟨rfl, rfl⟩
      | round check' _ ends' _ =>
          cases check'.unique stableCondition holds
          exact (leaves _ (ends.unique stableBody ends')).elim
      | left check' | stopped check' => cases check'.unique stableCondition holds
      | cut _ exceeded' => cases exceeded'.symm.trans allowed
  | round holds allowed ends _ ih =>
      cases run' with
      | round check' _ ends' later' =>
          cases check'.unique stableCondition holds
          cases ends'.unique stableBody ends
          rcases ih later' with ⟨rfl, rfl⟩
          exact ⟨rfl, rfl⟩
      | leftInside check' _ ends' leaves' =>
          cases check'.unique stableCondition holds
          exact (leaves' _ (ends'.unique stableBody ends)).elim
      | left check' | stopped check' => cases check'.unique stableCondition holds
      | cut _ exceeded' => cases exceeded'.symm.trans allowed

end

section

variable {bound : Nat} {condition : Nat → Exec Bool} {body : Nat → Exec Completion}
  {started : Nat} {machine : Machine} {record : LoopRecord}
  {ended : EStateM.Result Stop Machine Completion}

theorem exceeds_eq_none_iff : exceeds (some bound) (started + 1) = none ↔ started < bound := by
  by_cases below : started < bound
  · simp only [exceeds, Option.filter_some, decide_eq_true_eq, below, iff_true]
    exact if_neg (by omega)
  · simp only [exceeds_of_le (Nat.le_of_not_lt below), below, reduceCtorEq]

theorem LoopRun.limited (run : LoopRun none condition body started machine record ended)
    (few : started + record.rounds ≤ bound) :
    LoopRun (some bound) condition body started machine record ended := by
  induction run with
  | left fails => exact .left fails
  | stopped stops => exact .stopped stops
  | cut _ exceeded => cases exceeded
  | leftInside holds _ ends leaves =>
      exact .leftInside holds (exceeds_eq_none_iff.mpr few) ends leaves
  | round holds _ ends _ ih =>
      simp only [LoopRecord.afterRound] at few
      exact .round holds (exceeds_eq_none_iff.mpr (by omega)) ends (ih (by omega))

/-- A loop under a limit leaves on its own, or makes all of the rounds that it may make, finds that
its condition still holds, and fails. -/
theorem LoopRun.unlimited_or_cut
    (run : LoopRun (some bound) condition body started machine record ended)
    (within : started ≤ bound) :
    LoopRun none condition body started machine record ended ∧ started + record.rounds ≤ bound ∨
      started + record.rounds = bound ∧ record.checks = record.rounds + 1 ∧
        ended = .error (.error (.loopLimit bound)) record.checked.atLimit := by
  generalize isLimit : some bound = limit at run
  induction run with
  | left fails => exact .inl ⟨.left fails, within⟩
  | stopped stops => exact .inl ⟨.stopped stops, within⟩
  | @cut started bound' _ checked holds exceeded =>
      subst isLimit
      by_cases below : started < bound
      · cases exceeded.symm.trans (exceeds_eq_none_iff.mpr below)
      · have isBound : started = bound := by omega
        cases exceeded.symm.trans (exceeds_of_le (Nat.le_of_eq isBound.symm))
        exact .inr ⟨isBound, rfl, rfl⟩
  | @leftInside started _ _ _ holds allowed ends leaves =>
      subst isLimit
      exact .inl ⟨.leftInside holds rfl ends leaves, exceeds_eq_none_iff.mp allowed⟩
  | @round started _ _ _ record _ holds allowed ends later ih =>
      subst isLimit
      rcases ih (exceeds_eq_none_iff.mp allowed) with ⟨unlimited, few⟩ | ⟨all, oneMore, failed⟩
      · refine .inl ⟨.round holds rfl ends unlimited, ?_⟩
        simp only [LoopRecord.afterRound]
        omega
      · refine .inr ⟨?_, ?_, failed⟩
        · simp only [LoopRecord.afterRound]
          omega
        · simp only [LoopRecord.afterRound, oneMore]

end

def check (options : Options) (condition : Expr) (fuel : Nat) : Exec Bool := do
  isTruthy (← evaluate options fuel condition)

theorem uniform_check (options : Options) (condition : Expr) :
    Uniform options .expression (check options condition) := by
  intro fuel fuel' le
  have evaluated := (parallel_run (Eq.refl options.policy) (fuelFor_of_le le)).1 condition
  exact evaluated.bind fun value => (Elementary.isTruthy value).parallel

theorem uniform_executeAll (options : Options) (block : Block) :
    Uniform options .statement fun fuel => executeAll (execute options fuel) block :=
  fun _ _ le => parallel_executeAll (fun statement => uniform_execute options statement le) block

theorem ends_executeAll_cons_iff {options : Options} {statement : Statement} {statements : Block}
    {machine later : Machine}
    (ends : Ends (fun fuel => execute options fuel statement) machine (.ok .normal later))
    (ended : EStateM.Result Stop Machine Completion) :
    Ends (fun fuel => executeAll (execute options fuel) (statement :: statements)) machine ended ↔
      Ends (fun fuel => executeAll (execute options fuel) statements) later ended :=
  ends.bind_iff (uniform_execute options statement).stable
    (uniform_executeAll options statements).stable ended

theorem executeAll_singleton (execute : Statement → Exec Completion) (statement : Statement) :
    executeAll execute [statement] = execute statement := by
  have goesOn : unlessReturned (pure .normal) = (pure : Completion → Exec Completion) := by
    funext completion
    cases completion <;> rfl
  change execute statement >>= unlessReturned (pure .normal) = execute statement
  rw [goesOn, bind_pure]

/-- A while loop under these options, but with a limit of its own on its rounds. -/
def limitedTo (options : Options) (own : Option Nat) (condition : Expr) (body : Block)
    (fuel : Nat) : Exec Completion :=
  whileLoop own (check options condition fuel) (executeAll (execute options fuel) body) fuel 0

abbrev LoopRunOf (options : Options) (own : Option Nat) (condition : Expr) (body : Block) :
    Machine → LoopRecord → EStateM.Result Stop Machine Completion → Prop :=
  LoopRun own (check options condition) (fun fuel => executeAll (execute options fuel) body) 0

theorem ends_limitedTo_iff (options : Options) (own : Option Nat) (condition : Expr) (body : Block)
    (machine : Machine) (ended : EStateM.Result Stop Machine Completion) :
    Ends (limitedTo options own condition body) machine ended ↔
      ∃ record, LoopRunOf options own condition body machine record ended :=
  ends_whileLoop_iff (uniform_check options condition).stable
    (uniform_executeAll options body).stable

theorem ends_execute_whileLoop_iff (options : Options) (condition : Expr) (body : Block)
    (machine : Machine) (ended : EStateM.Result Stop Machine Completion) :
    Ends (fun fuel => execute options fuel (.whileLoop condition body)) machine ended ↔
      ∃ record, LoopRunOf options options.loopLimit condition body machine record ended := by
  rw [← ends_limitedTo_iff]
  constructor
  · rintro ⟨hasEnded, fuel, reached⟩
    cases fuel with
    | zero => exact (hasEnded machine reached.symm).elim
    | succ fuel => exact ⟨hasEnded, fuel, reached⟩
  · rintro ⟨hasEnded, fuel, reached⟩
    exact ⟨hasEnded, fuel + 1, reached⟩

theorem LoopRunOf.unique {options : Options} {own : Option Nat} {condition : Expr} {body : Block}
    {machine : Machine} {record record' : LoopRecord}
    {ended ended' : EStateM.Result Stop Machine Completion}
    (run : LoopRunOf options own condition body machine record ended)
    (run' : LoopRunOf options own condition body machine record' ended') :
    record' = record ∧ ended' = ended :=
  LoopRun.unique (uniform_check options condition).stable (uniform_executeAll options body).stable
    run run'

/-- Under a limit, every loop ends. -/
theorem exists_loopRunOf {bound : Nat} {options : Options}
    (limited : options.loopLimit = some bound) (condition : Expr) (body : Block)
    (machine : Machine) :
    ∃ record ended, LoopRunOf options (some bound) condition body machine record ended := by
  have deeper : DeeperSettles options machine.depth := fun _ block => settles_block limited _ block
  have settles := settles_execute limited deeper (.whileLoop condition body)
  rcases settles.ends machine rfl with ⟨fuel, hasEnded⟩
  rcases (ends_execute_whileLoop_iff _ _ _ _ _).mp ⟨hasEnded, fuel, rfl⟩ with ⟨record, run⟩
  rw [limited] at run
  exact ⟨record, _, run⟩

/-- What a limit on its rounds makes of a while statement that is executed on a machine. The
statement and the loop without a limit of its own come to what their rounds lead to, and under the
limit the loop ends, in one way only. -/
structure CutAt (bound : Nat) (options : Options) (condition : Expr) (body : Block)
    (machine : Machine) : Prop where
  ends_iff : ∀ ended,
    Ends (fun fuel => execute options fuel (.whileLoop condition body)) machine ended ↔
      ∃ record, LoopRunOf options (some bound) condition body machine record ended
  ends_unlimited_iff : ∀ ended,
    Ends (limitedTo options none condition body) machine ended ↔
      ∃ record, LoopRunOf options none condition body machine record ended
  existsUnique : ∃! outcome : LoopRecord × EStateM.Result Stop Machine Completion,
    LoopRunOf options (some bound) condition body machine outcome.1 outcome.2
  /-- If the loop leaves on its own, having started no more rounds than the limit, then the limit
  changes nothing. -/
  agrees : ∀ record ended, LoopRunOf options none condition body machine record ended →
    record.rounds ≤ bound → LoopRunOf options (some bound) condition body machine record ended
  /-- Otherwise the loop makes as many rounds as the limit, evaluates its condition once more, and
  fails on the machine that this leaves behind, in whose history the limit is put down. -/
  fails : (∀ record ended, LoopRunOf options none condition body machine record ended →
      bound < record.rounds) →
    ∃ checked, LoopRunOf options (some bound) condition body machine ⟨bound + 1, bound, checked⟩
      (.error (.error (.loopLimit bound)) checked.atLimit)

theorem cutAt_of_loopLimit {bound : Nat} {options : Options}
    (limited : options.loopLimit = some bound) (condition : Expr) (body : Block)
    (machine : Machine) :
    CutAt bound options condition body machine := by
  rcases exists_loopRunOf limited condition body machine with ⟨record, ended, run⟩
  refine ⟨?_, ends_limitedTo_iff options none condition body machine, ?_, ?_, ?_⟩
  · intro ended
    rw [ends_execute_whileLoop_iff, limited]
  · refine ⟨(record, ended), run, ?_⟩
    rintro ⟨record', ended'⟩ run'
    rcases LoopRunOf.unique run run' with ⟨sameRecord, sameEnd⟩
    exact Prod.ext sameRecord sameEnd
  · intro record ended unlimited few
    exact unlimited.limited (Nat.le_trans (Nat.le_of_eq (Nat.zero_add _)) few)
  · intro many
    rcases run.unlimited_or_cut (Nat.zero_le bound) with ⟨unlimited, few⟩ | ⟨all, oneMore, failed⟩
    · have tooMany := many _ _ unlimited
      omega
    · rcases record with ⟨checks, rounds, checked⟩
      simp only [Nat.zero_add] at all oneMore failed
      subst all oneMore failed
      exact ⟨checked, run⟩

/-- A while loop is cut exactly at the limit on its rounds, whatever its condition and its body do:
as long as the loop itself, without a limit of its own, leaves with no more rounds than that, the
limit changes nothing, and otherwise the loop fails once its condition has held one time more often.
The rounds are counted anew each time that the loop is executed. -/
theorem loop_is_cut_at_its_limit (options : Options) (bound : Nat) (condition : Expr)
    (body : Block) (machine : Machine) :
    let limited : Options := { options with loopLimit := some bound }
    let loop : Statement := .whileLoop condition body
    CutAt bound limited condition body machine ∧
      ∀ later, Ends (fun fuel => execute limited fuel loop) machine (.ok .normal later) →
        CutAt bound limited condition body later ∧
          ∀ ended,
            Ends (fun fuel => executeAll (execute limited fuel) [loop, loop]) machine ended ↔
              Ends (fun fuel => execute limited fuel loop) later ended := by
  intro limited loop
  refine ⟨cutAt_of_loopLimit rfl condition body machine, fun later ends => ?_⟩
  refine ⟨cutAt_of_loopLimit rfl condition body later, fun ended => ?_⟩
  rw [ends_executeAll_cons_iff ends]
  simp only [executeAll_singleton]

/-- A loop whose condition always holds makes as many rounds as its limit, and fails. -/
example :
    let loop : Statement := .whileLoop (.sentinel .yes) [.output (.string "a")]
    let machine : Machine := .fresh (.ofInput [] none) 0
    outcomeOf (execute { loopLimit := some 2 } 5 loop machine) =
        .error (.error (.loopLimit 2)) ∧
      ((execute { loopLimit := some 2 } 5 loop).after machine).buffer = #['a', 'a'] :=
  ⟨rfl, rfl⟩

end Mel.Exec

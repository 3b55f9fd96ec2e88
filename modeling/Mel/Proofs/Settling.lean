import Mel.Proofs.Fuel
import Mel.Proofs.ScopeDiscipline

/-!
# Enough fuel

A run settles if some amount of fuel is enough for it, from every machine at a given
depth. This file says how that passes from steps to what is put together from them:
of two amounts of fuel, the larger one is enough for both steps. Behind a limit that
is reached, nothing has to settle.
-/

namespace Mel.Exec

variable {α β : Type}

theorem Elementary.hasEnded {strength : Strength} {step : Exec α}
    (isElementary : Elementary strength step) (machine : Machine) : HasEnded (step machine) := by
  intro later exhausted
  cases isElementary with
  | lookup name =>
      rw [lookup_apply] at exhausted
      cases found : machine.scope.get? name <;> simp [found] at exhausted
  | assign name value =>
      rw [assign_apply] at exhausted
      cases assigned : machine.scope.assign? name value <;> simp [assigned] at exhausted
  | textOf value =>
      rw [textOf_apply] at exhausted
      cases content : machine.heap.content? value <;> simp [content] at exhausted
  | write text =>
      rw [write_apply] at exhausted
      generalize machine.streams.writeError? _ = failure at exhausted
      cases failure <;> cases exhausted
  | readLine =>
      rw [readLine_apply] at exhausted
      generalize textRead _ = text at exhausted
      cases text <;> cases exhausted
  | takeOut direction count =>
      rw [takeOut_apply, write_apply] at exhausted
      split at exhausted
      · cases exhausted
      · generalize (behindTake direction count machine).streams.writeError? _ = failure at exhausted
        cases failure <;> cases exhausted
  | _ => cases exhausted

theorem HasEnded.bind {step : Exec α} {next : α → Exec β} {machine : Machine}
    (hasEnded : HasEnded (step machine))
    (nextEnded : ∀ result later, step machine = .ok result later → HasEnded (next result later)) :
    HasEnded ((step >>= next) machine) := by
  cases ended : step machine with
  | ok result later =>
      rw [bind_of_ok ended]
      exact nextEnded result later ended
  | error stop later =>
      rw [bind_of_error ended]
      rintro later exhausted
      cases exhausted
      exact hasEnded _ ended

/-- What burns no fuel does not run out of it. -/
theorem Composed.hasEnded {strength : Strength} {step : Exec α}
    (composed : Composed strength step) (machine : Machine) : HasEnded (step machine) := by
  induction composed generalizing machine with
  | elementary isElementary => exact isElementary.hasEnded machine
  | weaken _ ih => exact ih machine
  | bind _ _ ih ihNext => exact (ih machine).bind fun result later _ => ihNext result later

/-- More fuel only carries a run further. -/
def Uniform (options : Options) (strength : Strength) (run : Nat → Exec α) : Prop :=
  ∀ ⦃fuel fuel'⦄, fuel ≤ fuel' → Parallel options options True strength (run fuel) (run fuel')

/-- On every machine at this depth, the run ends with some amount of fuel. -/
structure Settles (options : Options) (depth : Nat) (strength : Strength)
    (run : Nat → Exec α) : Prop where
  uniform : Uniform options strength run
  ends : ∀ machine : Machine, machine.depth = depth → ∃ fuel, HasEnded (run fuel machine)

variable {options : Options} {depth : Nat} {strength : Strength}

namespace Settles

/-- A run that has ended ends in the same way with more fuel. -/
theorem same {run : Nat → Exec α} (settles : Settles options depth strength run)
    {fuel fuel' : Nat} (le : fuel ≤ fuel') {machine : Machine}
    (hasEnded : HasEnded (run fuel machine)) : run fuel' machine = run fuel machine :=
  (settles.uniform le).extends machine hasEnded

theorem depth_after {run : Nat → Exec α} (settles : Settles options depth strength run)
    (fuel : Nat) (machine : Machine) : ((run fuel).after machine).depth = machine.depth := by
  have kept := (settles.uniform (Nat.le_refl fuel)).keeps .frames machine
  exact (StepLaw.frames.statement_of_relation kept).depth

theorem ofComposed {step : Exec α} (composed : Composed strength step) :
    Settles options depth strength fun _ => step :=
  ⟨fun _ _ _ => composed.parallel, fun machine _ => ⟨0, composed.hasEnded machine⟩⟩

theorem weaken {run : Nat → Exec α} (settles : Settles options depth .expression run) :
    Settles options depth .statement run :=
  ⟨fun _ _ le => (settles.uniform le).weaken, settles.ends⟩

theorem bind {run : Nat → Exec α} {next : Nat → α → Exec β}
    (settles : Settles options depth strength run)
    (settlesNext : ∀ result, Settles options depth strength fun fuel => next fuel result) :
    Settles options depth strength fun fuel => run fuel >>= next fuel := by
  constructor
  · intro fuel fuel' le
    exact (settles.uniform le).bind fun result => (settlesNext result).uniform le
  · intro machine atDepth
    rcases settles.ends machine atDepth with ⟨fuel, hasEnded⟩
    cases ended : run fuel machine with
    | error stop later =>
        refine ⟨fuel, hasEnded.bind ?_⟩
        intro result later isOk
        simp [ended] at isOk
    | ok result later =>
        have laterDepth : later.depth = depth := by
          have kept := settles.depth_after fuel machine
          rw [after_of_ok ended] at kept
          exact kept.trans atDepth
        rcases (settlesNext result).ends later laterDepth with ⟨nextFuel, nextEnded⟩
        -- The larger amount of fuel is enough for both steps.
        have first := settles.same (Nat.le_max_left fuel nextFuel) hasEnded
        have second := (settlesNext result).same (Nat.le_max_right fuel nextFuel) nextEnded
        refine ⟨max fuel nextFuel, ?_⟩
        rw [bind_of_ok (first.trans ended), second]
        exact nextEnded

theorem catching {run handler : Nat → Exec α} (settles : Settles options depth .statement run)
    (settlesHandler : Settles options depth .statement handler) :
    Settles options depth .statement fun fuel => catching (run fuel) (handler fuel) := by
  constructor
  · intro fuel fuel' le
    exact (settles.uniform le).catching (settlesHandler.uniform le)
  · intro machine atDepth
    rcases settles.ends machine atDepth with ⟨fuel, hasEnded⟩
    rcases ended : run fuel machine with ⟨result, later⟩ | ⟨error | reason, later⟩
    · refine ⟨fuel, ?_⟩
      rw [catching_apply, ended]
      intro later exhausted
      cases exhausted
    · have laterDepth : later.depth = depth := by
        have kept := settles.depth_after fuel machine
        rw [after_of_error ended] at kept
        exact kept.trans atDepth
      rcases settlesHandler.ends later laterDepth with ⟨handlerFuel, handlerEnded⟩
      have first := settles.same (Nat.le_max_left fuel handlerFuel) hasEnded
      have second := settlesHandler.same (Nat.le_max_right fuel handlerFuel) handlerEnded
      refine ⟨max fuel handlerFuel, ?_⟩
      simp only [catching_apply, first.trans ended, second]
      exact handlerEnded
    · refine ⟨fuel, ?_⟩
      rw [catching_apply, ended]
      rw [ended] at hasEnded
      exact hasEnded

theorem hasEnded_between {enter leave : Machine → Machine} {step : Exec α} {machine : Machine}
    (hasEnded : HasEnded (step (enter machine))) :
    HasEnded (between enter leave step machine) := by
  intro later exhausted
  simp only [between] at exhausted
  split at exhausted
  · cases exhausted
  · rename_i stop inner stopped
    cases exhausted
    exact hasEnded inner stopped

theorem inFrame {run : Nat → Exec α} (settles : Settles options depth .statement run) :
    Settles options depth .statement fun fuel => inFrame (run fuel) := by
  constructor
  · intro fuel fuel' le
    exact (settles.uniform le).inFrame
  · intro machine atDepth
    rcases settles.ends (openFrame machine) atDepth with ⟨fuel, hasEnded⟩
    exact ⟨fuel, hasEnded_between hasEnded⟩

theorem inCall {run : Nat → Exec α} (settles : Settles options (depth + 1) .statement run) :
    Settles options depth .expression fun fuel => inCall (run fuel) := by
  constructor
  · intro fuel fuel' le
    exact (settles.uniform le).inCall
  · intro machine atDepth
    have inside : (enterCall machine).depth = depth + 1 := by simp [enterCall, atDepth]
    rcases settles.ends (enterCall machine) inside with ⟨fuel, hasEnded⟩
    exact ⟨fuel, hasEnded_between hasEnded⟩

theorem hasEnded_failAtLimit (error : RuntimeError) (machine : Machine) :
    HasEnded ((failAtLimit error : Exec α) machine) := by
  intro later exhausted
  cases exhausted

/-- At the limit a round fails, so that only below it has the rest to end. -/
theorem unlessLooping {run : Nat → Exec α} (started : Nat)
    (uniform : Uniform options .statement run)
    (settles : exceeds options.loopLimit started = none → Settles options depth .statement run) :
    Settles options depth .statement fun fuel =>
      unlessLimited .loopLimit (exceeds options.loopLimit started) (run fuel) := by
  constructor
  · intro fuel fuel' le
    exact (uniform le).unlessLooping started
  · intro machine atDepth
    cases limit : exceeds options.loopLimit started with
    | none => exact (settles limit).ends machine atDepth
    | some limit => exact ⟨0, hasEnded_failAtLimit _ machine⟩

theorem ends_unlessDeep {run : Nat → Exec α} (error : Nat → RuntimeError)
    (settles : depth < options.depthLimit → Settles options depth .expression run)
    {machine : Machine} (atDepth : machine.depth = depth) :
    ∃ fuel, HasEnded (Exec.unlessDeep options error (run fuel) machine) := by
  by_cases deep : options.depthLimit ≤ depth
  · refine ⟨0, ?_⟩
    rw [unlessDeep_apply, atDepth, depthExceeded_of_le deep]
    exact hasEnded_failAtLimit _ machine
  · have shallow : depth < options.depthLimit := Nat.lt_of_not_le deep
    rcases (settles shallow).ends machine atDepth with ⟨fuel, hasEnded⟩
    refine ⟨fuel, ?_⟩
    rw [unlessDeep_apply, atDepth, depthExceeded_of_lt shallow]
    exact hasEnded

/-- At the limit a call fails, so that only below it has its body to end. -/
theorem unlessDeep {run : Nat → Exec α} (uniform : Uniform options .expression run)
    (settles : depth < options.depthLimit → Settles options depth .expression run) :
    Settles options depth .expression fun fuel =>
      unlessDeep options .callDepth (run fuel) :=
  ⟨fun _ _ le => (uniform le).unlessDeep, fun _ atDepth => ends_unlessDeep _ settles atDepth⟩

theorem unlessDeepEmbedded {run : Nat → Exec α} (uniform : Uniform options .expression run)
    (settles : depth < options.depthLimit → Settles options depth .expression run) :
    Settles options depth .expression fun fuel =>
      Exec.unlessDeep options (fun limit => .embeddedFailure (.callDepth limit)) (run fuel) :=
  ⟨fun _ _ le => (uniform le).unlessDeepEmbedded,
    fun _ atDepth => ends_unlessDeep _ settles atDepth⟩

end Settles

end Mel.Exec

import Mel.Proofs.Parallel

/-!
# Fuel

Fuel only makes evaluation total. Once a run ends for another reason than having run
out of it, more fuel changes nothing: neither the result nor the machine that is left
behind. So what a run comes to can be stated without any fuel, and is unique.
-/

namespace Mel.Exec

variable {α β : Type}

/-- A step has ended for another reason than having run out of fuel. -/
def HasEnded (ended : EStateM.Result Stop Machine α) : Prop :=
  ∀ later, ended ≠ .error (.halt .outOfFuel) later

/-- If two steps have ended, so has the first of them. -/
theorem HasEnded.of_bind {first : Exec α} {next : α → Exec β} {machine : Machine}
    (hasEnded : HasEnded ((first >>= next) machine)) : HasEnded (first machine) :=
  fun later exhausted => hasEnded later (bind_of_error exhausted)

/-- More fuel changes nothing about a run that has ended. -/
def FuelStable (run : Nat → Exec α) : Prop :=
  ∀ fuel fuel' machine, fuel ≤ fuel' → HasEnded (run fuel machine) →
    run fuel' machine = run fuel machine

/-- What a run comes to with all the fuel that it needs. -/
structure Ends (run : Nat → Exec α) (machine : Machine)
    (ended : EStateM.Result Stop Machine α) : Prop where
  hasEnded : HasEnded ended
  reached : ∃ fuel, run fuel machine = ended

/-- The second step ends as the first one does, unless that one has run out of fuel. -/
def Extends (first second : Exec α) : Prop :=
  ∀ machine, HasEnded (first machine) → second machine = first machine

theorem Extends.bind {first second : Exec α} {firstNext secondNext : α → Exec β}
    (extended : Extends first second)
    (extendedNext : ∀ result, Extends (firstNext result) (secondNext result)) :
    Extends (first >>= firstNext) (second >>= secondNext) := by
  intro machine hasEnded
  have same := extended machine hasEnded.of_bind
  cases ended : first machine with
  | ok result later =>
      rw [bind_of_ok ended] at hasEnded ⊢
      rw [bind_of_ok (same.trans ended)]
      exact extendedNext result later hasEnded
  | error stop later => rw [bind_of_error ended, bind_of_error (same.trans ended)]

theorem Extends.between {first second : Exec α} (extended : Extends first second)
    (enter leave : Machine → Machine) :
    Extends (between enter leave first) (between enter leave second) := by
  intro machine hasEnded
  have firstEnded : HasEnded (first (enter machine)) := by
    intro later exhausted
    exact hasEnded (leave later) (by rw [Exec.between, exhausted])
  rw [Exec.between, Exec.between, extended (enter machine) firstEnded]

theorem Extends.catching {first second firstHandler secondHandler : Exec α}
    (extended : Extends first second) (extendedHandler : Extends firstHandler secondHandler) :
    Extends (catching first firstHandler) (catching second secondHandler) := by
  intro machine hasEnded
  rw [catching_apply] at hasEnded
  have firstEnded : HasEnded (first machine) := by
    intro later exhausted
    rw [exhausted] at hasEnded
    exact hasEnded later rfl
  rw [catching_apply, catching_apply, extended machine firstEnded]
  generalize first machine = ended at *
  rcases ended with ⟨result, later⟩ | ⟨error | reason, later⟩
  · rfl
  · exact extendedHandler later hasEnded
  · rfl

theorem Extends.unlessLimited {first second : Exec α} (extended : Extends first second)
    (error : Nat → RuntimeError) (limit : Option Nat) :
    Extends (unlessLimited error limit first) (unlessLimited error limit second) := by
  cases limit with
  | none => exact extended
  | some limit => exact fun _ _ => rfl

theorem Extends.unlessDeep {first second : Exec α} (extended : Extends first second)
    (options : Options) (error : Nat → RuntimeError) :
    Extends (unlessDeep options error first) (unlessDeep options error second) :=
  fun machine => extended.unlessLimited error (depthExceeded options machine.depth) machine

theorem Extends.runEmbedded {executeFirst executeSecond : Statement → Exec Completion}
    {block : Block} (extended : Extends (executeAll executeFirst block)
      (executeAll executeSecond block)) :
    Extends (runEmbedded executeFirst block) (runEmbedded executeSecond block) := by
  intro machine hasEnded
  rw [runEmbedded_apply] at hasEnded ⊢
  have firstEnded :
      HasEnded (executeAll executeFirst block (.fresh machine.streams (machine.depth + 1))) := by
    intro later exhausted
    rw [exhausted] at hasEnded
    exact hasEnded (behindEmbedded machine later) rfl
  rw [runEmbedded_apply, extended _ firstEnded]

variable {options : Options}

theorem Parallel.extends {strength : Strength} {first second : Exec α}
    (parallel : Parallel options options True strength first second) : Extends first second := by
  induction parallel with
  | elementary isElementary => exact fun _ _ => rfl
  | weaken _ extended => exact extended
  | bind _ _ extended extendedNext => exact extended.bind extendedNext
  | inFrame _ extended => exact extended.between openFrame closeFrame
  | inCall _ extended => exact extended.between enterCall leaveCall
  | catching _ _ extended extendedHandler => exact extended.catching extendedHandler
  | unlessLooping started _ extended => exact extended.unlessLimited _ _
  | unlessDeep _ extended => exact extended.unlessDeep _ _
  | unlessDeepEmbedded _ extended => exact extended.unlessDeep _ _
  | runEmbedded _ extended => exact extended.runEmbedded
  | exhausted => exact fun _ _ => rfl
  | early _ second => exact fun machine hasEnded => (hasEnded machine rfl).elim

theorem fuelFor_of_le {fuel fuel' : Nat} (le : fuel ≤ fuel') : FuelFor True fuel fuel' :=
  .inr ⟨trivial, le⟩

theorem fuelStable_evaluate (options : Options) (expression : Expr) :
    FuelStable fun fuel => evaluate options fuel expression := by
  intro fuel fuel' machine le
  have parallel := (parallel_run (Eq.refl options.policy) (fuelFor_of_le le)).1 expression
  exact parallel.extends machine

theorem fuelStable_interpret (options : Options) (block : Block) :
    FuelStable fun fuel => interpret options fuel block := by
  intro fuel fuel' machine le
  have parallel := parallel_interpret (Eq.refl options.policy) (fuelFor_of_le le) block
  exact parallel.extends machine

theorem fuelStable_embedded (options : Options) (arguments : List Value) :
    FuelStable fun fuel => embedded options (execute options fuel) arguments := by
  intro fuel fuel' machine le
  have executed := (parallel_run (Eq.refl options.policy) (fuelFor_of_le le)).2
  exact (parallel_embedded (Eq.refl options.policy) executed arguments).extends machine

/-- A run that ends comes to the same with any fuel that is enough. -/
theorem Ends.eventually {run : Nat → Exec α} (stable : FuelStable run) {machine : Machine}
    {ended : EStateM.Result Stop Machine α} (ends : Ends run machine ended) :
    ∃ enough, ∀ fuel, enough ≤ fuel → run fuel machine = ended := by
  rcases ends with ⟨hasEnded, enough, rfl⟩
  exact ⟨enough, fun fuel le => stable enough fuel machine le hasEnded⟩

theorem Ends.unique {run : Nat → Exec α} (stable : FuelStable run) {machine : Machine}
    {ended ended' : EStateM.Result Stop Machine α} (first : Ends run machine ended)
    (second : Ends run machine ended') : ended = ended' := by
  rcases first.eventually stable with ⟨enough, reached⟩
  rcases second.eventually stable with ⟨enough', reached'⟩
  rw [← reached _ (Nat.le_max_left enough enough'), ← reached' _ (Nat.le_max_right enough enough')]

end Mel.Exec

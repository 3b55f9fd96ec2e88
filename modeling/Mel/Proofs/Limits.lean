import Mel.Proofs.Fuel
import Mel.Proofs.Lockstep.Runs

/-!
# Limits

A limit that a run never meets leaves no trace. A run under some limits is kept in
step with a run under looser ones for as long as the former meets none of its
limits. Each time it does, its history records it, in an embedded program and under a
try as well, so a run whose history has no new record of that kind is the same run
under all looser limits.
-/

namespace Mel

mutual

/-- How often a limit was reached in an event, counting embedded programs. -/
def Event.limitsReached : Event → Nat
  | .limitReached => 1
  | .embedded events => limitsReachedIn events
  | .lineRead _ | .put _ | .taken _ _ | .arrayMade _ | .arrayExtended _ _ => 0

/-- How often a limit was reached in a history, counting embedded programs. -/
def limitsReachedIn : List Event → Nat
  | [] => 0
  | event :: events => event.limitsReached + limitsReachedIn events

end

/-- How often a machine has reached a limit, counting embedded programs. -/
def Machine.limitsReached (machine : Machine) : Nat :=
  limitsReachedIn machine.history

/-- The law that what a machine has reached stays in its history. -/
def StepLaw.limits : StepLaw where
  expression before later := before.limitsReached ≤ later.limitsReached
  statement before later := before.limitsReached ≤ later.limitsReached
  refl _ := Nat.le_refl _
  expression_trans := Nat.le_trans
  statement_trans := Nat.le_trans
  weaken le := le
  newArray _ _ := Nat.le_add_left _ _
  extendArray _ _ _ := Nat.le_add_left _ _
  assign _ := Nat.le_refl _
  write _ _ := Nat.le_refl _
  limit _ := Nat.le_add_left _ _
  call le := le
  embedded _ := Nat.le_add_left _ _
  define _ _ _ := Nat.le_refl _
  defineFunction _ _ _ := Nat.le_refl _
  readLine machine := by
    rw [Exec.behindRead]
    cases machine.streams.delivery with
    | line line => exact Nat.le_add_left _ _
    | failed _ | atEnd => exact Nat.le_refl _
  put _ _ := Nat.le_add_left _ _
  take _ _ _ := Nat.le_add_left _ _
  frame le := le

/-- Options that differ in their limits only, where the second ones have the looser limits. -/
structure Options.Loosens (options looser : Options) : Prop where
  policy : looser.policy = options.policy
  loopLimit : ∀ {limit'}, looser.loopLimit = some limit' →
    ∃ limit, options.loopLimit = some limit ∧ limit ≤ limit'
  depthLimit : options.depthLimit ≤ looser.depthLimit

namespace Options.Loosens

variable {options looser : Options}

variable {errors : RuntimeError → RuntimeError → Prop} {parts : Prop}

/-- Where the tighter limit on rounds is not met, neither is the looser one. -/
theorem limitCheck_exceeds (loosens : options.Loosens looser) (parted : parts) (started : Nat) :
    LimitCheck errors parts .loopLimit (Exec.exceeds options.loopLimit started)
      (Exec.exceeds looser.loopLimit started) := by
  cases tight : Exec.exceeds options.loopLimit started with
  | some limit => exact .part parted
  | none =>
      have loose : Exec.exceeds looser.loopLimit started = none := by
        simp only [Exec.exceeds] at *
        rw [Option.filter_eq_none_iff] at *
        intro limit' looserLimit
        rcases loosens.loopLimit looserLimit with ⟨limit, tighterLimit, le⟩
        have within := tight limit tighterLimit
        simp only [decide_eq_true_eq] at *
        omega
      rw [loose]
      exact .pass

/-- Where the tighter limit on the depth is not met, neither is the looser one. -/
theorem limitCheck_depthExceeded (loosens : options.Loosens looser) (parted : parts)
    (depth : Nat) :
    LimitCheck errors parts .callDepth (Exec.depthExceeded options depth)
      (Exec.depthExceeded looser depth) := by
  by_cases deep : options.depthLimit ≤ depth
  · rw [Exec.depthExceeded_of_le deep]
    exact .part parted
  · have shallow := Nat.lt_of_not_le deep
    rw [Exec.depthExceeded_of_lt shallow,
      Exec.depthExceeded_of_lt (Nat.lt_of_lt_of_le shallow loosens.depthLimit)]
    exact .pass

end Options.Loosens

/-- The runs part where the first one reaches a limit. -/
def Parting.atLimits : Parting (.and .frames .limits) where
  parted start left _ := start.limitsReached < left.limitsReached
  before moved parted := Nat.lt_of_le_of_lt moved.2 parted
  behind parted moved _ := Nat.lt_of_lt_of_le parted moved.2
  frame parted := parted
  call parted := parted
  embedded parted := Nat.lt_add_of_pos_left parted

theorem Parting.atLimits_parted (left right : Machine) :
    Parting.atLimits.parted left left.atLimit right :=
  Nat.lt_add_of_pos_left Nat.one_pos

/-- A run under looser limits follows one under tighter ones until the latter reaches a limit. -/
def Lockstep.ofLoosens {options looser : Options} (loosens : options.Loosens looser) :
    Lockstep :=
  .same loosens.policy .atLimits (fun both => both.1)
    (loosens.limitCheck_exceeds Parting.atLimits_parted)
    (loosens.limitCheck_depthExceeded Parting.atLimits_parted)

namespace Exec

variable {α : Type} {options looser : Options}

theorem eq_of_unlimited {loosens : options.Loosens looser} {left right : Exec α}
    {machine : Machine} (follows : (Lockstep.ofLoosens loosens).Follows left right)
    (unlimited : (left.after machine).limitsReached = machine.limitsReached) :
    right machine = left machine := by
  have isSame : (Lockstep.ofLoosens loosens).IsSame := ⟨rfl, rfl, rfl, rfl⟩
  rcases isSame.eq_or_parted follows machine with equal | parted
  · exact equal
  · exact (Nat.ne_of_gt parted unlimited).elim

/-- A program that ends without reaching a limit, caught or not, ends in the same way under looser
limits, on the same machine, and in no other way. -/
theorem limits_monotone (loosens : options.Loosens looser) {block : Block} {machine : Machine}
    {ended : EStateM.Result Stop Machine Unit}
    (ends : Ends (fun fuel => interpret options fuel block) machine ended)
    (unlimited : (machineOf ended).limitsReached = machine.limitsReached)
    (ended' : EStateM.Result Stop Machine Unit) :
    Ends (fun fuel => interpret looser fuel block) machine ended' ↔ ended' = ended := by
  rcases ends with ⟨hasEnded, fuel, reached⟩
  have follows := (Lockstep.ofLoosens loosens).follows_interpret fuel block
  have same : interpret looser fuel block machine = interpret options fuel block machine := by
    refine eq_of_unlimited follows ?_
    have reachedUnlimited := unlimited
    rw [← reached] at reachedUnlimited
    exact reachedUnlimited
  have endsLooser : Ends (fun fuel => interpret looser fuel block) machine ended :=
    ⟨hasEnded, fuel, same.trans reached⟩
  constructor
  · intro endsToo
    exact endsToo.unique (fuelStable_interpret looser block) endsLooser
  · intro equal
    rwa [equal]

/-- A loop of one round with one call in it. -/
def roundWithCall : Block :=
  [.define "f" [] [.giveBack none], .assign "x" (.sentinel .yes),
    .whileLoop (.variable "x") [.call (.named "f") [], .assign "x" (.sentinel .no)]]

theorem limits_monotone_roundWithCall :
    ∃ later : Machine, later.limitsReached = 0 ∧
      ∀ ended', Ends (fun fuel => interpret ⟨.lenient, none, 7⟩ fuel roundWithCall)
        (.fresh (.ofInput [] none) 0) ended' ↔ ended' = .ok () later := by
  have loosens : Options.Loosens ⟨.lenient, some 1, 1⟩ ⟨.lenient, none, 7⟩ := by
    refine ⟨rfl, ?_, by decide⟩
    intro limit' unlimited
    cases unlimited
  let run (fuel : Nat) := interpret ⟨.lenient, some 1, 1⟩ fuel roundWithCall
  let later := (run 5).after (.fresh (.ofInput [] none) 0)
  have ends : Ends run (.fresh (.ofInput [] none) 0) (.ok () later) := by
    refine ⟨?_, 5, rfl⟩
    intro later equal
    cases equal
  exact ⟨later, rfl, limits_monotone loosens ends rfl⟩

end Exec

end Mel

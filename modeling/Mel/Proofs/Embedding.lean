import Mel.Proofs.Fuel
import Mel.Proofs.Lockstep.Runs
import Mel.Run

/-!
# Embedded programs

Running a text as an embedded program does what running it on its own does, with the
same streams and with as many calls left as the caller has. The embedded run is some
calls deep, the other one is at depth zero under a limit that is lower by as many, so
that both meet their limits at the same calls. What is left of the difference is the
number in the message of a limit error.
-/

namespace Mel

namespace RuntimeError

/-- The error with another number in place of the limit on the depth. -/
def withDepthLimit (limit : Nat) : RuntimeError → RuntimeError
  | .callDepth _ => .callDepth limit
  | .embeddedFailure error => .embeddedFailure (error.withDepthLimit limit)
  | error => error

theorem withDepthLimit_of_isPlain {error : RuntimeError} (plain : error.isPlain) (limit : Nat) :
    error.withDepthLimit limit = error := by
  cases error <;> first | rfl | cases plain

end RuntimeError

namespace Options

/-- The options with the calls that are left inside a call at this depth. -/
def inside (options : Options) (depth : Nat) : Options :=
  { options with depthLimit := options.depthLimit - depth - 1 }

theorem policy_inside (options : Options) (depth : Nat) :
    options.policy = (options.inside depth).policy := rfl

/-- Inside a call, the lower limit is met by the same calls. -/
theorem depthExceeded_inside {options : Options} {depth inner : Nat}
    (shallow : depth < options.depthLimit) {parts : Prop} :
    LimitCheck (fun error error' => error' = error.withDepthLimit options.depthLimit) parts
      .callDepth (Exec.depthExceeded (options.inside depth) inner)
      (Exec.depthExceeded options (inner + (depth + 1))) := by
  have innerLimit : (options.inside depth).depthLimit = options.depthLimit - depth - 1 := rfl
  by_cases deep : options.depthLimit ≤ inner + (depth + 1)
  · rw [Exec.depthExceeded_of_le deep, Exec.depthExceeded_of_le (by omega)]
    exact .fail rfl
  · rw [Exec.depthExceeded_of_lt (Nat.lt_of_not_le deep), Exec.depthExceeded_of_lt (by omega)]
    exact .pass

end Options

/-- A run some calls deep follows one at depth zero that has as many calls left. -/
def Lockstep.ofInside {options : Options} {depth : Nat} (shallow : depth < options.depthLimit) :
    Lockstep where
  leader := options.inside depth
  follower := options
  law := .frames
  parting := .never .frames
  scopes := .same
  streams := Eq
  depths inner outer := outer = inner + (depth + 1)
  errors error error' := error' = error.withDepthLimit options.depthLimit
  policy := options.policy_inside depth
  framesGrown grown := grown
  read := Streams.read_same
  write := Streams.write_same
  deeper := by
    intro inner outer equal
    omega
  plain plain := (RuntimeError.withDepthLimit_of_isPlain plain _).symm
  embedded equal := by rw [equal, RuntimeError.withDepthLimit]
  loopLimit started := by
    refine LimitCheck.same ?_ (Exec.exceeds options.loopLimit started)
    intro limit
    rfl
  depthLimit equal := by
    rw [equal]
    exact Options.depthExceeded_inside shallow

namespace Failure

/-- The failure with another number in place of the limit on the depth. -/
def withDepthLimit (limit : Nat) : Failure → Failure
  | .runtime error => .runtime (error.withDepthLimit limit)
  | failure => failure

/-- What a call stops with whose embedded program has failed. -/
def embeddedStop : Failure → Stop
  | .source error => .error (.embeddedSource error)
  | .runtime error => .error (.embeddedFailure error)
  | .halted reason => .halt reason

theorem message_of_embeddedStop {failure : Failure} {error : RuntimeError}
    (stopped : failure.embeddedStop = .error error) :
    error.message = "error in embedded program: " ++ failure.message := by
  cases failure with
  | source sourceError =>
      cases stopped
      rfl
  | runtime inner =>
      cases stopped
      rfl
  | halted reason => cases stopped

end Failure

/-- What a source comes to on a fresh machine with all the fuel that it needs. -/
structure RunEnds (options : Options) (source : String) (streams : Streams)
    (outcome : Except Failure Unit) (later : Machine) : Prop where
  hasEnded : outcome ≠ .error (.halted .outOfFuel)
  reached : ∃ fuel, run options fuel source streams = (outcome, later)

namespace Exec

/-- How a call ends whose embedded program has run in this way. A source that is refused leaves no
mark in the history. -/
def embeddedEnd (limit : Nat) (machine : Machine) :
    Except Failure Unit → Machine → EStateM.Result Stop Machine Value
  | .ok (), inner => .ok .nil (behindEmbedded machine inner)
  | .error (.source error), inner =>
      .error (Failure.source error).embeddedStop { machine with streams := inner.streams }
  | .error failure, inner =>
      .error (failure.withDepthLimit limit).embeddedStop (behindEmbedded machine inner)

theorem behindEmbedded_congr {lockstep : Lockstep} {left right : Machine}
    (alike : lockstep.Alike left right) (streams : left.streams = right.streams)
    (machine : Machine) : behindEmbedded machine right = behindEmbedded machine left := by
  rw [behindEmbedded, behindEmbedded, streams, alike.history]

theorem runText_eq_embeddedEnd {options : Options} {machine : Machine}
    (shallow : machine.depth < options.depthLimit) (fuel : Nat) (code : String) :
    runText options (execute options fuel) code machine =
      embeddedEnd options.depthLimit machine
        (run (options.inside machine.depth) fuel code machine.streams).1
        (run (options.inside machine.depth) fuel code machine.streams).2 := by
  rw [runText, run, Machine.run, ← options.policy_inside]
  cases readProgram options.policy code with
  | error error => rfl
  | ok block =>
      have fresh : (Lockstep.ofInside shallow).Alike (.fresh machine.streams 0)
          (.fresh machine.streams (machine.depth + 1)) :=
        Lockstep.alike_fresh rfl (Nat.zero_add _).symm
      have matched : (Lockstep.ofInside shallow).Matched (.fresh machine.streams 0)
          (executeAll (execute (options.inside machine.depth) fuel) block
            (.fresh machine.streams 0))
          (executeAll (execute options fuel) block
            (.fresh machine.streams (machine.depth + 1))) :=
        (Lockstep.ofInside shallow).follows_executeAll fuel block fresh
      simp only [Machine.perform, interpret, discard_apply, bind_apply, runEmbedded_apply]
      generalize executeAll (execute (options.inside machine.depth) fuel) block _ = left at *
      generalize executeAll (execute options fuel) block _ = right at *
      cases matched with
      | ok result alike =>
          exact congrArg (EStateM.Result.ok Value.nil)
            (behindEmbedded_congr alike alike.streams machine)
      | error errors alike =>
          subst errors
          exact congrArg (EStateM.Result.error _)
            (behindEmbedded_congr alike alike.streams machine)
      | halt reason alike =>
          exact congrArg (EStateM.Result.error _)
            (behindEmbedded_congr alike alike.streams machine)
      | parted parted => exact parted.elim

theorem hasEnded_embeddedEnd {limit : Nat} {machine inner : Machine}
    {outcome : Except Failure Unit} :
    HasEnded (embeddedEnd limit machine outcome inner) ↔
      outcome ≠ .error (.halted .outOfFuel) := by
  constructor
  · rintro hasEnded rfl
    exact hasEnded _ rfl
  · intro notExhausted later exhausted
    rcases outcome with (sourceError | error | reason) | ⟨⟩
    · cases exhausted
    · cases exhausted
    · cases exhausted
      exact notExhausted rfl
    · cases exhausted

/-- A call of an embedded program ends as it does behind its argument. -/
theorem ends_call_embedded {options : Options} {argument : Expr} {start machine : Machine}
    {code : String}
    (argumentEnds :
      Ends (fun fuel => evaluate options fuel argument) start (.ok (.string code) machine))
    (ended : EStateM.Result Stop Machine Value) :
    Ends (fun fuel => evaluate options fuel (.call .embedded [argument])) start ended ↔
      Ends (fun fuel => embedded options (execute options fuel) [.string code]) machine ended := by
  have called {fuel : Nat}
      (read : evaluate options fuel argument start = .ok (.string code) machine) :
      evaluate options (fuel + 1) (.call .embedded [argument]) start =
        embedded options (execute options fuel) [.string code] machine := by
    have all : evaluateAll (evaluate options fuel) [argument] start =
        .ok [.string code] machine := by
      rw [evaluateAll, bind_of_ok read]
      rfl
    rw [evaluate, evaluateWith, call, bind_of_ok all]
  rcases argumentEnds with ⟨argumentHasEnded, argumentFuel, argumentReached⟩
  have read {fuel : Nat} (enough : argumentFuel ≤ fuel) :
      evaluate options fuel argument start = .ok (.string code) machine := by
    have stable := fuelStable_evaluate options argument _ _ start enough
    simp only [argumentReached] at stable
    exact stable argumentHasEnded
  constructor
  -- The fuel has to be enough for the argument and for the program in it.
  · rintro ⟨hasEnded, fuel, rfl⟩
    refine ⟨hasEnded, max argumentFuel fuel, ?_⟩
    have same := fuelStable_evaluate options (.call .embedded [argument]) fuel
      (max argumentFuel fuel + 1) start (by omega) hasEnded
    simp only at same ⊢
    rw [← same, called (read (Nat.le_max_left _ _))]
  · rintro ⟨hasEnded, fuel, rfl⟩
    refine ⟨hasEnded, max argumentFuel fuel + 1, ?_⟩
    have same := fuelStable_embedded options [.string code] fuel (max argumentFuel fuel) machine
      (Nat.le_max_right _ _) hasEnded
    simp only at same ⊢
    rw [← same, called (read (Nat.le_max_left _ _))]

theorem streams_embeddedEnd (limit : Nat) (machine : Machine) (outcome : Except Failure Unit)
    (inner : Machine) :
    (machineOf (embeddedEnd limit machine outcome inner)).streams = inner.streams := by
  rcases outcome with (sourceError | error | reason) | ⟨⟩ <;> rfl

theorem message_of_embeddedEnd {limit : Nat} {machine inner later : Machine} {failure : Failure}
    {error : RuntimeError}
    (ended : embeddedEnd limit machine (.error failure) inner = .error (.error error) later) :
    error.message = "error in embedded program: " ++ (failure.withDepthLimit limit).message := by
  apply Failure.message_of_embeddedStop
  cases failure with
  | source sourceError =>
      cases ended
      rfl
  | runtime inner =>
      cases ended
      rfl
  | halted reason => cases ended

/-- A call of an embedded program with calls left ends exactly as a run of its source does on a
fresh machine with the same streams and as many calls left, and then with the streams of that run.
The message of a failure differs in its beginning and in the number of a limit on the depth only.
Without calls left, the call fails at the limit and leaves the streams alone. The statement form of
the call does what the expression does. -/
theorem embedded_refines_run (options : Options) {argument : Expr} {start machine : Machine}
    {code : String}
    (argumentEnds :
      Ends (fun fuel => evaluate options fuel argument) start (.ok (.string code) machine)) :
    (machine.depth < options.depthLimit → ∀ ended,
      Ends (fun fuel => evaluate options fuel (.call .embedded [argument])) start ended ↔
        ∃ outcome inner,
          RunEnds (options.inside machine.depth) code machine.streams outcome inner ∧
            ended = embeddedEnd options.depthLimit machine outcome inner ∧
            (machineOf ended).streams = inner.streams ∧
            ∀ failure error later, outcome = .error failure →
              ended = .error (.error error) later →
              error.message = "error in embedded program: " ++
                (failure.withDepthLimit options.depthLimit).message) ∧
    (options.depthLimit ≤ machine.depth → ∀ ended,
      Ends (fun fuel => evaluate options fuel (.call .embedded [argument])) start ended ↔
        ended = .error (.error (.embeddedFailure (.callDepth options.depthLimit)))
          machine.atLimit ∧
        (machineOf ended).streams = machine.streams) ∧
    ∀ fuel,
      execute options fuel (.call .embedded [argument]) start =
        (evaluate options fuel (.call .embedded [argument]) >>= fun _ => return .normal) start := by
  refine ⟨fun shallow ended => ?_, fun deep ended => ?_, fun fuel => ?_⟩
  · rw [ends_call_embedded argumentEnds]
    have embeddedRun (fuel : Nat) :
        embedded options (execute options fuel) [.string code] machine =
          embeddedEnd options.depthLimit machine
            (run (options.inside machine.depth) fuel code machine.streams).1
            (run (options.inside machine.depth) fuel code machine.streams).2 := by
      rw [embedded_eq, unlessDeep_apply, depthExceeded_of_lt shallow, unlessLimited,
        runText_eq_embeddedEnd shallow]
    constructor
    · rintro ⟨hasEnded, fuel, reached⟩
      simp only [embeddedRun] at reached
      subst ended
      refine ⟨_, _, ⟨hasEnded_embeddedEnd.mp hasEnded, fuel, rfl⟩, rfl, ?_, ?_⟩
      · exact streams_embeddedEnd _ _ _ _
      · intro failure error later failed ended
        rw [failed] at ended
        exact message_of_embeddedEnd ended
    · rintro ⟨outcome, inner, ⟨hasEnded, fuel, reached⟩, rfl, -⟩
      refine ⟨hasEnded_embeddedEnd.mpr hasEnded, fuel, ?_⟩
      simp only [embeddedRun, reached]
  · rw [ends_call_embedded argumentEnds]
    have embeddedFails (fuel : Nat) :
        embedded options (execute options fuel) [.string code] machine =
          .error (.error (.embeddedFailure (.callDepth options.depthLimit))) machine.atLimit := by
      rw [embedded_eq, unlessDeep_apply, depthExceeded_of_le deep]
      rfl
    constructor
    · rintro ⟨hasEnded, fuel, reached⟩
      simp only [embeddedFails] at reached
      subst ended
      exact ⟨rfl, rfl⟩
    · rintro ⟨rfl, -⟩
      refine ⟨?_, 0, embeddedFails 0⟩
      intro later exhausted
      cases exhausted
  · cases fuel with
    | zero => rfl
    | succ fuel =>
        rw [execute, evaluate, executeWith, evaluateWith, bind_apply, bind_apply, discard_apply]
        cases call options (evaluate options fuel) (execute options fuel) .embedded [argument]
          start <;> rfl

/-- A program that writes a letter. -/
def letterProgram : String := ":::Program start>\"a\";;;Program end"

theorem embedded_refines_run_letterProgram :
    ∃ later : Machine, later.streams.written = "a".toUTF8.data ∧
      Ends (fun fuel => evaluate ⟨.lenient, none, 1⟩ fuel (.call .embedded [.string letterProgram]))
        (.fresh (.ofInput [] none) 0) (.ok .nil later) := by
  let options : Options := ⟨.lenient, none, 1⟩
  let machine : Machine := .fresh (.ofInput [] none) 0
  let inner := (run (options.inside 0) 3 letterProgram machine.streams).2
  have argumentEnds : Ends (fun fuel => evaluate options fuel (.string letterProgram)) machine
      (.ok (.string letterProgram) machine) := by
    refine ⟨?_, 1, rfl⟩
    intro later exhausted
    cases exhausted
  have isOk : (run (options.inside 0) 3 letterProgram machine.streams).1.toBool := by
    decide +kernel
  have succeeds : (run (options.inside 0) 3 letterProgram machine.streams).1 = .ok () := by
    generalize (run (options.inside 0) 3 letterProgram machine.streams).1 = outcome at isOk
    cases outcome with
    | ok result => rfl
    | error failure => cases isOk
  have runEnds : RunEnds (options.inside 0) letterProgram machine.streams (.ok ()) inner := by
    refine ⟨?_, 3, Prod.ext succeeds rfl⟩
    intro exhausted
    cases exhausted
  have written : (behindEmbedded machine inner).streams.written = "a".toUTF8.data := by
    decide +kernel
  have refines := (embedded_refines_run options argumentEnds).1 Nat.one_pos
    (.ok .nil (behindEmbedded machine inner))
  refine ⟨behindEmbedded machine inner, written, refines.mpr ⟨.ok (), inner, runEnds, rfl, rfl, ?_⟩⟩
  intro failure error later failed
  cases failed

end Exec

end Mel

import Mel.Proofs.Mirrors

/-!
# Isolation of embedded programs

An embedded program begins without any array and leaves none behind, so its machine has a heap of
its own. This file says that nothing depends on this: the arrays of all programs can as well lie
side by side on one heap, which an embedded program finds as its caller has left it, and on which
its own arrays stay. What it does is the same, and it touches none of the arrays that it has found
there, because no value of it ever refers to one of them.
-/

namespace Mel

/-- A machine that has run nothing yet, on a heap with arrays of others. -/
def Machine.freshOn (heap : Heap) (streams : Streams) (depth : Nat) : Machine :=
  { Machine.fresh streams depth with heap }

namespace Exec

/-- The machine behind an embedded program that has shared its heap. -/
def behindSharing (machine inner : Machine) : Machine :=
  { behindEmbedded machine inner with heap := inner.heap }

/-- Executes a block as an embedded program that shares the heap of its caller. -/
def runSharing (execute : Statement → Exec Completion) (block : Block) : Exec Unit := fun machine =>
  match executeAll execute block (.freshOn machine.heap machine.streams (machine.depth + 1)) with
  | .ok _ inner => .ok () (behindSharing machine inner)
  | .error (.error error) inner =>
      .error (.error (.embeddedFailure error)) (behindSharing machine inner)
  | .error (.halt reason) inner => .error (.halt reason) (behindSharing machine inner)

/-- Reads and runs the program that a text holds, on the heap of its caller. -/
def runTextSharing (options : Options) (execute : Statement → Exec Completion) (code : String) :
    Exec Value :=
  match readProgram options.policy code with
  | .error error => fail (.embeddedSource error)
  | .ok block => do
      runSharing execute block
      return .nil

/-- Runs the program that a text holds, on the heap of its caller. -/
def embeddedSharing (options : Options) (execute : Statement → Exec Completion) :
    List Value → Exec Value
  | [.string code] =>
      unlessDeep options (fun limit => .embeddedFailure (.callDepth limit))
        (runTextSharing options execute code)
  | _ => fail .embeddedArgument

def evaluateSharingWith (options : Options) (evaluate : Expr → Exec Value)
    (execute : Statement → Exec Completion) : Expr → Exec Value
  | .call .embedded arguments => do
      embeddedSharing options execute (← evaluateAll evaluate arguments)
  | expression => evaluateWith options evaluate execute expression

def executeSharingWith (options : Options) (evaluate : Expr → Exec Value)
    (execute : Statement → Exec Completion) (fuel : Nat) : Statement → Exec Completion
  | .call .embedded arguments => do
      discard (evaluateAll evaluate arguments >>= embeddedSharing options execute)
      return .normal
  | statement => executeWith options evaluate execute fuel statement

end Exec

mutual

/-- Evaluates an expression, where embedded programs share the heap. -/
def evaluateSharing (options : Options) : (fuel : Nat) → Expr → Exec Value
  | 0, _ => Exec.halt .outOfFuel
  | fuel + 1, expression =>
      Exec.evaluateSharingWith options (evaluateSharing options fuel) (executeSharing options fuel)
        expression

/-- Executes a statement, where embedded programs share the heap. -/
def executeSharing (options : Options) : (fuel : Nat) → Statement → Exec Completion
  | 0, _ => Exec.halt .outOfFuel
  | fuel + 1, statement =>
      Exec.executeSharingWith options (evaluateSharing options fuel) (executeSharing options fuel)
        fuel statement

end

namespace Exec

variable {outside : Heap} {places : List ArrayRef}

/-- Two machines have changed by what an embedded program has done with the streams, and by arrays
that it has added to the second heap. -/
structure Apart (guest host guest' host' : Machine) : Prop where
  onGuest : guest' = { guest with streams := guest'.streams, history := guest'.history }
  onHost : host' = { host with
    heap := host'.heap, streams := host'.streams, history := host'.history }
  kept : host.heap.KeptIn host'.heap
  streams : host'.streams = guest'.streams

/-- Ends with the same outcome of steps that have done no more than an embedded program can. There
is only one result that they can end with. -/
inductive EndApart {α : Type} (result : α) (guest host : Machine) :
    EStateM.Result Stop Machine α → EStateM.Result Stop Machine α → Prop where
  | ok {guest' host' : Machine} (apart : Apart guest host guest' host') :
      EndApart result guest host (.ok result guest') (.ok result host')
  | error (stop : Stop) {guest' host' : Machine} (apart : Apart guest host guest' host') :
      EndApart result guest host (.error stop guest') (.error stop host')

theorem apart_withHistory {guest host : Machine} (streams : host.streams = guest.streams)
    (history history' : List Event) :
    Apart guest host { guest with history } { host with history := history' } :=
  ⟨rfl, rfl, host.heap.keptIn_refl, streams⟩

theorem houses_fresh (heap : Heap) (streams : Streams) (depth : Nat) :
    (Machine.fresh streams depth).Houses heap [] (.freshOn heap streams depth) where
  scope := Scope.matches_empty
  heap := heap.houses_empty
  functions := rfl
  buffer := rfl
  streams := rfl
  depth := rfl

section

variable {options : Options} {evaluate evaluate' : Expr → Exec Value}
  {execute execute' : Statement → Exec Completion}
  (evaluated : ∀ {outside places} expression,
    Mirrors outside places Value.LiesAt (evaluate expression) (evaluate' expression))
  (executed : ∀ {outside places} statement,
    Mirrors outside places Completion.LiesAt (execute statement) (execute' statement))

include executed in
theorem mirrors_executeAll (block : Block) :
    Mirrors outside places Completion.LiesAt (executeAll execute block)
      (executeAll execute' block) := by
  induction block generalizing places with
  | nil => exact mirrors_pure .normal
  | cons statement statements ih =>
      apply (executed statement).bind
      intro places' completion completion' _ lies
      exact ih.unlessReturned lies

include executed in
/-- A block that runs embedded does the same on a heap of its own and on that of its caller. -/
theorem endApart_run (block : Block) {guest host : Machine} (streams : host.streams = guest.streams)
    (depth : host.depth = guest.depth) :
    EndApart () guest host (runEmbedded execute block guest) (runSharing execute' block host) := by
  have behind {places : List ArrayRef} {inner inner' : Machine}
      (houses : inner.Houses host.heap places inner') :
      Apart guest host (behindEmbedded guest inner) (behindSharing host inner') :=
    ⟨rfl, rfl, houses.heap.kept, houses.streams⟩
  have housed := mirrors_executeAll executed block
    (houses_fresh host.heap guest.streams (guest.depth + 1))
  rw [runEmbedded_apply, runSharing, streams, depth]
  generalize executeAll execute block _ = ended, executeAll execute' block _ = ended' at housed
  cases housed with
  | ok _ houses _ => exact .ok (behind houses)
  | @error _ stop _ _ _ houses =>
      cases stop with
      | error error => exact .error _ (behind houses)
      | halt reason => exact .error _ (behind houses)

include executed in
theorem endApart_embedded (code : String) {guest host : Machine}
    (streams : host.streams = guest.streams) (depth : host.depth = guest.depth) :
    EndApart .nil guest host (embedded options execute [.string code] guest)
      (embeddedSharing options execute' [.string code] host) := by
  rw [embedded_eq, embeddedSharing, unlessDeep_apply, unlessDeep_apply, depth]
  cases depthExceeded options guest.depth with
  | some limit => exact .error _ (apart_withHistory streams _ _)
  | none =>
      simp only [unlessLimited, runText, runTextSharing]
      cases readProgram options.policy code with
      | error error => exact .error _ (apart_withHistory streams guest.history host.history)
      | ok block =>
          have ends := endApart_run executed block streams depth
          dsimp only
          rw [bind_apply, bind_apply]
          generalize runEmbedded execute block guest = ended,
            runSharing execute' block host = ended' at ends
          cases ends with
          | ok apart => exact .ok apart
          | error stop apart => exact .error stop apart

theorem EndApart.housed {guest host : Machine} (houses : guest.Houses outside places host)
    {ended ended' : EStateM.Result Stop Machine Value}
    (ends : EndApart .nil guest host ended ended') :
    Housed outside places Value.LiesAt ended ended' := by
  have behind {guest' host' : Machine} (apart : Apart guest host guest' host') :
      guest'.Houses outside places host' := by
    rw [apart.onGuest, apart.onHost]
    exact { houses with heap := houses.heap.of_keptIn apart.kept, streams := apart.streams }
  cases ends with
  | ok apart => exact .ok List.prefix_rfl (behind apart) .nil
  | error stop apart => exact .error List.prefix_rfl (behind apart)

include executed in
theorem mirrors_embedded {values values' : List Value} (lie : AllLieAt places values values') :
    Mirrors outside places Value.LiesAt (embedded options execute values)
      (embeddedSharing options execute' values') := by
  rcases lie with _ | ⟨lies, _ | ⟨_, _⟩⟩
  · exact mirrors_stop _
  · cases lies with
    | string code =>
        intro guest host houses
        exact (endApart_embedded executed code houses.streams houses.depth).housed houses
    | _ => exact mirrors_stop _
  · cases lies <;> exact mirrors_stop _

include evaluated in
theorem mirrors_evaluateAll (expressions : List Expr) :
    Mirrors outside places AllLieAt (evaluateAll evaluate expressions)
      (evaluateAll evaluate' expressions) := by
  induction expressions generalizing places with
  | nil => exact mirrors_pure .nil
  | cons expression expressions ih =>
      apply (evaluated expression).bind
      intro places' value value' _ lies
      apply ih.bind
      intro places'' values values' grown lie
      exact mirrors_pure (.cons (lies.mono grown) lie)

theorem mirrors_defineAll (names : List String) {values values' : List Value}
    (lie : AllLieAt places values values') :
    Mirrors outside places Same (defineAll names values) (defineAll names values') := by
  induction names generalizing places values values' with
  | nil => exact mirrors_pure rfl
  | cons name names ih =>
      cases lie with
      | nil => exact mirrors_pure rfl
      | cons lies lie =>
          apply (mirrors_define name lies).bind
          intro _ _ _ grown _
          exact ih (AllLieAt.mono grown lie)

include executed in
theorem mirrors_callBody (function : Function) {values values' : List Value}
    (lie : AllLieAt places values values') :
    Mirrors outside places Value.LiesAt (callBody execute function values)
      (callBody execute' function values') := by
  have body : Mirrors outside places Completion.LiesAt
      (defineAll function.parameters values >>= fun _ => executeAll execute function.body)
      (defineAll function.parameters values' >>= fun _ => executeAll execute' function.body) :=
    (mirrors_defineAll function.parameters lie).bind fun _ _ _ _ _ =>
      mirrors_executeAll executed function.body
  apply body.inCall.bind
  intro places' completion completion' _ lies
  cases lies with
  | normal => exact mirrors_plain trivial
  | returned lies => exact mirrors_pure lies

include executed in
theorem mirrors_callFunction (name : String) {values values' : List Value}
    (lie : AllLieAt places values values') :
    Mirrors outside places Value.LiesAt (callFunction options execute name values)
      (callFunction options execute' name values') := by
  rw [callFunction_eq, callFunction_eq]
  apply (mirrors_functionOf name).bind
  rintro places' (_ | function) _ grown rfl
  · exact mirrors_stop _
  · simp only [callFound, lie.length_eq]
    split
    · exact mirrors_stop _
    · exact (mirrors_callBody executed function (lie.mono grown)).unlessDeep _ _

include evaluated executed in
theorem mirrors_call (name : String) (arguments : List Expr) :
    Mirrors outside places Value.LiesAt
      (call options evaluate execute (.named name) arguments)
      (call options evaluate' execute' (.named name) arguments) := by
  apply (mirrors_evaluateAll evaluated arguments).bind
  intro places' values values' _ lie
  dsimp only
  split
  · exact mirrors_builtin _ _ lie
  · exact mirrors_callFunction executed name lie

include evaluated executed in
theorem mirrors_callEmbedded (arguments : List Expr) :
    Mirrors outside places Value.LiesAt (call options evaluate execute .embedded arguments)
      (evaluateAll evaluate' arguments >>= embeddedSharing options execute') := by
  apply (mirrors_evaluateAll evaluated arguments).bind
  intro places' values values' _ lie
  exact mirrors_embedded executed lie

include evaluated executed in
theorem mirrors_evaluateWith (expression : Expr) :
    Mirrors outside places Value.LiesAt (evaluateWith options evaluate execute expression)
      (evaluateSharingWith options evaluate' execute' expression) := by
  cases expression with
  | string text => exact mirrors_plain trivial
  | real literal => exact mirrors_plain trivial
  | sentinel constant =>
      cases constant with
      | empty => exact mirrors_newArray .nil
      | _ => exact mirrors_plain trivial
  | bits digits => exact mirrors_ofExcept Value.within_of_ofBits
  | array elements =>
      apply (mirrors_evaluateAll evaluated elements).bind
      intro _ values values' _ lie
      exact mirrors_newArray lie
  | «variable» name => exact mirrors_lookup name
  | negate operand =>
      apply (evaluated operand).bind
      intro _ value value' _ lies
      rw [lies.negate_eq]
      exact mirrors_ofExcept Value.within_of_negate
  | binary operator left right =>
      apply (evaluated left).bind
      intro _ value value' _ lies
      apply (evaluated right).bind
      intro _ other other' grown liesOther
      rw [(lies.mono grown).apply_eq operator liesOther]
      exact mirrors_ofExcept Value.within_of_apply
  | suffix operator operand trailing =>
      apply (evaluated operand).bind
      intro _ value value' _ lies
      rw [lies.applySuffix_eq]
      exact mirrors_ofExcept Value.within_of_applySuffix
  | call callee arguments =>
      cases callee with
      | named name => exact mirrors_call evaluated executed name arguments
      | embedded => exact mirrors_callEmbedded evaluated executed arguments
  | raise message => exact mirrors_stop _

include evaluated executed in
theorem mirrors_executeFallback (fallback : Fallback) :
    Mirrors outside places Completion.LiesAt (executeFallback evaluate execute fallback)
      (executeFallback evaluate' execute' fallback) := by
  fun_induction executeFallback evaluate execute fallback generalizing places with
  | case1 => exact mirrors_pure .normal
  | case2 body => exact mirrors_executeAll executed body
  | case3 condition body fallback ih =>
      apply (evaluated condition).bind
      intro _ value value' _ lies
      apply (mirrors_isTruthy lies).bind
      rintro _ (_ | _) _ _ rfl
      · exact ih
      · exact mirrors_executeAll executed body

theorem mirrors_whileLoop {limit : Option Nat} {condition condition' : Exec Bool}
    {body body' : Exec Completion}
    (conditions : ∀ places, Mirrors outside places Same condition condition')
    (bodies : ∀ places, Mirrors outside places Completion.LiesAt body body')
    (fuel started : Nat) :
    Mirrors outside places Completion.LiesAt (whileLoop limit condition body fuel started)
      (whileLoop limit condition' body' fuel started) := by
  induction fuel generalizing places started with
  | zero => exact mirrors_stop _
  | succ fuel ih =>
      rw [whileLoop_succ, whileLoop_succ]
      apply (conditions places).bind
      rintro places' (_ | _) _ _ rfl
      · exact mirrors_pure .normal
      · apply Mirrors.unlessLimited
        apply (bodies places').bind
        intro _ completion completion' _ lies
        exact (ih (started + 1)).unlessReturned lies

theorem mirrors_forEach {body body' : Exec Completion}
    (bodies : ∀ places, Mirrors outside places Completion.LiesAt body body') (name : String)
    {items items' : List Value} (lie : AllLieAt places items items') :
    Mirrors outside places Completion.LiesAt (forEach name body items)
      (forEach name body' items') := by
  induction items generalizing places items' with
  | nil =>
      cases lie
      exact mirrors_pure .normal
  | cons item items ih =>
      cases lie with
      | cons lies lie =>
          apply (mirrors_define name lies).bind
          intro places' _ _ grown _
          apply (bodies places').bind
          intro _ completion completion' more liesCompletion
          exact (ih (AllLieAt.mono (grown.trans more) lie)).unlessReturned liesCompletion

include evaluated executed in
theorem mirrors_executeWith (fuel : Nat) (statement : Statement) :
    Mirrors outside places Completion.LiesAt (executeWith options evaluate execute fuel statement)
      (executeSharingWith options evaluate' execute' fuel statement) := by
  have ended {α : Type} {places : List ArrayRef} {held : List ArrayRef → α → α → Prop}
      {first second : Exec α} (mirrors : Mirrors outside places held first second) :
      Mirrors outside places Completion.LiesAt (first >>= fun _ => pure .normal)
        (second >>= fun _ => pure .normal) :=
    mirrors.bind fun _ _ _ _ _ => mirrors_pure .normal
  have called {first second : Exec Value}
      (mirrors : Mirrors outside places Value.LiesAt first second) :
      Mirrors outside places Completion.LiesAt (discard first >>= fun _ => pure .normal)
        (discard second >>= fun _ => pure .normal) := by
    rw [discard_eq, discard_eq]
    exact ended (mirrors.bind fun _ _ _ _ _ => mirrors_pure (Eq.refl ()))
  cases statement with
  | assign name value =>
      apply (evaluated value).bind
      intro _ result result' _ lies
      exact ended (mirrors_define name lies)
  | input name =>
      apply mirrors_readLine.bind
      rintro _ line _ _ rfl
      exact ended (mirrors_assign name (.string line))
  | output value =>
      apply (evaluated value).bind
      intro _ result result' _ lies
      exact ended (mirrors_output lies)
  | outputMany direction count =>
      apply (evaluated count).bind
      intro _ result result' _ lies
      exact ended (mirrors_outputMany direction lies)
  | call callee arguments =>
      cases callee with
      | named name => exact called (mirrors_call evaluated executed name arguments)
      | embedded => exact called (mirrors_callEmbedded evaluated executed arguments)
  | define name parameters body => exact ended (mirrors_defineFunction name _)
  | giveBack value =>
      cases value with
      | none => exact mirrors_pure (.returned .nil)
      | some value =>
          apply (evaluated value).bind
          intro _ result result' _ lies
          exact mirrors_pure (.returned lies)
  | conditional condition body fallback =>
      exact mirrors_executeFallback evaluated executed (.elseIf condition body fallback)
  | whileLoop condition body =>
      apply mirrors_whileLoop
      · intro places
        apply (evaluated condition).bind
        intro _ value value' _ lies
        exact mirrors_isTruthy lies
      · exact fun places => mirrors_executeAll executed body
  | forLoop name range body =>
      apply (evaluated range).bind
      intro _ value value' _ lies
      cases lies with
      | array isPlace =>
          apply (mirrors_itemsOf isPlace).bind
          intro _ items items' _ lie
          exact (mirrors_forEach (fun _ => mirrors_executeAll executed body) name lie).inFrame
      | _ => exact mirrors_stop _
  | attempt body handler =>
      exact (mirrors_executeAll executed body).catching fun _ _ =>
        mirrors_executeAll executed handler
  | raise message => exact mirrors_stop _

end

/-- Evaluation on a heap that holds nothing else is mirrored by evaluation on a shared one. -/
theorem mirrors_run (options : Options) (fuel : Nat) :
    (∀ {outside places} expression, Mirrors outside places Value.LiesAt
      (evaluate options fuel expression) (evaluateSharing options fuel expression)) ∧
    ∀ {outside places} statement, Mirrors outside places Completion.LiesAt
      (execute options fuel statement) (executeSharing options fuel statement) := by
  induction fuel with
  | zero => exact ⟨fun _ => mirrors_stop _, fun _ => mirrors_stop _⟩
  | succ fuel ih =>
      rcases ih with ⟨evaluated, executed⟩
      exact ⟨fun expression => mirrors_evaluateWith evaluated executed expression,
        fun statement => mirrors_executeWith evaluated executed fuel statement⟩

end Exec

/-- Executes a whole program, where the programs embedded in it share its heap. -/
def interpretSharing (options : Options) (fuel : Nat) (block : Block) : Exec Unit :=
  discard (Exec.executeAll (executeSharing options fuel) block)

/-- It cannot be seen from a program whether the programs embedded in it have heaps of their own: it
ends in the same way and has done the same with its streams. -/
theorem interpretSharing_ends_like_interpret (options : Options) (fuel : Nat) (block : Block)
    (streams : Streams) :
    let ended := interpret options fuel block (.fresh streams 0)
    let shared := interpretSharing options fuel block (.fresh streams 0)
    Exec.outcomeOf shared = Exec.outcomeOf ended ∧
      (Exec.machineOf shared).streams = (Exec.machineOf ended).streams := by
  intro ended shared
  have executed : Exec.Mirrors .empty [] Completion.LiesAt _ _ :=
    Exec.mirrors_executeAll (Exec.mirrors_run options fuel).2 block
  have interpreted : Exec.Mirrors .empty [] Exec.Same (interpret options fuel block)
      (interpretSharing options fuel block) := by
    rw [interpret, interpretSharing, Exec.discard_eq, Exec.discard_eq]
    exact executed.bind fun _ _ _ _ _ => Exec.mirrors_pure rfl
  have housed := interpreted (Exec.houses_fresh .empty streams 0)
  change Exec.Housed .empty [] Exec.Same ended shared at housed
  generalize ended = ended, shared = shared at housed
  cases housed with
  | ok _ houses same => exact ⟨congrArg Except.ok same.symm, houses.streams⟩
  | error _ houses => exact ⟨rfl, houses.streams⟩

/-- All that a machine has for itself is as it was. Arrays that nothing on it refers to may have
come to its heap. -/
structure Machine.Untouched (before later : Machine) : Prop where
  scope : later.scope = before.scope
  functions : later.functions = before.functions
  buffer : later.buffer = before.buffer
  depth : later.depth = before.depth
  arrays : before.heap.KeptIn later.heap

theorem Exec.Apart.untouched {guest host guest' host' : Machine}
    (apart : Exec.Apart guest host guest' host') :
    guest.Untouched guest' ∧ host.Untouched host' := by
  rw [apart.onGuest, apart.onHost]
  exact ⟨⟨rfl, rfl, rfl, rfl, guest.heap.keptIn_refl⟩, ⟨rfl, rfl, rfl, rfl, apart.kept⟩⟩

/-- Whatever an embedded program is and however it ends, it leaves the bindings, the functions, the
buffer, the depth and the arrays of its caller as they were. This does not rest on its having a heap
of its own: on the heap of its caller it ends in the same way, has done the same with the streams,
and has left the same alone. -/
theorem embedded_programs_are_isolated (options : Options) (fuel : Nat) (arguments : List Value)
    (machine : Machine) :
    let ended := Exec.embedded options (execute options fuel) arguments machine
    let shared := Exec.embeddedSharing options (executeSharing options fuel) arguments machine
    machine.Untouched (Exec.machineOf ended) ∧ machine.Untouched (Exec.machineOf shared) ∧
      Exec.outcomeOf shared = Exec.outcomeOf ended ∧
      (Exec.machineOf shared).streams = (Exec.machineOf ended).streams := by
  intro ended shared
  have ends : Exec.EndApart .nil machine machine ended shared := by
    have refused : Exec.EndApart Value.nil machine machine
        (Exec.fail .embeddedArgument machine) (Exec.fail .embeddedArgument machine) :=
      .error _ (Exec.apart_withHistory rfl machine.history machine.history)
    rcases arguments with _ | ⟨value, _ | ⟨_, _⟩⟩
    · exact refused
    · cases value with
      | string code => exact Exec.endApart_embedded (Exec.mirrors_run options fuel).2 code rfl rfl
      | _ => exact refused
    · cases value <;> exact refused
  generalize ended = ended, shared = shared at ends
  cases ends with
  | ok apart => exact ⟨apart.untouched.1, apart.untouched.2, rfl, apart.streams⟩
  | error stop apart => exact ⟨apart.untouched.1, apart.untouched.2, rfl, apart.streams⟩

end Mel

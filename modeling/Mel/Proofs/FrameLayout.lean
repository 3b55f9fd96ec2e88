import Mel.Proofs.Fuel
import Mel.Proofs.Lockstep.Runs
import Mel.Proofs.Scopes

/-!
# Frame layout

Scoping is dynamic: a name means what the highest frame binds it to that has it, whoever opened
that frame. So it does not matter how bindings are spread over frames. Two machines on which every
name means the same run alike, and every name means the same on them again.

Two such machines are not compared with each other but each with a third one, whose bindings lie in
a single frame. While they run, the frames that are opened lie on top of this frame and are the same
ones on both machines; below them only what names mean is the same. For two arbitrary layouts
there is no such border between the frames that correspond and those that do not.
-/

namespace Mel

namespace Scope

variable {α : Type}

/-- The second frames are the first ones, but for the lowest of these, which are flattened into
one. -/
inductive FlattensTo : List (Table α) → List (Table α) → Prop where
  | bottom {frames : List (Table α)} {flat : Table α}
      (same : ∀ name, find? name frames = flat.get? name) : FlattensTo frames [flat]
  | above (top : Table α) {frames frames' : List (Table α)} (below : FlattensTo frames frames') :
      FlattensTo (top :: frames) (top :: frames')

/-- The scope with all that is visible in a single frame. -/
def flatten (scope : Scope α) : Scope α :=
  ⟨⟨scope.frames.flatMap Table.entries⟩, []⟩

theorem get?_flatMap (name : String) (frames : List (Table α)) :
    (Table.mk (frames.flatMap Table.entries)).get? name = find? name frames := by
  induction frames with
  | nil => rfl
  | cons frame frames ih =>
      rw [find?_cons, ← ih, Table.get?, List.flatMap_cons, Table.find?_append]
      rfl

theorem flattensTo_flatten {scope other : Scope α}
    (same : ∀ name, scope.get? name = other.get? name) :
    FlattensTo scope.frames other.flatten.frames := by
  refine .bottom fun name => ?_
  rw [← get?_eq_find?, same]
  exact (get?_flatMap name other.frames).symm

theorem FlattensTo.find?_eq {frames frames' : List (Table α)} (flattens : FlattensTo frames frames')
    (name : String) : find? name frames = find? name frames' := by
  induction flattens with
  | bottom same => rw [same, find?_singleton]
  | above top _ ih => rw [find?_cons, find?_cons, ih]

theorem FlattensTo.insert {current current' : Table α} {outer outer' : List (Table α)}
    (flattens : FlattensTo (current :: outer) (current' :: outer')) (name : String) (value : α) :
    FlattensTo (current.insert name value :: outer) (current'.insert name value :: outer') := by
  cases flattens with
  | bottom same =>
      apply FlattensTo.bottom
      intro wanted
      have sameBefore := same wanted
      rw [find?_cons] at sameBefore
      rw [find?_cons, Table.get?_insert, Table.get?_insert, ← sameBefore]
      split <;> rfl
  | above _ below => exact .above _ below

theorem FlattensTo.assignIn {frames frames' : List (Table α)}
    (flattens : FlattensTo frames frames') (name : String) (value : α) :
    Option.Rel FlattensTo (assignIn name value frames) (assignIn name value frames') := by
  induction flattens with
  | @bottom frames flat same =>
      have isBound := isSome_assignIn name value frames
      rw [same] at isBound
      cases assigned : Scope.assignIn name value frames with
      | none =>
          rw [assigned] at isBound
          have unknown : ¬flat.contains name = true := by
            rw [Table.contains, ← isBound]
            exact Bool.false_ne_true
          rw [Scope.assignIn, if_neg unknown]
          exact .none
      | some later =>
          rw [assigned] at isBound
          have known : flat.contains name = true := by
            rw [Table.contains, ← isBound, Option.isSome_some]
          rw [Scope.assignIn, if_pos known]
          refine .some (.bottom fun wanted => ?_)
          rw [find?_assignIn assigned, Table.get?_insert, same]
  | @above top frames frames' below ih =>
      simp only [Scope.assignIn]
      split
      · exact .some (.above _ below)
      · generalize Scope.assignIn name value frames = assigned at ih
        generalize Scope.assignIn name value frames' = assigned' at ih
        cases ih with
        | none => exact .none
        | some below => exact .some (.above top below)

/-- Closing a frame that was opened on both sides leaves what lies below. -/
theorem FlattensTo.pop {scope scope' : Scope α} (flattens : FlattensTo scope.frames scope'.frames)
    (isOpen : scope.outer ≠ []) (isOpen' : scope'.outer ≠ []) :
    FlattensTo scope.pop.frames scope'.pop.frames := by
  rw [frames_pop isOpen, frames_pop isOpen']
  rcases scope with ⟨current, outer⟩
  rcases scope' with ⟨current', outer'⟩
  simp only [frames] at *
  cases flattens with
  | bottom _ => exact (isOpen' rfl).elim
  | above _ below => exact below

theorem outer_ne_nil {scope later : Scope α}
    (names : later.outer.map Table.names = scope.frames.map Table.names) : later.outer ≠ [] := by
  intro none
  rw [none] at names
  cases names

end Scope

/-- Scopes correspond if the second one is the first one with its lowest frames flattened. -/
def ScopeMatch.flat : ScopeMatch where
  relation left right := Scope.FlattensTo left.frames right.frames
  empty := .bottom fun _ => rfl
  get? flattens name := flattens.find?_eq name
  define flattens name value := flattens.insert name value
  assign := by
    intro left right flattens name value
    have assigned := flattens.assignIn name value
    rw [← Scope.frames_assign?, ← Scope.frames_assign?] at assigned
    generalize left.assign? name value = left at assigned
    generalize right.assign? name value = right at assigned
    cases left <;> cases right <;> cases assigned
    · exact .none
    · rename_i flattens
      exact .some flattens
  push flattens := .above .empty flattens
  pop _ flattens names names' := flattens.pop (Scope.outer_ne_nil names) (Scope.outer_ne_nil names')

/-- A run on a flat scope follows the run on the scope itself. -/
def Lockstep.flat {leader follower : Options} (same : follower = leader) : Lockstep :=
  { Lockstep.same (congrArg Options.policy same) (.never .frames) (fun grown => grown)
      (fun _ => by rw [same]; exact .same (fun _ => rfl) _)
      (fun _ => by rw [same]; exact .same (fun _ => rfl) _) with
    scopes := .flat }

namespace Exec

variable {α β : Type}

/-- The machine with more events before those of its history. -/
def behindPast (past : List Event) (machine : Machine) : Machine :=
  { machine with history := machine.history ++ past }

/-- The step does the same whatever has happened before, and only adds to it. -/
def IgnoresPast (step : Exec α) : Prop :=
  ∀ past machine, step (behindPast past machine) = mapMachine (behindPast past) (step machine)

theorem IgnoresPast.bind {step : Exec α} {next : α → Exec β} (ignores : IgnoresPast step)
    (ignoresNext : ∀ result, IgnoresPast (next result)) : IgnoresPast (step >>= next) := by
  intro past machine
  rw [bind_apply, bind_apply, ignores past machine]
  cases step machine with
  | ok result later => exact ignoresNext result past later
  | error stop later => rfl

theorem ignoresPast_readLine : IgnoresPast readLine := by
  intro past machine
  rw [readLine_apply, readLine_apply]
  have same : behindRead (behindPast past machine) = behindPast past (behindRead machine) := by
    simp only [behindRead, behindPast, List.append_assoc]
  have sameStreams : (behindPast past machine).streams = machine.streams := rfl
  rw [same, sameStreams]
  cases textRead machine.streams.delivery <;> rfl

theorem ignoresPast_write (text : String) : IgnoresPast (write text) := by
  intro past machine
  rw [write_apply, write_apply]
  have same : (behindPast past machine).streams = machine.streams := rfl
  rw [same]
  cases machine.streams.writeError? text.toUTF8.data.size <;> rfl

theorem ignoresPast_takeOut (direction : Direction) (count : Nat) :
    IgnoresPast (takeOut direction count) := by
  intro past machine
  rw [takeOut_apply, takeOut_apply]
  have same : (behindPast past machine).buffer = machine.buffer := rfl
  rw [same]
  split
  · rfl
  · exact ignoresPast_write _ past (behindTake direction count machine)

theorem ignoresPast_elementary {strength : Strength} {step : Exec α}
    (isElementary : Elementary strength step) : IgnoresPast step := by
  intro past machine
  cases isElementary with
  | lookup name =>
      rw [lookup_apply, lookup_apply]
      have same : (behindPast past machine).scope = machine.scope := rfl
      rw [same]
      cases machine.scope.get? name <;> rfl
  | assign name value =>
      rw [assign_apply, assign_apply]
      have same : (behindPast past machine).scope = machine.scope := rfl
      rw [same]
      cases machine.scope.assign? name value <;> rfl
  | textOf value =>
      rw [textOf_apply, textOf_apply]
      have same : (behindPast past machine).heap = machine.heap := rfl
      rw [same]
      cases machine.heap.content? value <;> rfl
  | write text => exact ignoresPast_write text past machine
  | readLine => exact ignoresPast_readLine past machine
  | takeOut direction count => exact ignoresPast_takeOut direction count past machine
  | _ => rfl

theorem IgnoresPast.between {step : Exec α} (ignores : IgnoresPast step)
    {enter leave : Machine → Machine}
    (enters : ∀ past machine, enter (behindPast past machine) = behindPast past (enter machine))
    (leaves : ∀ past machine, leave (behindPast past machine) = behindPast past (leave machine)) :
    IgnoresPast (between enter leave step) := by
  intro past machine
  rw [Exec.between, Exec.between, enters, ignores]
  cases step (enter machine) with
  | ok result later => exact congrArg (EStateM.Result.ok result) (leaves past later)
  | error stop later => exact congrArg (EStateM.Result.error stop) (leaves past later)

theorem IgnoresPast.catching {step handler : Exec α} (ignores : IgnoresPast step)
    (ignoresHandler : IgnoresPast handler) : IgnoresPast (catching step handler) := by
  intro past machine
  rw [catching_apply, catching_apply, ignores]
  rcases step machine with ⟨result, later⟩ | ⟨error | reason, later⟩
  · rfl
  · exact ignoresHandler past later
  · rfl

theorem IgnoresPast.unlessLimited {step : Exec α} (ignores : IgnoresPast step)
    (error : Nat → RuntimeError) (limit : Option Nat) :
    IgnoresPast (unlessLimited error limit step) := by
  cases limit with
  | none => exact ignores
  | some limit => exact fun _ _ => rfl

theorem IgnoresPast.unlessDeep {step : Exec α} (ignores : IgnoresPast step) (options : Options)
    (error : Nat → RuntimeError) : IgnoresPast (unlessDeep options error step) :=
  fun past machine =>
    ignores.unlessLimited error (depthExceeded options machine.depth) past machine

/-- An embedded program has a history of its own. -/
theorem ignoresPast_runEmbedded (execute : Statement → Exec Completion) (block : Block) :
    IgnoresPast (runEmbedded execute block) := by
  intro past machine
  rw [runEmbedded_apply, runEmbedded_apply]
  have same : Machine.fresh (behindPast past machine).streams
      ((behindPast past machine).depth + 1) = .fresh machine.streams (machine.depth + 1) := rfl
  rw [same]
  rcases executeAll execute block (.fresh machine.streams (machine.depth + 1)) with
    ⟨completion, inner⟩ | ⟨error | reason, inner⟩ <;> rfl

theorem Parallel.ignoresPast {left right : Options} {early : Prop} {strength : Strength}
    {first second : Exec α} (parallel : Parallel left right early strength first second) :
    IgnoresPast first := by
  induction parallel with
  | elementary isElementary => exact ignoresPast_elementary isElementary
  | weaken _ ignores => exact ignores
  | bind _ _ ignores ignoresNext => exact ignores.bind ignoresNext
  | inFrame _ ignores => exact ignores.between (fun _ _ => rfl) fun _ _ => rfl
  | inCall _ ignores => exact ignores.between (fun _ _ => rfl) fun _ _ => rfl
  | catching _ _ ignores ignoresHandler => exact ignores.catching ignoresHandler
  | unlessLooping _ _ ignores => exact ignores.unlessLimited _ _
  | unlessDeep _ ignores => exact ignores.unlessDeep _ _
  | unlessDeepEmbedded _ ignores => exact ignores.unlessDeep _ _
  | runEmbedded _ _ => exact ignoresPast_runEmbedded _ _
  | exhausted => exact fun _ _ => rfl
  | early _ _ => exact fun _ _ => rfl

end Exec

/-- Machines that agree in all but the layout of their frames, with every name meaning the same. -/
structure Machine.ResolvesAlike (left right : Machine) : Prop where
  resolves : ∀ name, left.scope.get? name = right.scope.get? name
  functions : left.functions = right.functions
  buffer : left.buffer = right.buffer
  heap : left.heap = right.heap
  streams : left.streams = right.streams
  depth : left.depth = right.depth

/-- The machine before anything has happened on it, with all that is visible in a single frame. -/
def Machine.flatten (machine : Machine) : Machine :=
  { machine with scope := machine.scope.flatten, history := [] }

namespace Exec

variable {α : Type}

theorem outcomeOf_mapMachine (change : Machine → Machine) (ended : EStateM.Result Stop Machine α) :
    outcomeOf (mapMachine change ended) = outcomeOf ended := by
  cases ended <;> rfl

theorem machineOf_mapMachine (change : Machine → Machine) (ended : EStateM.Result Stop Machine α) :
    machineOf (mapMachine change ended) = change (machineOf ended) := by
  cases ended <;> rfl

theorem hasEnded_iff_outcomeOf (ended : EStateM.Result Stop Machine α) :
    HasEnded ended ↔ outcomeOf ended ≠ .error (.halt .outOfFuel) := by
  cases ended with
  | ok result later => simp [HasEnded, outcomeOf]
  | error stop later => simp [HasEnded, outcomeOf]

theorem ignoresPast_executeAll (options : Options) (fuel : Nat) (block : Block) :
    IgnoresPast (executeAll (execute options fuel) block) := by
  have fuels : FuelFor False fuel fuel := .inl rfl
  have executed := (parallel_run (Eq.refl options.policy) fuels).2
  exact (parallel_executeAll executed block).ignoresPast

theorem resolvesAlike_of_alike {options : Options} {left right : Machine}
    (alike : (Lockstep.flat (Eq.refl options)).Alike left right) (past : List Event) :
    (behindPast past left).ResolvesAlike right :=
  ⟨Scope.FlattensTo.find?_eq alike.scope, alike.functions, alike.buffer, alike.heap,
    alike.streams, alike.depth⟩

/-- A block runs on a machine as it does with all that is visible in a single frame. -/
theorem executeAll_flatten (options : Options) (fuel : Nat) (block : Block) {machine flat : Machine}
    (alike : machine.ResolvesAlike flat) :
    let ended := executeAll (execute options fuel) block machine
    let ended' := executeAll (execute options fuel) block flat.flatten
    outcomeOf ended = outcomeOf ended' ∧ (machineOf ended).ResolvesAlike (machineOf ended') := by
  intro ended ended'
  let start : Machine := { machine with history := [] }
  have begin : (Lockstep.flat (Eq.refl options)).Alike start flat.flatten :=
    ⟨Scope.flattensTo_flatten alike.resolves, alike.streams, alike.depth, alike.functions,
      alike.buffer, alike.heap, rfl⟩
  -- The past of the machine is put aside before the run and added again behind it.
  have behind : ended = mapMachine (behindPast machine.history)
      (executeAll (execute options fuel) block start) :=
    ignoresPast_executeAll options fuel block machine.history start
  have matched : (Lockstep.flat (Eq.refl options)).Matched start
      (executeAll (execute options fuel) block start) ended' :=
    (Lockstep.flat (Eq.refl options)).follows_executeAll fuel block begin
  rw [behind, outcomeOf_mapMachine, machineOf_mapMachine]
  generalize executeAll (execute options fuel) block start = run at matched
  generalize ended' = run' at matched
  cases matched with
  | ok result alike => exact ⟨rfl, resolvesAlike_of_alike alike _⟩
  | error errors alike =>
      exact ⟨congrArg (Except.error ∘ Stop.error) errors, resolvesAlike_of_alike alike _⟩
  | halt reason alike => exact ⟨rfl, resolvesAlike_of_alike alike _⟩
  | parted parted => exact parted.elim

/-- The layout of frames is invisible. If every name means the same on two machines that agree in
all else, a block that ends on one of them ends on the other one with the same outcome, and leaves
machines behind that agree in all else, on which every name means the same again. -/
theorem frame_layout_is_invisible (options : Options) (block : Block) {left right : Machine}
    (alike : left.ResolvesAlike right) {ended : EStateM.Result Stop Machine Completion}
    (ends : Ends (fun fuel => executeAll (execute options fuel) block) left ended) :
    ∃ ended', Ends (fun fuel => executeAll (execute options fuel) block) right ended' ∧
      outcomeOf ended' = outcomeOf ended ∧ (machineOf ended).ResolvesAlike (machineOf ended') := by
  rcases ends with ⟨hasEnded, fuel, rfl⟩
  have self : right.ResolvesAlike right := ⟨fun _ => rfl, rfl, rfl, rfl, rfl, rfl⟩
  obtain ⟨sameLeft, resolvedLeft⟩ := executeAll_flatten options fuel block alike
  obtain ⟨sameRight, resolvedRight⟩ := executeAll_flatten options fuel block self
  have same := sameRight.trans sameLeft.symm
  refine ⟨_, ⟨?_, fuel, rfl⟩, same, ?_⟩
  · rw [hasEnded_iff_outcomeOf, same, ← hasEnded_iff_outcomeOf]
    exact hasEnded
  · exact {
      resolves := fun name => (resolvedLeft.resolves name).trans (resolvedRight.resolves name).symm
      functions := resolvedLeft.functions.trans resolvedRight.functions.symm
      buffer := resolvedLeft.buffer.trans resolvedRight.buffer.symm
      heap := resolvedLeft.heap.trans resolvedRight.heap.symm
      streams := resolvedLeft.streams.trans resolvedRight.streams.symm
      depth := resolvedLeft.depth.trans resolvedRight.depth.symm }

/-- A function that rebinds a variable of its caller, and a loop that shadows another one. -/
def readerAndLoop : Block :=
  [.define "f" ["y"] [.input "x", .assign "x" (.variable "y"), .giveBack none],
    .call (.named "f") [.variable "x"],
    .forLoop "i" (.array [.variable "x"]) [.assign "y" (.variable "i")],
    .call (.named "list") [.variable "x"], .call (.named "list") [.variable "y"]]

theorem frame_layout_is_invisible_readerAndLoop :
    let machine := Machine.fresh (.ofInput "line".toUTF8.toList none) 0
    let right : Machine := { machine with
      scope := ⟨⟨[]⟩, [⟨[("y", .string "b"), ("x", .string "a")]⟩, ⟨[("x", .nil)]⟩]⟩ }
    ∃ ended, Ends (fun fuel => executeAll (execute {} fuel) readerAndLoop) right ended ∧
      (outcomeOf ended).toBool = true ∧
      (machineOf ended).streams.written = "lineb".toUTF8.data := by
  intro machine right
  let left : Machine := { machine with
    scope := ⟨⟨[("x", .string "a")]⟩, [⟨[("y", .string "b")]⟩]⟩ }
  have alike : left.ResolvesAlike right := by
    refine ⟨fun name => ?_, rfl, rfl, rfl, rfl, rfl⟩
    simp only [left, right, Scope.get?_eq_find?, Scope.frames, Scope.find?_cons, Table.get?,
      Table.find?]
    by_cases isX : "x" = name
    · subst name
      rfl
    · by_cases isY : "y" = name
      · subst name
        rfl
      · simp only [isX, isY, if_false, Option.none_or]
  let ended := executeAll (execute {} 6) readerAndLoop left
  have succeeds : (outcomeOf ended).toBool = true := by decide +kernel
  have ends : Ends (fun fuel => executeAll (execute {} fuel) readerAndLoop) left ended := by
    refine ⟨(hasEnded_iff_outcomeOf ended).2 fun exhausted => ?_, 6, rfl⟩
    rw [exhausted] at succeeds
    cases succeeds
  obtain ⟨ended', endsToo, sameOutcome, resolved⟩ :=
    frame_layout_is_invisible {} readerAndLoop alike ends
  refine ⟨ended', endsToo, sameOutcome ▸ succeeds, ?_⟩
  rw [← resolved.streams]
  decide +kernel

end Exec

end Mel

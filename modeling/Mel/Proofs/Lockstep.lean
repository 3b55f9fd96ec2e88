import Mel.Proofs.ScopeDiscipline

/-!
# Runs in lockstep

Two runs of the same program under two sets of options go side by side for as long
as they meet the same machine, up to what the options make different. A lockstep
says what "the same" is to mean: which scopes, streams and depths correspond, and
which errors.

The first run leads. It can part from the follower, for instance at a limit that
only the leader has. From there on nothing but the machines that the two runs leave
behind is compared.

The scope discipline is needed for this: behind a call, the scopes and the depths of
both machines are those from before the call.
-/

namespace Mel

/-- How two runs compare where both check a limit. -/
inductive LimitCheck (errors : RuntimeError → RuntimeError → Prop) (parts : Prop)
    (error : Nat → RuntimeError) : Option Nat → Option Nat → Prop where
  | pass : LimitCheck errors parts error none none
  | fail {limit limit' : Nat} (alike : errors (error limit) (error limit')) :
      LimitCheck errors parts error (some limit) (some limit')
  | part {limit : Nat} {limit' : Option Nat} (parted : parts) :
      LimitCheck errors parts error (some limit) limit'

theorem LimitCheck.same {errors : RuntimeError → RuntimeError → Prop} {parts : Prop}
    {error : Nat → RuntimeError} (alike : ∀ limit, errors (error limit) (error limit))
    (limit : Option Nat) : LimitCheck errors parts error limit limit := by
  cases limit with
  | none => exact .pass
  | some limit => exact .fail (alike limit)

/-- The machine of a run that has just met a limit. -/
def Machine.atLimit (machine : Machine) : Machine :=
  { machine with history := .limitReached :: machine.history }

/-- Which scopes correspond, and that they go on to whatever is done to both of them. -/
structure ScopeMatch where
  relation : Scope Value → Scope Value → Prop
  empty : relation .empty .empty
  get? : ∀ {left right}, relation left right → ∀ name, left.get? name = right.get? name
  define : ∀ {left right}, relation left right →
    ∀ name value, relation (left.define name value) (right.define name value)
  assign : ∀ {left right}, relation left right →
    ∀ name value, Option.Rel relation (left.assign? name value) (right.assign? name value)
  push : ∀ {left right}, relation left right → relation left.push right.push
  pop : ∀ {left right left' right'}, relation left right → relation left' right' →
    left'.outer.map Table.names = left.frames.map Table.names →
    right'.outer.map Table.names = right.frames.map Table.names →
    relation left'.pop right'.pop

/-- Scopes that are the same throughout. -/
def ScopeMatch.same : ScopeMatch where
  relation := Eq
  empty := rfl
  get? := by
    intro left right equal name
    rw [equal]
  define := by
    intro left right equal name value
    rw [equal]
  assign := by
    intro left right equal name value
    rw [equal]
    cases right.assign? name value with
    | none => exact .none
    | some scope => exact .some rfl
  push := by
    intro left right equal
    rw [equal]
  pop := by
    intro left right left' right' equal equal' leftOuter rightOuter
    rw [equal']

/-- The same streams give the same line. -/
theorem Streams.read_same {left right : Streams} (equal : left = right) :
    left.delivery = right.delivery ∧ left.read = right.read := by
  rw [equal]
  exact ⟨rfl, rfl⟩

/-- When the leader has parted from the follower: between a machine of the leader and the machines
that the two runs have come to. Once they have parted, they do not meet again. -/
structure Parting (law : StepLaw) where
  parted : Machine → Machine → Machine → Prop
  before : ∀ {start middle left right}, law.statement start middle →
    parted middle left right → parted start left right
  behind : ∀ {start left right left' right'}, parted start left right →
    law.statement left left' → law.statement right right' → parted start left' right'
  frame : ∀ {start left right}, parted (Exec.openFrame start) left right →
    parted start (Exec.closeFrame left) (Exec.closeFrame right)
  call : ∀ {start left right}, parted (Exec.enterCall start) left right →
    parted start (Exec.leaveCall left) (Exec.leaveCall right)
  embedded : ∀ {start other left right : Machine},
    parted (.fresh start.streams (start.depth + 1)) left right →
      parted start (Exec.behindEmbedded start left) (Exec.behindEmbedded other right)

/-- Runs that never part. -/
def Parting.never (law : StepLaw) : Parting law where
  parted _ _ _ := False
  before _ parted := parted
  behind parted _ _ := parted
  frame parted := parted
  call parted := parted
  embedded parted := parted

/-- The same streams take the same bytes. -/
theorem Streams.write_same {parted : Machine → Machine → Prop} {left right : Machine}
    (equal : left.streams = right.streams) (bytes : Array UInt8) :
    (left.streams.writeError? bytes.size = right.streams.writeError? bytes.size ∧
      left.streams.write bytes = right.streams.write bytes) ∨
    parted { left with streams := left.streams.write bytes }
      { right with streams := right.streams.write bytes } := by
  rw [equal]
  exact .inl ⟨rfl, rfl⟩

structure Lockstep where
  leader : Options
  follower : Options
  law : StepLaw
  parting : Parting law
  scopes : ScopeMatch
  streams : Streams → Streams → Prop
  depths : Nat → Nat → Prop
  errors : RuntimeError → RuntimeError → Prop
  policy : follower.policy = leader.policy
  framesGrown : ∀ {before later}, law.statement before later → before.FramesGrown later
  read : ∀ {left right}, streams left right →
    left.delivery = right.delivery ∧ streams left.read right.read
  write : ∀ {left right : Machine}, streams left.streams right.streams → ∀ bytes,
    (left.streams.writeError? bytes.size = right.streams.writeError? bytes.size ∧
      streams (left.streams.write bytes) (right.streams.write bytes)) ∨
    parting.parted left { left with streams := left.streams.write bytes }
      { right with streams := right.streams.write bytes }
  deeper : ∀ {depth depth'}, depths depth depth' → depths (depth + 1) (depth' + 1)
  plain : ∀ {error}, error.isPlain → errors error error
  embedded : ∀ {error error'}, errors error error' →
    errors (.embeddedFailure error) (.embeddedFailure error')
  loopLimit : ∀ started,
    LimitCheck errors (∀ left right : Machine, parting.parted left left.atLimit right) .loopLimit
      (Exec.exceeds leader.loopLimit started) (Exec.exceeds follower.loopLimit started)
  depthLimit : ∀ {depth depth'}, depths depth depth' →
    LimitCheck errors (∀ left right : Machine, parting.parted left left.atLimit right) .callDepth
      (Exec.depthExceeded leader depth) (Exec.depthExceeded follower depth')

namespace Lockstep

/-- The lockstep of runs that go on on the same machines, until they part. -/
def same {leader follower : Options} (policy : follower.policy = leader.policy) {law : StepLaw}
    (parting : Parting law)
    (framesGrown : ∀ {before later}, law.statement before later → before.FramesGrown later)
    (loopLimit : ∀ started,
      LimitCheck Eq (∀ left right : Machine, parting.parted left left.atLimit right) .loopLimit
        (Exec.exceeds leader.loopLimit started) (Exec.exceeds follower.loopLimit started))
    (depthLimit : ∀ depth,
      LimitCheck Eq (∀ left right : Machine, parting.parted left left.atLimit right) .callDepth
        (Exec.depthExceeded leader depth) (Exec.depthExceeded follower depth)) : Lockstep where
  leader := leader
  follower := follower
  law := law
  parting := parting
  scopes := .same
  streams := Eq
  depths := Eq
  errors := Eq
  policy := policy
  framesGrown := framesGrown
  read := Streams.read_same
  write := Streams.write_same
  deeper equal := by rw [equal]
  plain _ := rfl
  embedded equal := by rw [equal]
  loopLimit := loopLimit
  depthLimit equal := by
    rw [← equal]
    exact depthLimit _

open Exec

variable {α β : Type}

/-- Machines at the same point of two runs. -/
structure Alike (lockstep : Lockstep) (left right : Machine) : Prop where
  scope : lockstep.scopes.relation left.scope right.scope
  streams : lockstep.streams left.streams right.streams
  depth : lockstep.depths left.depth right.depth
  functions : left.functions = right.functions
  buffer : left.buffer = right.buffer
  heap : left.heap = right.heap
  history : left.history = right.history

/-- How the ends of two steps compare that began at the same point. -/
inductive Matched (lockstep : Lockstep) (start : Machine) :
    EStateM.Result Stop Machine α → EStateM.Result Stop Machine α → Prop where
  | ok {left right : Machine} (result : α) (alike : lockstep.Alike left right) :
      Matched lockstep start (.ok result left) (.ok result right)
  | error {left right : Machine} {error error' : RuntimeError}
      (errors : lockstep.errors error error') (alike : lockstep.Alike left right) :
      Matched lockstep start (.error (.error error) left) (.error (.error error') right)
  | halt {left right : Machine} (reason : Halt) (alike : lockstep.Alike left right) :
      Matched lockstep start (.error (.halt reason) left) (.error (.halt reason) right)
  | parted {left right : EStateM.Result Stop Machine α}
      (parted : lockstep.parting.parted start (machineOf left) (machineOf right)) :
      Matched lockstep start left right

/-- A step follows another one, from any two machines at the same point. -/
def Follows (lockstep : Lockstep) (left right : Exec α) : Prop :=
  ∀ ⦃leader follower⦄, lockstep.Alike leader follower →
    lockstep.Matched leader (left leader) (right follower)

/-- Both steps keep the law of the lockstep. -/
structure Kept (lockstep : Lockstep) (left right : Exec α) : Prop where
  leader : Keeps lockstep.law.statement left
  follower : Keeps lockstep.law.statement right

/-- Steps of the leader and of the follower that are put together in the same way. -/
def Pair (lockstep : Lockstep) (strength : Strength) (left right : Exec α) : Prop :=
  Parallel lockstep.leader lockstep.follower False strength left right

variable {lockstep : Lockstep}

theorem Pair.kept {strength : Strength} {left right : Exec α}
    (pair : lockstep.Pair strength left right) : lockstep.Kept left right := by
  have reversed := Parallel.symm pair not_false
  refine ⟨fun machine => ?_, fun machine => ?_⟩
  · exact lockstep.law.statement_of_relation (Parallel.keeps lockstep.law pair machine)
  · exact lockstep.law.statement_of_relation (reversed.keeps lockstep.law machine)

theorem Matched.before {start middle : Machine} {left right : EStateM.Result Stop Machine α}
    (moved : lockstep.law.statement start middle) (matched : lockstep.Matched middle left right) :
    lockstep.Matched start left right := by
  cases matched with
  | ok result alike => exact .ok result alike
  | error errors alike => exact .error errors alike
  | halt reason alike => exact .halt reason alike
  | parted parted => exact .parted (lockstep.parting.before moved parted)

/-- The runs go on on the same machines. -/
structure IsSame (lockstep : Lockstep) : Prop where
  scopes : lockstep.scopes = .same
  streams : lockstep.streams = Eq
  depths : lockstep.depths = Eq
  errors : lockstep.errors = Eq

theorem IsSame.alike_iff (isSame : lockstep.IsSame) {left right : Machine} :
    lockstep.Alike left right ↔ left = right := by
  rcases isSame with ⟨scopes, streams, depths, errors⟩
  constructor
  · rintro ⟨scope, stream, depth, functions, buffer, heap, history⟩
    rw [scopes] at scope
    rw [streams] at stream
    rw [depths] at depth
    cases left
    cases right
    simp only [Machine.mk.injEq] at *
    exact ⟨scope, functions, buffer, heap, stream, depth, history⟩
  · rintro rfl
    refine ⟨?_, ?_, ?_, rfl, rfl, rfl, rfl⟩
    · rw [scopes]
      rfl
    · rw [streams]
    · rw [depths]

/-- On the same machine, the runs come to the same unless they part. -/
theorem IsSame.eq_or_parted (isSame : lockstep.IsSame) {left right : Exec α}
    (follows : lockstep.Follows left right) (machine : Machine) :
    right machine = left machine ∨
      lockstep.parting.parted machine (left.after machine) (right.after machine) := by
  have matched := follows (isSame.alike_iff.mpr (Eq.refl machine))
  simp only [after]
  generalize left machine = leftResult at *
  generalize right machine = rightResult at *
  cases matched with
  | ok result alike => exact .inl (by rw [isSame.alike_iff.mp alike])
  | error errors alike =>
      rw [isSame.errors] at errors
      exact .inl (by rw [isSame.alike_iff.mp alike, errors])
  | halt reason alike => exact .inl (by rw [isSame.alike_iff.mp alike])
  | parted parted => exact .inr parted

theorem Alike.withHistory {left right : Machine} (alike : lockstep.Alike left right)
    (event : Event) :
    lockstep.Alike { left with history := event :: left.history }
      { right with history := event :: right.history } :=
  { alike with history := by rw [alike.history] }

/-- Where the leader meets a limit, either both runs fail or they part. -/
theorem follows_unlessLimited {error : Nat → RuntimeError} {limit limit' : Option Nat}
    {left right : Exec α}
    (check : LimitCheck lockstep.errors
      (∀ left right : Machine, lockstep.parting.parted left left.atLimit right) error limit limit')
    (follows : lockstep.Follows left right) :
    lockstep.Follows (unlessLimited error limit left) (unlessLimited error limit' right) := by
  intro leader follower alike
  cases check with
  | pass => exact follows alike
  | fail errors => exact .error errors (alike.withHistory .limitReached)
  | part parted => exact .parted (parted _ _)

theorem follows_lookup (name : String) : lockstep.Follows (lookup name) (lookup name) := by
  intro leader follower alike
  rw [lookup_apply, lookup_apply, lockstep.scopes.get? alike.scope name]
  cases follower.scope.get? name with
  | none => exact .error (lockstep.plain rfl) alike
  | some value => exact .ok value alike

theorem follows_assign (name : String) (value : Value) :
    lockstep.Follows (Exec.assign name value) (Exec.assign name value) := by
  intro leader follower alike
  have assigned := lockstep.scopes.assign alike.scope name value
  rw [assign_apply, assign_apply]
  generalize leader.scope.assign? name value = left at assigned
  generalize follower.scope.assign? name value = right at assigned
  cases assigned with
  | none => exact .error (lockstep.plain rfl) alike
  | some scope => exact .ok () { alike with scope }

theorem follows_newArray (items : List Value) :
    lockstep.Follows (newArray items) (newArray items) := by
  intro leader follower alike
  have same : (newArray items) follower =
      .ok (.array (leader.heap.alloc items.toArray).1)
        { follower with
          heap := (leader.heap.alloc items.toArray).2
          history := .arrayMade items :: follower.history } := by
    rw [alike.heap]
    rfl
  rw [same]
  exact .ok _ { alike with heap := rfl, history := by simp only [alike.history] }

theorem follows_textOf (value : Value) : lockstep.Follows (textOf value) (textOf value) := by
  intro leader follower alike
  rw [textOf_apply, textOf_apply, alike.heap]
  cases follower.heap.content? value with
  | none => exact .halt .endlessText alike
  | some content => exact .ok content.text alike

theorem isPlain_of_textRead {delivery : Streams.Delivery} {error : RuntimeError}
    (failed : textRead delivery = .error error) : error.isPlain := by
  cases delivery with
  | failed _ | atEnd =>
      cases failed
      rfl
  | line line =>
      rw [textRead] at failed
      split at failed <;> cases failed
      rfl

theorem follows_readLine : lockstep.Follows readLine readLine := by
  intro leader follower alike
  rcases lockstep.read alike.streams with ⟨delivery, streams⟩
  have read : lockstep.Alike (behindRead leader) (behindRead follower) :=
    { alike with
      streams
      history := by simp only [behindRead, delivery, alike.history] }
  rw [readLine_apply, readLine_apply, delivery]
  cases isText : textRead follower.streams.delivery with
  | error error => exact .error (lockstep.plain (isPlain_of_textRead isText)) read
  | ok text => exact .ok text read

theorem follows_write (text : String) : lockstep.Follows (Exec.write text) (Exec.write text) := by
  intro leader follower alike
  rw [write_apply, write_apply]
  rcases lockstep.write alike.streams text.toUTF8.data with ⟨failure, streams⟩ | parted
  · rw [failure]
    cases follower.streams.writeError? text.toUTF8.data.size with
    | none => exact .ok () { alike with streams }
    | some error => exact .error (lockstep.plain rfl) { alike with streams }
  · refine .parted ?_
    rw [machineOf_writeResult, machineOf_writeResult]
    exact parted

theorem follows_takeOut (direction : Direction) (count : Nat) :
    lockstep.Follows (takeOut direction count) (takeOut direction count) := by
  intro leader follower alike
  rw [takeOut_apply, takeOut_apply, ← alike.buffer]
  by_cases short : leader.buffer.size < count
  · rw [if_pos short, if_pos short]
    exact .error (lockstep.plain rfl) alike
  · rw [if_neg short, if_neg short]
    have moved : lockstep.law.statement leader (behindTake direction count leader) :=
      lockstep.law.take direction (Nat.le_of_not_lt short)
    have taken : lockstep.Alike (behindTake direction count leader)
        (behindTake direction count follower) :=
      { alike with
        buffer := by simp only [behindTake, alike.buffer]
        history := by simp only [behindTake, alike.buffer, alike.history] }
    exact (follows_write _ taken).before moved

theorem follows_elementary {strength : Strength} {step : Exec α}
    (isElementary : Elementary strength step) : lockstep.Follows step step := by
  intro leader follower alike
  cases isElementary with
  | pure result => exact .ok result alike
  | fail plain => exact .error (lockstep.plain plain) alike
  | lookup name => exact follows_lookup name alike
  | assign name value => exact follows_assign name value alike
  | functionOf name =>
      rw [functionOf, get_bind_apply, get_bind_apply, alike.functions]
      exact .ok _ alike
  | newArray items => exact follows_newArray items alike
  | itemsOf ref =>
      rw [itemsOf, get_bind_apply, get_bind_apply, alike.heap]
      exact .ok _ alike
  | extendArray ref items =>
      exact .ok ()
        { alike with
          heap := by simp only [alike.heap]
          history := by simp only [alike.history] }
  | isTruthy value =>
      rw [isTruthy, get_bind_apply, get_bind_apply, alike.heap]
      exact .ok _ alike
  | textOf value => exact follows_textOf value alike
  | write text => exact follows_write text alike
  | define name value =>
      exact .ok () { alike with scope := lockstep.scopes.define alike.scope name value }
  | defineFunction name function =>
      exact .ok () { alike with functions := by simp only [alike.functions] }
  | readLine => exact follows_readLine alike
  | put character =>
      exact .ok ()
        { alike with
          buffer := by simp only [alike.buffer]
          history := by simp only [alike.history] }
  | takeOut direction count => exact follows_takeOut direction count alike

end Lockstep

end Mel

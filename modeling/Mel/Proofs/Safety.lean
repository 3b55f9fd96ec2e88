import Mel.Proofs.Parallel
import Mel.Proofs.References

/-!
# Safe steps

A step is safe if it keeps machines sound, gives a result whose references are those
of cells, and is stopped by an endless text only after a cycle was closed. Cells are
never taken away, so what is known of earlier results stays true. This is why a bound
on the number of cells is carried along, from below, instead of the machine.
-/

namespace Mel

/-- Every value that a machine holds refers to cells, and its heap is what its history makes of
it. -/
structure Machine.Sound (machine : Machine) : Prop where
  scope : machine.scope.All (·.Within machine.heap.size)
  heap : machine.heap.Sound machine.history

theorem Machine.sound_fresh (streams : Streams) (depth : Nat) :
    (Machine.fresh streams depth).Sound :=
  ⟨Scope.all_empty, Heap.sound_empty⟩

theorem Machine.Sound.quiet {machine : Machine} (sound : machine.Sound) {event : Event}
    (quiet : event.IsQuiet) : { machine with history := event :: machine.history }.Sound :=
  ⟨sound.scope, sound.heap.quiet quiet⟩

namespace Exec

variable {α β : Type}

/-- How a safe step can end that began with `size` cells. -/
inductive Upheld (held : Nat → α → Prop) (size : Nat) :
    EStateM.Result Stop Machine α → Prop where
  | ok {result : α} {later : Machine} (sound : later.Sound) (grown : size ≤ later.heap.size)
      (holds : held later.heap.size result) : Upheld held size (.ok result later)
  | error {stop : Stop} {later : Machine} (sound : later.Sound) (grown : size ≤ later.heap.size)
      (closes : stop = .halt .endlessText →
        ∃ moment, Moment later.history moment ∧ ClosesCycle moment) :
      Upheld held size (.error stop later)

/-- A step is safe with at least `size` cells. What is held of its result is about the number of
cells there are then. -/
def Safe (size : Nat) (held : Nat → α → Prop) (step : Exec α) : Prop :=
  ∀ ⦃machine : Machine⦄, machine.Sound → size ≤ machine.heap.size →
    Upheld held machine.heap.size (step machine)

/-- Nothing is held of the result. -/
abbrev Anything : Nat → α → Prop := fun _ _ => True

/-- All of these values refer to cells. -/
abbrev AllWithin (size : Nat) (values : List Value) : Prop :=
  ∀ value ∈ values, value.Within size

theorem AllWithin.mono {size later : Nat} (le : size ≤ later) {values : List Value}
    (within : AllWithin size values) : AllWithin later values :=
  fun value isMember => (within value isMember).mono le

variable {size : Nat} {held : Nat → α → Prop} {held' : Nat → β → Prop}

/-- What is upheld from a machine with more cells is upheld from one with fewer. -/
theorem Upheld.weaken {later : Nat} (le : size ≤ later) {ended : EStateM.Result Stop Machine α}
    (upheld : Upheld held later ended) : Upheld held size ended := by
  cases upheld with
  | ok sound grown holds => exact .ok sound (Nat.le_trans le grown) holds
  | error sound grown closes => exact .error sound (Nat.le_trans le grown) closes

theorem Upheld.sound {ended : EStateM.Result Stop Machine α} (upheld : Upheld held size ended) :
    (machineOf ended).Sound := by
  cases upheld with
  | ok sound _ _ => exact sound
  | error sound _ _ => exact sound

theorem upheld_error {machine : Machine} (sound : machine.Sound) (error : RuntimeError) :
    Upheld held machine.heap.size (.error (.error error) machine) := by
  apply Upheld.error sound (Nat.le_refl _)
  intro endless
  cases endless

theorem safe_pure {result : α} (holds : ∀ later, size ≤ later → held later result) :
    Safe size held (pure result) :=
  fun _ sound le => .ok sound (Nat.le_refl _) (holds _ le)

theorem safe_anything (result : α) : Safe size Anything (pure result) :=
  safe_pure fun _ _ => trivial

theorem safe_value {value : Value} (within : value.Within size) :
    Safe size Value.Within (pure value) :=
  safe_pure fun _ le => within.mono le

theorem safe_fail (error : RuntimeError) : Safe size held (fail error) :=
  fun _ sound _ => upheld_error sound error

theorem safe_failAtLimit (error : RuntimeError) : Safe size held (failAtLimit error) := by
  intro machine sound le
  have quiet : Event.limitReached.IsQuiet := trivial
  exact upheld_error (sound.quiet quiet) error

theorem safe_exhausted : Safe size held (halt .outOfFuel) := by
  intro machine sound le
  apply Upheld.error sound (Nat.le_refl _)
  intro endless
  cases endless

/-- The value of a variable refers to cells, as all values that a scope holds do. -/
theorem safe_lookup (name : String) : Safe size Value.Within (lookup name) := by
  intro machine sound le
  rw [lookup_apply]
  cases found : machine.scope.get? name with
  | none => exact upheld_error sound _
  | some value => exact .ok sound (Nat.le_refl _) (sound.scope.get? found)

theorem safe_define (name : String) {value : Value} (within : value.Within size) :
    Safe size Anything (define name value) := by
  intro machine sound le
  exact .ok ⟨sound.scope.define (within.mono le), sound.heap⟩ (Nat.le_refl _) trivial

theorem safe_assign (name : String) {value : Value} (within : value.Within size) :
    Safe size Anything (assign name value) := by
  intro machine sound le
  rw [assign_apply]
  cases assigned : machine.scope.assign? name value with
  | none => exact upheld_error sound _
  | some scope =>
      have all := sound.scope.assign? (within.mono le) assigned
      exact .ok ⟨all, sound.heap⟩ (Nat.le_refl _) trivial

/-- A new array refers to the cell that was taken for it. -/
theorem safe_newArray {items : List Value} (within : AllWithin size items) :
    Safe size Value.Within (newArray items) := by
  intro machine sound le
  have grown : machine.heap.size ≤ (machine.heap.alloc items.toArray).2.size := by
    simp [Heap.size_alloc]
  have scope := sound.scope.mono fun value valueWithin => valueWithin.mono grown
  have isCell : machine.heap.size < (machine.heap.alloc items.toArray).2.size := by
    simp [Heap.size_alloc]
  exact .ok ⟨scope, sound.heap.alloc (within.mono le)⟩ grown isCell

theorem safe_itemsOf (ref : ArrayRef) : Safe size AllWithin (itemsOf ref) := by
  intro machine sound le
  apply Upheld.ok sound (Nat.le_refl _)
  intro item isItem
  exact sound.heap.wellFormed ref item (Array.mem_toList_iff.mp isItem)

/-- Adding items may close a cycle, which the history of the machine then shows. -/
theorem safe_extendArray {ref : ArrayRef} (present : ref < size) {items : List Value}
    (within : AllWithin size items) : Safe size Anything (extendArray ref items) := by
  intro machine sound le
  have same := Heap.size_extend machine.heap ref items.toArray
  have heap := sound.heap.extend (Nat.lt_of_lt_of_le present le) (within.mono le)
  apply Upheld.ok
  · refine ⟨?_, heap⟩
    simp only [same]
    exact sound.scope
  · simp only [same]
    exact Nat.le_refl _
  · exact trivial

theorem safe_isTruthy (value : Value) : Safe size Anything (isTruthy value) :=
  fun _ sound _ => .ok sound (Nat.le_refl _) trivial

/-- If a value has no text, an array was given an item that led back to it before. -/
theorem safe_textOf {value : Value} (within : value.Within size) :
    Safe size Anything (textOf value) := by
  intro machine sound le
  rw [textOf_apply]
  cases content : machine.heap.content? value with
  | none =>
      have closes := sound.heap.closesCycle (within.mono le) content
      exact .error sound (Nat.le_refl _) fun _ => ⟨_, .here _, closes⟩
  | some content => exact .ok sound (Nat.le_refl _) trivial

theorem safe_write (text : String) : Safe size Anything (write text) := by
  intro machine sound le
  have soundLater : { machine with streams := machine.streams.write text.toUTF8.data }.Sound :=
    ⟨sound.scope, sound.heap⟩
  rw [write_apply]
  cases machine.streams.writeError? text.toUTF8.data.size with
  | none => exact .ok soundLater (Nat.le_refl _) trivial
  | some reason => exact upheld_error soundLater _

theorem safe_readLine : Safe size Anything readLine := by
  intro machine sound le
  rw [readLine_apply]
  have soundLater : (behindRead machine).Sound := by
    refine ⟨sound.scope, ?_⟩
    rw [behindRead]
    cases machine.streams.delivery with
    | line line => exact sound.heap.quiet trivial
    | failed _ | atEnd => exact sound.heap
  cases textRead machine.streams.delivery with
  | error error => exact upheld_error soundLater _
  | ok text => exact .ok soundLater (Nat.le_refl _) trivial

theorem safe_functionOf (name : String) : Safe size Anything (functionOf name) :=
  fun _ sound _ => .ok sound (Nat.le_refl _) trivial

theorem safe_defineFunction (name : String) (function : Function) :
    Safe size Anything (defineFunction name function) :=
  fun _ sound _ => .ok ⟨sound.scope, sound.heap⟩ (Nat.le_refl _) trivial

theorem safe_put (character : Char) : Safe size Anything (put character) :=
  fun _ sound _ => .ok ⟨sound.scope, sound.heap.quiet trivial⟩ (Nat.le_refl _) trivial

theorem safe_takeOut (direction : Direction) (count : Nat) :
    Safe size Anything (takeOut direction count) := by
  intro machine sound le
  rw [takeOut_apply]
  split
  · exact upheld_error sound _
  · have taken : (behindTake direction count machine).Sound :=
      ⟨sound.scope, sound.heap.quiet trivial⟩
    exact safe_write _ taken le

/-- What the first step was found to give is known to the second one, which may begin with more
cells. -/
theorem Safe.bind {step : Exec α} {next : α → Exec β} (safe : Safe size held step)
    (safeNext : ∀ later result, size ≤ later → held later result →
      Safe later held' (next result)) : Safe size held' (step >>= next) := by
  intro machine sound le
  have upheld := safe sound le
  rw [bind_apply]
  generalize step machine = ended at upheld
  cases upheld with
  | ok soundLater grown holds =>
      -- The second step begins with the cells that there are then.
      have upheldNext := safeNext _ _ (Nat.le_trans le grown) holds soundLater (Nat.le_refl _)
      exact upheldNext.weaken grown
  | error soundLater grown closes => exact .error soundLater grown closes

/-- A change of a machine that binds no value and leaves the heap and the history alone. -/
structure Harmless (change : Machine → Machine) : Prop where
  sound : ∀ {machine : Machine}, machine.Sound → (change machine).Sound
  heap : ∀ machine, (change machine).heap = machine.heap
  history : ∀ machine, (change machine).history = machine.history

theorem Safe.between {step : Exec α} (safe : Safe size held step) {enter leave : Machine → Machine}
    (enters : Harmless enter) (leaves : Harmless leave) :
    Safe size held (between enter leave step) := by
  intro machine sound le
  have upheld := safe (enters.sound sound) (by rwa [enters.heap])
  rw [enters.heap] at upheld
  simp only [Exec.between]
  generalize step (enter machine) = ended at upheld
  cases upheld with
  | ok soundLater grown holds =>
      apply Upheld.ok (leaves.sound soundLater)
      · rwa [leaves.heap]
      · rwa [leaves.heap]
  | error soundLater grown closes =>
      apply Upheld.error (leaves.sound soundLater)
      · rwa [leaves.heap]
      · rwa [leaves.history]

theorem harmless_openFrame : Harmless openFrame :=
  ⟨fun sound => ⟨sound.scope.push, sound.heap⟩, fun _ => rfl, fun _ => rfl⟩

theorem harmless_closeFrame : Harmless closeFrame :=
  ⟨fun sound => ⟨sound.scope.pop, sound.heap⟩, fun _ => rfl, fun _ => rfl⟩

theorem harmless_enterCall : Harmless enterCall :=
  ⟨fun sound => ⟨sound.scope.push, sound.heap⟩, fun _ => rfl, fun _ => rfl⟩

theorem harmless_leaveCall : Harmless leaveCall :=
  ⟨fun sound => ⟨sound.scope.pop, sound.heap⟩, fun _ => rfl, fun _ => rfl⟩

theorem Safe.inFrame {step : Exec α} (safe : Safe size held step) :
    Safe size held (inFrame step) :=
  safe.between harmless_openFrame harmless_closeFrame

theorem Safe.inCall {step : Exec α} (safe : Safe size held step) :
    Safe size held (inCall step) :=
  safe.between harmless_enterCall harmless_leaveCall

/-- A handler begins with the cells that the failing body has left. -/
theorem Safe.catching {step handler : Exec α} (safe : Safe size held step)
    (safeHandler : Safe size held handler) : Safe size held (catching step handler) := by
  intro machine sound le
  have upheld := safe sound le
  rw [catching_apply]
  generalize step machine = ended at upheld
  cases upheld with
  | ok soundLater grown holds => exact .ok soundLater grown holds
  | @error stop later soundLater grown closes =>
      cases stop with
      | error error => exact (safeHandler soundLater (Nat.le_trans le grown)).weaken grown
      | halt reason => exact .error soundLater grown closes

theorem Safe.unlessLimited {step : Exec α} (safe : Safe size held step)
    (error : Nat → RuntimeError) (limit : Option Nat) :
    Safe size held (unlessLimited error limit step) := by
  cases limit with
  | none => exact safe
  | some limit => exact safe_failAtLimit _

theorem Safe.unlessDeep {step : Exec α} (safe : Safe size held step) (options : Options)
    (error : Nat → RuntimeError) : Safe size held (unlessDeep options error step) :=
  fun _ sound le => safe.unlessLimited error _ sound le

/-- An embedded program has a heap of its own. -/
theorem safe_runEmbedded {execute : Statement → Exec Completion} {block : Block}
    {held : Nat → Completion → Prop} (safe : Safe 0 held (executeAll execute block)) :
    Safe size Anything (runEmbedded execute block) := by
  intro machine sound le
  have upheld := safe (Machine.sound_fresh machine.streams (machine.depth + 1)) (Nat.zero_le _)
  have behind {inner : Machine} (soundInner : inner.Sound) :
      (behindEmbedded machine inner).Sound := by
    have quiet : (Event.embedded inner.history).IsQuiet := soundInner.heap.history
    exact ⟨sound.scope, sound.heap.quiet quiet⟩
  rw [runEmbedded_apply]
  generalize executeAll execute block _ = ended at upheld
  cases upheld with
  | ok soundInner _ _ => exact .ok (behind soundInner) (Nat.le_refl _) trivial
  | @error stop inner soundInner _ closes =>
      cases stop with
      | error error => exact upheld_error (behind soundInner) _
      | halt reason =>
          apply Upheld.error (behind soundInner) (Nat.le_refl _)
          intro endless
          cases endless
          rcases closes rfl with ⟨moment, isMoment, closes⟩
          exact ⟨moment, .embedded isMoment, closes⟩

end Exec

end Mel

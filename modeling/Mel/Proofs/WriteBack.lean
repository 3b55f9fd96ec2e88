import Mel.Proofs.Appending
import Mel.Proofs.ScopeDiscipline

/-!
# Writing an array back

Appending extends an array before it binds the array to its variable again, and this last step fails
if the variable is bound nowhere. Then the items stay where they are although appending has failed.
An array that was found by the name of its variable is safe from this, as its variable was looked up
before. An array that comes with the name of a variable is not, as nothing looks this name up.

No program gets there. The variable was bound when the first argument was evaluated, and whatever
the other arguments have done since, no frame is gone and none has lost a name.
-/

namespace Mel

theorem Scope.isSome_get?_iff {α : Type} (scope : Scope α) (name : String) :
    (scope.get? name).isSome ↔ ∃ names ∈ scope.frames.map Table.names, name ∈ names := by
  rw [get?, List.findSome?_isSome_iff]
  simp only [List.mem_map, exists_exists_and_eq_and, ← Table.contains_iff_mem_names,
    Table.contains]

theorem Machine.FramesKept.isSome_get? {before later : Machine} (kept : before.FramesKept later)
    {name : String} (bound : (before.scope.get? name).isSome) :
    (later.scope.get? name).isSome := by
  rw [Scope.isSome_get?_iff] at bound ⊢
  rwa [kept.names]

namespace Exec

variable {options : Options} {fuel : Nat} {variableName boundTo : Option String} {target : Value}
  {values : List Value} {ref : ArrayRef} {machine later : Machine} {stop : Stop}

/-- An array can be written back to a variable that is bound. -/
theorem writeBack_of_bound (ref : ArrayRef)
    (bound : ∀ name ∈ boundTo, (machine.scope.get? name).isSome) :
    ∃ later, writeBack ref boundTo machine = .ok () later := by
  cases boundTo with
  | none => exact ⟨machine, rfl⟩
  | some name =>
      have assigns := bound name rfl
      rw [← Scope.isSome_assign? machine.scope name (.array ref), Option.isSome_iff_exists]
        at assigns
      obtain ⟨scope, assigned⟩ := assigns
      exact ⟨{ machine with scope }, by rw [writeBack, assign_apply, assigned]⟩

theorem writeBack_of_unbound {name : String} (ref : ArrayRef)
    (unbound : machine.scope.get? name = none) :
    writeBack ref (some name) machine = .error (.error (.undefinedVariable name)) machine := by
  have unassigned : machine.scope.assign? name (.array ref) = none := by
    rw [← Option.not_isSome_iff_eq_none, Scope.isSome_assign?, unbound]
    exact Bool.false_ne_true
  rw [writeBack, assign_apply, unassigned]

/-- Only the variable that an array came with can be unbound. -/
theorem IsTarget.isSome_get? (isTarget : IsTarget variableName machine target ref boundTo)
    (bound : ∀ name ∈ variableName, target = .array ref → (machine.scope.get? name).isSome) :
    ∀ name ∈ boundTo, (machine.scope.get? name).isSome := by
  intro name isName
  cases isTarget with
  | array => exact bound name isName rfl
  | named found =>
      cases isName
      rw [found]
      rfl

/-- There are items for an array that comes with the name of a variable, and no frame binds it. -/
def ComesUnbound (variableName : Option String) (values : List Value) (machine : Machine) : Prop :=
  ∃ name ref item items, variableName = some name ∧ values = .array ref :: item :: items ∧
    machine.scope.get? name = none

theorem append_of_unbound {name : String} (unbound : machine.scope.get? name = none)
    (ref : ArrayRef) (item : Value) (items : List Value) :
    append (some name) (.array ref :: item :: items) machine =
      .error (.error (.undefinedVariable name)) (behindExtend ref (item :: items) machine) := by
  have stillUnbound : (behindExtend ref (item :: items) machine).scope.get? name = none := unbound
  rw [append_of_isTarget (.array ref), bind_of_error (writeBack_of_unbound ref stillUnbound)]

/-- Behind an array that is found and items to put there, nothing can fail. -/
theorem append_of_isTarget_of_bound {item : Value} {items : List Value}
    (isTarget : IsTarget variableName machine target ref boundTo)
    (bound : ∀ name ∈ variableName, target = .array ref → (machine.scope.get? name).isSome) :
    ∃ later, writeBack ref boundTo (behindExtend ref (item :: items) machine) = .ok () later ∧
      append variableName (target :: item :: items) machine = .ok .nil later := by
  have writes : ∃ later, writeBack ref boundTo (behindExtend ref (item :: items) machine) =
      .ok () later := writeBack_of_bound ref (isTarget.isSome_get? bound)
  obtain ⟨later, written⟩ := writes
  refine ⟨later, written, ?_⟩
  rw [append_of_isTarget isTarget, bind_of_ok written]
  rfl

theorem eq_of_failed_append (comesBound : ¬ComesUnbound variableName values machine)
    (failed : append variableName values machine = .error stop later) : later = machine := by
  rcases append_ends variableName values machine with
    ⟨error, refused⟩ | ⟨target, item, items, ref, boundTo, rfl, isTarget⟩
  · rw [refused] at failed
    cases failed
    rfl
  · have bound : ∀ name ∈ variableName, target = .array ref →
        (machine.scope.get? name).isSome := by
      rintro name isName rfl
      by_contra unbound
      rw [Option.not_isSome_iff_eq_none] at unbound
      exact comesBound ⟨name, ref, item, items, isName, rfl, unbound⟩
    obtain ⟨behind, -, returned⟩ := append_of_isTarget_of_bound isTarget bound
    rw [returned] at failed
    cases failed

/-- Appending that fails leaves everything as it was, with one exception: an array that comes with
the name of an unbound variable has its new items all the same. No binding has changed then
either. -/
theorem failed_append_changes_nothing_but_unbound
    (failed : append variableName values machine = .error stop later) :
    later.scope = machine.scope ∧
    (¬ComesUnbound variableName values machine → later = machine) ∧
    ∀ name ref item items, variableName = some name → values = .array ref :: item :: items →
      machine.scope.get? name = none →
        stop = .error (.undefinedVariable name) ∧
          later = behindExtend ref (item :: items) machine := by
  have exception : ∀ name ref item items, variableName = some name →
      values = .array ref :: item :: items → machine.scope.get? name = none →
        stop = .error (.undefinedVariable name) ∧
          later = behindExtend ref (item :: items) machine := by
    rintro name ref item items rfl rfl unbound
    rw [append_of_unbound unbound] at failed
    cases failed
    exact ⟨rfl, rfl⟩
  refine ⟨?_, fun comesBound => eq_of_failed_append comesBound failed, exception⟩
  by_cases comesUnbound : ComesUnbound variableName values machine
  · obtain ⟨name, ref, item, items, isName, isValues, unbound⟩ := comesUnbound
    rw [(exception name ref item items isName isValues unbound).2]
    rfl
  · rw [eq_of_failed_append comesUnbound failed]

/-- A program that binds an empty array to a variable. -/
def emptyArray : Block :=
  [.assign "a" (.sentinel .empty)]

theorem failed_append_changes_nothing_but_unbound_missing :
    let machine := (interpret {} 2 emptyArray).after (.fresh (.ofInput [] none) 0)
    ∃ stop later, append (some "missing") [.array 0, .integer 1] machine = .error stop later ∧
      stop = .error (.undefinedVariable "missing") ∧
      later = behindExtend 0 [.integer 1] machine ∧ later.scope = machine.scope := by
  intro machine
  have failed : append (some "missing") [.array 0, .integer 1] machine =
      .error (.error (.undefinedVariable "missing"))
        ((append (some "missing") [.array 0, .integer 1]).after machine) := rfl
  obtain ⟨sameScope, -, exception⟩ := failed_append_changes_nothing_but_unbound failed
  obtain ⟨isStop, isLater⟩ := exception "missing" 0 (.integer 1) [] rfl rfl rfl
  exact ⟨_, _, failed, isStop, isLater, sameScope⟩

/-- The array of the program is no longer empty once appending to it has failed. -/
theorem append_extends_unbound :
    let machine := (interpret {} 2 emptyArray).after (.fresh (.ofInput [] none) 0)
    let later := (append (some "missing") [.array 0, .integer 1]).after machine
    append (some "missing") [.array 0, .integer 1] machine =
      .error (.error (.undefinedVariable "missing")) later ∧
    machine.scope.get? "a" = some (.array 0) ∧ later.scope.get? "a" = some (.array 0) ∧
    machine.heap.items 0 = #[] ∧ later.heap.items 0 = #[.integer 1] := by
  exact ⟨rfl, rfl, rfl, rfl, rfl⟩

theorem framesKept_of_evaluateAll {arguments : List Expr} {start reached : Machine}
    (ended : evaluateAll (evaluate options fuel) arguments start = .ok values reached) :
    start.FramesKept reached := by
  have kept := StepLaw.frames.keeps_evaluateAll options fuel arguments start
  rwa [after_of_ok ended] at kept

/-- A variable that was the first argument is bound still when all arguments have their values. -/
theorem isSome_get?_firstVariable? {arguments : List Expr} {start reached : Machine} {name : String}
    (isVariable : firstVariable? arguments = some name)
    (ended : evaluateAll (evaluate options fuel) arguments start = .ok (target :: values) reached) :
    (reached.scope.get? name).isSome := by
  apply (framesKept_of_evaluateAll ended).isSome_get?
  rw [get?_firstVariable? evaluate_variable isVariable ended]
  rfl

/-- On any machine, so wherever a run makes the call, a call of append ends in one of three ways. It
stops in its arguments. Or it is refused, and nothing has changed since its arguments were
evaluated. Or it extends an array, and then the array is written back without fail and the call
returns. The arguments may do what they like: every frame has the names it had. -/
theorem append_call_writes_back (options : Options) (fuel : Nat) (arguments : List Expr)
    (start : Machine) :
    let called := call options (evaluate options fuel) (execute options fuel) (.named "append")
      arguments start
    (∃ stop reached,
      evaluateAll (evaluate options fuel) arguments start = .error stop reached ∧
        called = .error stop reached) ∨
    ∃ values reached,
      evaluateAll (evaluate options fuel) arguments start = .ok values reached ∧
      reached.scope.frames.map Table.names = start.scope.frames.map Table.names ∧
      ((∃ error, called = .error (.error error) reached) ∨
        ∃ target item items ref boundTo later, values = target :: item :: items ∧
          appendTarget (firstVariable? arguments) target reached = .ok (ref, boundTo) reached ∧
          writeBack ref boundTo (behindExtend ref (item :: items) reached) = .ok () later ∧
          called = .ok .nil later) := by
  intro called
  cases ended : evaluateAll (evaluate options fuel) arguments start with
  | error stop reached => exact .inl ⟨stop, reached, rfl, call_append_of_error ended⟩
  | ok values reached =>
      have appends : called = append (firstVariable? arguments) values reached :=
        call_append_of_ok ended
      refine .inr ⟨values, reached, rfl, (framesKept_of_evaluateAll ended).names, ?_⟩
      rcases append_ends (firstVariable? arguments) values reached with
        ⟨error, refused⟩ | ⟨target, item, items, ref, boundTo, rfl, isTarget⟩
      · exact .inl ⟨error, appends.trans refused⟩
      · obtain ⟨later, written, returned⟩ := append_of_isTarget_of_bound isTarget
          fun name isVariable _ => isSome_get?_firstVariable? isVariable ended
        exact .inr ⟨target, item, items, ref, boundTo, later, rfl, isTarget.found, written,
          appends.trans returned⟩

end Exec

end Mel

import Mel.Proofs.Scopes
import Mel.Proofs.Step

/-!
# Shadow stacks

What a name means can be told without any table. It is enough to know, for each frame that is open,
which values the name was bound to in it: the name means the latest value in the innermost frame
that has one. These lists are the shadow stack of the name. Opening a frame puts an empty list on
top, closing one takes the top away unless it is the last, and a binding puts its value in front of
one of the lists.

Scopes follow the shadow stacks of all names whatever is done to them. So what a block of operations
in a frame of its own leaves behind can be read off the shadow stack: nothing but the last value
that was assigned where the name was bound outside of the block.
-/

namespace Mel

/-- What can be done with the variables of a machine. -/
inductive ScopeOperation where
  | lookup (name : String)
  | define (name : String) (value : Value)
  | assign (name : String) (value : Value)
  | openFrame
  | closeFrame

namespace ScopeOperation

/-- Looking a name up is the only operation that gives a value. -/
def perform : ScopeOperation → Exec (Option Value)
  | .lookup name => do return some (← Exec.lookup name)
  | .define name value => do
      Exec.define name value
      return none
  | .assign name value => do
      Exec.assign name value
      return none
  | .openFrame => do
      modify Exec.openFrame
      return none
  | .closeFrame => do
      modify Exec.closeFrame
      return none

/-- The name that has to be bound already. -/
def required? : ScopeOperation → Option String
  | .lookup name | .assign name _ => some name
  | .define _ _ | .openFrame | .closeFrame => none

/-- How many frames are open behind some operations that were opened since `level` of them were,
unless a frame is closed that was open before. -/
def levelAfter? : (level : Nat) → List ScopeOperation → Option Nat
  | level, [] => some level
  | level, .openFrame :: later => levelAfter? (level + 1) later
  | 0, .closeFrame :: _ => none
  | level + 1, .closeFrame :: later => levelAfter? level later
  | level, .lookup _ :: later | level, .define _ _ :: later | level, .assign _ _ :: later =>
      levelAfter? level later

/-- The operations between the opening of a frame and the closing of the same frame. -/
def IsBlock (operations : List ScopeOperation) : Prop :=
  levelAfter? 0 operations = some 0

theorem lookup_perform_apply (name : String) (machine : Machine) :
    (lookup name).perform machine =
      match machine.scope.get? name with
      | some value => .ok (some value) machine
      | none => .error (.error (.undefinedVariable name)) machine := by
  rw [perform, Exec.bind_apply, Exec.lookup_apply]
  cases machine.scope.get? name <;> rfl

theorem assign_perform_apply (name : String) (value : Value) (machine : Machine) :
    (assign name value).perform machine =
      match machine.scope.assign? name value with
      | some scope => .ok none { machine with scope }
      | none => .error (.error (.undefinedVariable name)) machine := by
  rw [perform, Exec.bind_apply, Exec.assign_apply]
  cases machine.scope.assign? name value <;> rfl

/-- An operation fails exactly if the name that it needs is bound nowhere, and then it has done
nothing. -/
theorem perform_eq_error_iff (operation : ScopeOperation) (machine later : Machine) (stop : Stop) :
    operation.perform machine = .error stop later ↔
      later = machine ∧ ∃ name, operation.required? = some name ∧
        machine.scope.get? name = none ∧ stop = .error (.undefinedVariable name) := by
  cases operation with
  | lookup name =>
      rw [lookup_perform_apply]
      cases found : machine.scope.get? name <;> simp [required?, found, eq_comm, and_comm]
  | assign name value =>
      rw [assign_perform_apply]
      have bound := Scope.isSome_assign? machine.scope name value
      cases assigned : machine.scope.assign? name value with
      | none =>
          rw [assigned, Option.isSome_none, eq_comm, Option.isSome_eq_false_iff,
            Option.isNone_iff_eq_none] at bound
          simp [required?, bound, eq_comm, and_comm]
      | some scope =>
          rw [assigned, Option.isSome_some, eq_comm, Option.isSome_iff_ne_none] at bound
          simp [required?, bound]
  | define _ _ | openFrame | closeFrame =>
      constructor
      · intro failed
        cases failed
      · rintro ⟨-, name, required, -⟩
        cases required

end ScopeOperation

/-- Performs operations one after the other, also behind those that fail. -/
def Machine.performAll (machine : Machine) (operations : List ScopeOperation) : Machine :=
  operations.foldl (fun machine operation => operation.perform.after machine) machine

/-- For each frame that is open, the innermost first, the values that a name was bound to in it, the
latest first. -/
abbrev ShadowStack := List (List Value)

namespace ShadowStack

/-- The latest value in the innermost frame that has one. -/
def latest? (stack : ShadowStack) : Option Value :=
  stack.findSome? List.head?

/-- How many frames there are from the innermost one that has a value outwards. -/
def owner (stack : ShadowStack) : Nat :=
  (stack.dropWhile List.isEmpty).length

/-- Binds the name in the innermost frame. -/
def bind (value : Value) : ShadowStack → ShadowStack
  | [] => []
  | values :: outer => (value :: values) :: outer

/-- Binds the name in the innermost frame that has a value. -/
def rebind (value : Value) : ShadowStack → ShadowStack
  | [] => []
  | [] :: outer => [] :: rebind value outer
  | (latest :: earlier) :: outer => (value :: latest :: earlier) :: outer

/-- Closes the innermost frame, unless it is the last one. -/
def close : ShadowStack → ShadowStack
  | _ :: next :: outer => next :: outer
  | stack => stack

/-- The shadow stack of a name behind an operation. -/
def next (name : String) (stack : ShadowStack) : ScopeOperation → ShadowStack
  | .lookup _ => stack
  | .define known value => if known = name then stack.bind value else stack
  | .assign known value => if known = name then stack.rebind value else stack
  | .openFrame => [] :: stack
  | .closeFrame => stack.close

/-- The shadow stack of a name behind some operations on a scope without bindings. -/
def behind (name : String) (operations : List ScopeOperation) : ShadowStack :=
  operations.foldl (next name) [[]]

/-- The values that a name is assigned, the first one first, where it is one of the `outermost`
frames that has the name. -/
def assignedOutside (name : String) (outermost : Nat) :
    ShadowStack → List ScopeOperation → List Value
  | _, [] => []
  | stack, operation :: later =>
      let others := assignedOutside name outermost (stack.next name operation) later
      match operation with
      | .assign known value =>
          if known = name ∧ 0 < stack.owner ∧ stack.owner ≤ outermost then value :: others
          else others
      | _ => others

variable {name : String} {inner outer stack : ShadowStack}

theorem latest?_cons (values : List Value) (stack : ShadowStack) :
    latest? (values :: stack) = values.head?.or stack.latest? := by
  rw [latest?, List.findSome?_cons]
  cases values.head? <;> rfl

theorem owner_le (stack : ShadowStack) : stack.owner ≤ stack.length :=
  (List.dropWhile_sublist List.isEmpty).length_le

theorem bind_append (nonempty : inner ≠ []) (value : Value) (outer : ShadowStack) :
    bind value (inner ++ outer) = inner.bind value ++ outer := by
  cases inner with
  | nil => exact (nonempty rfl).elim
  | cons values inner => rfl

theorem length_bind (value : Value) (stack : ShadowStack) :
    (stack.bind value).length = stack.length := by
  cases stack <;> rfl

theorem length_rebind (value : Value) (stack : ShadowStack) :
    (stack.rebind value).length = stack.length := by
  fun_induction rebind value stack with
  | case1 => rfl
  | case2 outer ih => rw [List.length_cons, ih, List.length_cons]
  | case3 => rfl

/-- A name is rebound in the inner frames if one of them has it, and in the outer ones otherwise. -/
theorem rebind_append (value : Value) (inner outer : ShadowStack) :
    (inner ++ outer).rebind value = inner.rebind value ++ outer ∧
        outer.length < (inner ++ outer).owner ∨
      (inner ++ outer).rebind value = inner ++ outer.rebind value ∧
        (inner ++ outer).owner = outer.owner := by
  induction inner with
  | nil => exact .inr ⟨rfl, rfl⟩
  | cons values inner ih =>
      cases values with
      | nil =>
          simp only [List.cons_append, rebind, owner, List.dropWhile_cons, List.isEmpty_nil,
            if_true, List.cons.injEq, true_and]
          exact ih
      | cons latest earlier =>
          refine .inl ⟨rfl, ?_⟩
          simp only [List.cons_append, owner, List.dropWhile_cons, List.isEmpty_cons,
            Bool.false_eq_true, if_false, List.length_cons, List.length_append]
          omega

/-- Rebinding sets what the name means, if it means anything. -/
theorem latest?_rebind (value : Value) (stack : ShadowStack) :
    (stack.rebind value).latest? = if 0 < stack.owner then some value else stack.latest? := by
  fun_induction rebind value stack with
  | case1 => rfl
  | case2 outer ih =>
      rw [latest?_cons, latest?_cons, ih]
      rfl
  | case3 latest earlier outer => rfl

theorem getLast?_cons_or {α : Type} (value : α) (values : List α) (other : Option α) :
    (value :: values).getLast?.or other = values.getLast?.or (some value) := by
  rw [List.getLast?_cons]
  cases values.getLast? <;> rfl

/-- Behind the operations that close all inner frames but one, the outer frames are there still, and
what the name means in them has changed by assignments only. -/
theorem exists_outer_of_levelAfter? (name : String) {level : Nat} {operations : List ScopeOperation}
    (closes : ScopeOperation.levelAfter? level operations = some 0)
    (isInner : inner.length = level + 1) (outer : ShadowStack) :
    ∃ (values : List Value) (outer' : ShadowStack),
      operations.foldl (next name) (inner ++ outer) = values :: outer' ∧
      outer'.length = outer.length ∧
      outer'.latest? = (assignedOutside name outer.length (inner ++ outer) operations).getLast?.or
        outer.latest? := by
  induction operations generalizing level inner outer with
  | nil =>
      cases closes
      obtain ⟨values, rfl⟩ := List.length_eq_one_iff.mp isInner
      exact ⟨values, outer, rfl, rfl, rfl⟩
  | cons operation later ih =>
      have nonempty : inner ≠ [] := List.ne_nil_of_length_eq_add_one isInner
      cases operation with
      | lookup known => exact ih closes isInner outer
      | define known value =>
          simp only [List.foldl_cons, assignedOutside, next]
          split
          · rw [bind_append nonempty]
            exact ih closes ((length_bind value inner).trans isInner) outer
          · exact ih closes isInner outer
      | assign known value =>
          simp only [List.foldl_cons, assignedOutside, next]
          by_cases same : known = name
          · simp only [same, if_true, true_and]
            rcases rebind_append value inner outer with ⟨rebound, isInside⟩ | ⟨rebound, sameOwner⟩
            · have notOutside : ¬(0 < (inner ++ outer).owner ∧
                  (inner ++ outer).owner ≤ outer.length) := by omega
              rw [rebound, if_neg notOutside]
              exact ih closes ((length_rebind value inner).trans isInner) outer
            · obtain ⟨values, outer', isBehind, sameLength, isLatest⟩ :=
                ih closes isInner (outer.rebind value)
              rw [length_rebind] at sameLength isLatest
              refine ⟨values, outer', by rw [rebound, isBehind], sameLength, ?_⟩
              rw [isLatest, rebound, latest?_rebind, sameOwner]
              by_cases isBound : 0 < outer.owner
              · rw [if_pos isBound, if_pos ⟨isBound, outer.owner_le⟩, getLast?_cons_or]
              · rw [if_neg isBound, if_neg fun both => isBound both.1]
          · simp only [same, if_false, false_and]
            exact ih closes isInner outer
      | openFrame =>
          have isInner' : ([] :: inner : ShadowStack).length = level + 1 + 1 :=
            congrArg (· + 1) isInner
          exact ih closes isInner' outer
      | closeFrame =>
          cases level with
          | zero => cases closes
          | succ level =>
              -- Two frames at least are open inside, so that the inner one is really closed.
              rcases inner with _ | ⟨values, _ | ⟨next, inner⟩⟩
              · cases isInner
              · cases isInner
              · have isInner' : (next :: inner).length = level + 1 := Nat.succ.inj isInner
                exact ih closes isInner' outer

/-- What a block in a frame of its own leaves of the meaning of a name. -/
theorem latest?_block {block : List ScopeOperation} (isBlock : ScopeOperation.IsBlock block)
    (nonempty : stack ≠ []) (name : String) :
    latest? ((.openFrame :: block ++ [ScopeOperation.closeFrame]).foldl (next name) stack) =
      (assignedOutside name stack.length ([] :: stack) block).getLast?.or stack.latest? := by
  have isInner : ([[]] : ShadowStack).length = 0 + 1 := rfl
  obtain ⟨values, outer, isBehind, sameLength, isLatest⟩ :=
    exists_outer_of_levelAfter? name isBlock isInner stack
  rw [List.cons_append, List.foldl_cons, List.foldl_append]
  have isBehind : block.foldl (next name) (stack.next name .openFrame) = values :: outer := isBehind
  have isLatest : outer.latest? =
      (assignedOutside name stack.length ([] :: stack) block).getLast?.or stack.latest? := isLatest
  rw [isBehind, ← isLatest]
  cases outer with
  | nil => exact (nonempty (List.eq_nil_of_length_eq_zero sameLength.symm)).elim
  | cons first outer => rfl

/-- The last frame stays, and keeps the values that it has. -/
theorem exists_next_concat (name : String) (inner : ShadowStack) (values : List Value)
    (operation : ScopeOperation) :
    ∃ inner' more, next name (inner ++ [values]) operation = inner' ++ [more ++ values] := by
  cases operation with
  | lookup known => exact ⟨inner, [], rfl⟩
  | define known value =>
      rw [next]
      split
      · cases inner with
        | nil => exact ⟨[], [value], rfl⟩
        | cons top inner => exact ⟨(value :: top) :: inner, [], rfl⟩
      · exact ⟨inner, [], rfl⟩
  | assign known value =>
      rw [next]
      split
      · rcases rebind_append value inner [values] with ⟨rebound, -⟩ | ⟨rebound, -⟩
        · exact ⟨inner.rebind value, [], rebound⟩
        · cases values with
          | nil => exact ⟨inner, [], rebound⟩
          | cons latest earlier => exact ⟨inner, [value], rebound⟩
      · exact ⟨inner, [], rfl⟩
  | openFrame => exact ⟨[] :: inner, [], rfl⟩
  | closeFrame =>
      rcases inner with _ | ⟨top, _ | ⟨below, inner⟩⟩
      · exact ⟨[], [], rfl⟩
      · exact ⟨[], [], rfl⟩
      · exact ⟨below :: inner, [], rfl⟩

theorem exists_foldl_concat (name : String) (inner : ShadowStack) (values : List Value)
    (operations : List ScopeOperation) :
    ∃ inner' more,
      operations.foldl (next name) (inner ++ [values]) = inner' ++ [more ++ values] := by
  induction operations generalizing inner values with
  | nil => exact ⟨inner, [], rfl⟩
  | cons operation later ih =>
      obtain ⟨inner', more, isNext⟩ := exists_next_concat name inner values operation
      obtain ⟨inner'', more', isBehind⟩ := ih inner' (more ++ values)
      exact ⟨inner'', more' ++ more, by rw [List.foldl_cons, isNext, isBehind, List.append_assoc]⟩

end ShadowStack

/-- Every frame of a scope binds the name to the latest value of its list. -/
def Scope.Follows (scope : Scope Value) (name : String) (stack : ShadowStack) : Prop :=
  scope.frames.map (·.get? name) = stack.map List.head?

namespace Scope

variable {scope : Scope Value} {name : String} {stack : ShadowStack}

theorem follows_empty (name : String) : (empty : Scope Value).Follows name [[]] := rfl

theorem Follows.get? (follows : scope.Follows name stack) : scope.get? name = stack.latest? := by
  have found (frames : List (Table Value)) :
      frames.findSome? (·.get? name) = (frames.map (·.get? name)).findSome? id := by
    rw [List.findSome?_map]
    rfl
  rw [Scope.get?, found, follows, List.findSome?_map]
  rfl

theorem Follows.define (follows : scope.Follows name stack) (known : String) (value : Value) :
    (scope.define known value).Follows name (if known = name then stack.bind value else stack) := by
  cases stack with
  | nil => cases follows
  | cons values outer =>
      obtain ⟨isTop, isBelow⟩ := List.cons.inj follows
      have isDefined : (scope.define known value).frames =
          scope.current.insert known value :: scope.outer := rfl
      rw [Follows, isDefined, List.map_cons, Table.get?_insert]
      split
      · exact congrArg (List.cons (some value)) isBelow
      · exact congrArg₂ List.cons isTop isBelow

/-- Rebinding finds the frame that is the innermost one with a value. Where no frame has one,
nothing is rebound. -/
theorem map_get?_assignIn {frames : List (Table Value)}
    (follows : frames.map (·.get? name) = stack.map List.head?) (known : String) (value : Value) :
    ((assignIn known value frames).getD frames).map (·.get? name) =
      (if known = name then stack.rebind value else stack).map List.head? := by
  induction frames generalizing stack with
  | nil =>
      rw [List.map_eq_nil_iff.mp follows.symm]
      split <;> rfl
  | cons frame frames ih =>
      cases stack with
      | nil => cases follows
      | cons values outer =>
          obtain ⟨isTop, isBelow⟩ := List.cons.inj follows
          have isTop : frame.get? name = values.head? := isTop
          have below := ih isBelow
          have isRest : (assignIn known value (frame :: frames)).getD (frame :: frames) =
              if frame.contains known then frame.insert known value :: frames
              else frame :: (assignIn known value frames).getD frames := by
            rw [assignIn]
            split
            · rfl
            · cases assignIn known value frames <;> rfl
          rw [isRest]
          by_cases isHere : frame.contains known = true
          · rw [if_pos isHere, List.map_cons, Table.get?_insert]
            split
            · rename_i same
              subst same
              cases values with
              | nil => simp [Table.contains, isTop] at isHere
              | cons latest earlier => exact congrArg (List.cons (some value)) isBelow
            · exact congrArg₂ List.cons isTop isBelow
          · rw [if_neg isHere, List.map_cons, below]
            split
            · rename_i same
              subst same
              have isUnbound := Table.get?_of_not_contains isHere
              cases values with
              | nil => exact congrArg (· :: _) isUnbound
              | cons latest earlier =>
                  rw [isTop] at isUnbound
                  cases isUnbound
            · exact congrArg (· :: _) isTop

theorem frames_getD_assign? (scope : Scope Value) (name : String) (value : Value) :
    ((scope.assign? name value).getD scope).frames =
      (assignIn name value scope.frames).getD scope.frames := by
  rw [← frames_assign?]
  cases scope.assign? name value <;> rfl

theorem Follows.pop (follows : scope.Follows name stack) : scope.pop.Follows name stack.close := by
  obtain ⟨current, outer⟩ := scope
  cases outer with
  | nil =>
      rcases stack with _ | ⟨values, _ | ⟨next, below⟩⟩
      · exact follows
      · exact follows
      · cases (List.cons.inj follows).2
  | cons frame frames =>
      rcases stack with _ | ⟨values, _ | ⟨next, below⟩⟩
      · cases follows
      · cases (List.cons.inj follows).2
      · exact (List.cons.inj follows).2

/-- What an operation does to a scope, it does to the shadow stacks of all names. -/
theorem Follows.perform {machine : Machine} (follows : machine.scope.Follows name stack)
    (operation : ScopeOperation) :
    (operation.perform.after machine).scope.Follows name (stack.next name operation) := by
  cases operation with
  | lookup known =>
      rw [Exec.after, ScopeOperation.lookup_perform_apply]
      cases machine.scope.get? known <;> exact follows
  | define known value => exact follows.define known value
  | assign known value =>
      have isLater : ((ScopeOperation.assign known value).perform.after machine).scope =
          (machine.scope.assign? known value).getD machine.scope := by
        rw [Exec.after, ScopeOperation.assign_perform_apply]
        cases machine.scope.assign? known value <;> rfl
      rw [Follows, isLater, frames_getD_assign?]
      exact map_get?_assignIn follows known value
  | openFrame => exact congrArg (List.cons none) follows
  | closeFrame => exact follows.pop

theorem Follows.performAll {machine : Machine} (follows : machine.scope.Follows name stack)
    (operations : List ScopeOperation) :
    (machine.performAll operations).scope.Follows name
      (operations.foldl (ShadowStack.next name) stack) := by
  induction operations generalizing machine stack with
  | nil => exact follows
  | cons operation later ih => exact ih (follows.perform operation)

/-- The lowest frame. -/
def global {α : Type} (scope : Scope α) : Table α :=
  scope.outer.getLast?.getD scope.current

theorem exists_frames_concat (scope : Scope Value) :
    ∃ inner, scope.frames = inner ++ [scope.global] := by
  obtain ⟨current, outer⟩ := scope
  rcases List.eq_nil_or_concat outer with rfl | ⟨inner, global, rfl⟩
  · exact ⟨[], rfl⟩
  · exact ⟨current :: inner, by simp [frames, Scope.global]⟩

theorem Follows.get?_global {inner : ShadowStack} {values : List Value}
    (follows : scope.Follows name (inner ++ [values])) :
    scope.global.get? name = values.head? := by
  obtain ⟨frames, isFrames⟩ := scope.exists_frames_concat
  rw [Follows, isFrames, List.map_append, List.map_append] at follows
  exact List.singleton_inj.mp (List.append_inj' follows rfl).2

/-- The lowest frame is never closed: whatever is done, a name that it has it still has. -/
theorem Follows.contains_global {machine : Machine} (follows : machine.scope.Follows name stack)
    (isBound : machine.scope.global.contains name = true) (operations : List ScopeOperation) :
    (machine.performAll operations).scope.global.contains name = true := by
  have nonempty : stack ≠ [] := by
    rintro rfl
    cases follows
  rw [← List.dropLast_concat_getLast nonempty] at follows
  have later := follows.performAll operations
  obtain ⟨inner, more, isBehind⟩ := ShadowStack.exists_foldl_concat name stack.dropLast
    (stack.getLast nonempty) operations
  rw [isBehind] at later
  rw [Table.contains, follows.get?_global, List.isSome_head?] at isBound
  rw [Table.contains, later.get?_global, List.isSome_head?]
  exact List.append_ne_nil_of_right_ne_nil more isBound

end Scope

/-- Whatever was done to a scope that had no bindings at first, a name means the latest value that
it was bound to in the innermost frame that has it, and looking it up fails if there is no such
frame. Behind a block in a frame of its own each name means what it meant before, unless it was
assigned in the block where a frame outside of it had the name: then it means what was assigned last
in this way. An operation fails exactly if it needs a name that is bound nowhere, and then nothing
has changed. The lowest frame is never closed. -/
theorem scopes_follow_shadow_stacks (streams : Streams) (depth : Nat)
    (operations : List ScopeOperation) :
    let reached := (Machine.fresh streams depth).performAll operations
    (∀ name, Exec.lookup name reached =
      match (ShadowStack.behind name operations).latest? with
      | some value => .ok value reached
      | none => .error (.error (.undefinedVariable name)) reached) ∧
    (∀ block, ScopeOperation.IsBlock block → ∀ name,
      (reached.performAll (.openFrame :: block ++ [.closeFrame])).scope.get? name =
        (ShadowStack.assignedOutside name reached.scope.frames.length
          ([] :: ShadowStack.behind name operations) block).getLast?.or
            (reached.scope.get? name)) ∧
    (∀ (operation : ScopeOperation) stop later, operation.perform reached = .error stop later ↔
      later = reached ∧ ∃ name, operation.required? = some name ∧
        reached.scope.get? name = none ∧ stop = .error (.undefinedVariable name)) ∧
    (reached.scope.outer = [] → reached.performAll [.closeFrame] = reached) ∧
    ∀ name later, reached.scope.global.contains name = true →
      (reached.performAll later).scope.global.contains name = true := by
  intro reached
  have follows (name : String) :
      reached.scope.Follows name (ShadowStack.behind name operations) :=
    Scope.Follows.performAll (Scope.follows_empty name) operations
  have sameLength (name : String) :
      (ShadowStack.behind name operations).length = reached.scope.frames.length := by
    simpa using (congrArg List.length (follows name)).symm
  refine ⟨fun name => ?_, fun block isBlock name => ?_,
    fun operation stop later => operation.perform_eq_error_iff reached later stop, fun isLast => ?_,
    fun name later isBound => (follows name).contains_global isBound later⟩
  · have meant := Exec.lookup_apply name reached
    rw [(follows name).get?] at meant
    exact meant
  · have nonempty : ShadowStack.behind name operations ≠ [] := by
      rw [← List.length_pos_iff, sameLength name]
      exact Nat.succ_pos _
    rw [((follows name).performAll _).get?, ShadowStack.latest?_block isBlock nonempty,
      sameLength name, (follows name).get?]
  · have same : reached.scope.pop = reached.scope := by rw [Scope.pop, isLast]
    change { reached with scope := reached.scope.pop } = reached
    rw [same]

/-- In the block, `x` is assigned outside, then hidden, and assigned once more; `y` is assigned
outside from a frame of its own, and `z` is bound nowhere. A frame is closed too often first. -/
theorem scopes_follow_shadow_stacks_hidden :
    let reached := (Machine.fresh (.ofInput [] none) 0).performAll
      [.closeFrame, .define "x" (.integer 1), .define "y" (.integer 1)]
    let block : List ScopeOperation :=
      [.assign "x" (.integer 2), .define "x" (.integer 3), .assign "x" (.integer 4),
        .openFrame, .assign "y" (.integer 5), .closeFrame, .assign "z" .nil]
    ScopeOperation.IsBlock block ∧
    (reached.performAll (.openFrame :: block ++ [.closeFrame])).scope.get? "x" =
      some (.integer 2) ∧
    (reached.performAll (.openFrame :: block ++ [.closeFrame])).scope.get? "y" =
      some (.integer 5) := by
  intro reached block
  obtain ⟨-, behindBlock, -⟩ := scopes_follow_shadow_stacks (.ofInput [] none) 0
    [.closeFrame, .define "x" (.integer 1), .define "y" (.integer 1)]
  have isBlock : ScopeOperation.IsBlock block := by rfl
  exact ⟨isBlock, behindBlock block isBlock "x", behindBlock block isBlock "y"⟩

end Mel

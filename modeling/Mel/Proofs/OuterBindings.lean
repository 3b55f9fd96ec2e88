import Mel.Proofs.Scopes
import Mel.Proofs.StepLaw

/-!
# Outer bindings

A function sees the variables of its callers and binds none of them: its assignments and its loops
bind in frames of their own. Only reading a line rebinds a variable in the frame that has it.

Appending rebinds a variable as well, and what it binds is the array that was found in this
variable before the other arguments were evaluated. This changes nothing either, because no function
that the arguments call has rebound the variable in the meantime. So a call of append is followed
as a whole, from the evaluation of its first argument on: of its last step alone, no law holds that
compares the machine before a step with the one behind it.
-/

namespace Mel

theorem Scope.pop_of_outer {α : Type} {before later : Scope α}
    (outer : later.outer = before.frames) : later.pop = before := by
  rw [pop, outer]
  rfl

def Event.isLineRead : Event → Bool
  | .lineRead _ => true
  | _ => false

namespace Machine

/-- How many lines were read on this machine. Embedded programs read theirs on others. -/
def linesRead (machine : Machine) : Nat :=
  machine.history.countP Event.isLineRead

/-- What there is to see of the bindings is as it was, unless a line was read. -/
structure SameUnlessRead {α : Type} (view : Scope Value → α) (before later : Machine) : Prop where
  lines : before.linesRead ≤ later.linesRead
  same : later.linesRead = before.linesRead → view later.scope = view before.scope

variable {α : Type} {view : Scope Value → α} {before later : Machine}

theorem SameUnlessRead.of_same (lines : later.linesRead = before.linesRead)
    (same : view later.scope = view before.scope) : before.SameUnlessRead view later :=
  ⟨Nat.le_of_eq lines.symm, fun _ => same⟩

theorem SameUnlessRead.of_read (read : before.linesRead < later.linesRead) :
    before.SameUnlessRead view later :=
  ⟨Nat.le_of_lt read, fun noLine => absurd noLine (Nat.ne_of_gt read)⟩

theorem SameUnlessRead.outer (same : before.SameUnlessRead id later) :
    before.SameUnlessRead Scope.outer later :=
  ⟨same.lines, fun noLine => congrArg Scope.outer (same.same noLine)⟩

instance (view : Scope Value → α) : IsPreorder Machine (SameUnlessRead view) where
  refl _ := .of_same rfl rfl
  trans first second third early late := by
    refine ⟨Nat.le_trans early.lines late.lines, fun noLine => ?_⟩
    have noLineEarly : second.linesRead = first.linesRead :=
      Nat.le_antisymm (noLine ▸ late.lines) early.lines
    rw [late.same (noLine.trans noLineEarly.symm), early.same noLineEarly]

end Machine

namespace Exec

variable {α β : Type}

/-- Unless it reads a line, the step leaves all bindings as they were. -/
abbrev KeepsScope (step : Exec α) : Prop := Keeps (Machine.SameUnlessRead id) step

/-- Unless it reads a line, the step leaves all bindings below the current frame as they were. -/
abbrev KeepsOuter (step : Exec α) : Prop := Keeps (Machine.SameUnlessRead Scope.outer) step

theorem KeepsScope.outer {step : Exec α} (kept : KeepsScope step) : KeepsOuter step :=
  fun machine => (kept machine).outer

section

variable {view : Scope Value → α}

theorem keepsView_pure (result : β) : Keeps (Machine.SameUnlessRead view) (pure result : Exec β) :=
  refl

end

theorem keepsScope_ofExcept (result : Except RuntimeError α) : KeepsScope (ofExcept result) := by
  cases result <;> exact refl

theorem keepsScope_lookup (name : String) : KeepsScope (lookup name) := by
  intro machine
  rw [after, lookup_apply]
  cases machine.scope.get? name <;> exact refl machine

theorem keepsScope_textOf (value : Value) : KeepsScope (textOf value) := by
  intro machine
  rw [after, textOf_apply]
  cases machine.heap.content? value <;> exact refl machine

theorem keepsScope_newArray (items : List Value) : KeepsScope (newArray items) :=
  fun _ => .of_same rfl rfl

theorem keepsScope_itemsOf (ref : ArrayRef) : KeepsScope (itemsOf ref) :=
  refl

theorem keepsScope_isTruthy (value : Value) : KeepsScope (isTruthy value) :=
  refl

theorem keepsScope_write (text : String) : KeepsScope (write text) := by
  intro machine
  rw [after, write_apply, machineOf_writeResult]
  exact .of_same rfl rfl

theorem keepsScope_put (character : Char) : KeepsScope (put character) :=
  fun _ => .of_same rfl rfl

theorem keepsScope_takeOut (direction : Direction) (count : Nat) :
    KeepsScope (takeOut direction count) := by
  intro machine
  rw [after, takeOut_apply]
  split
  · exact refl machine
  · have taken : machine.SameUnlessRead id (behindTake direction count machine) := .of_same rfl rfl
    exact IsTrans.trans _ _ _ taken (keepsScope_write _ _)

theorem keepsScope_defineFunction (name : String) (function : Function) :
    KeepsScope (defineFunction name function) :=
  fun _ => .of_same rfl rfl

theorem keepsOuter_define (name : String) (value : Value) : KeepsOuter (define name value) :=
  fun _ => .of_same rfl rfl

theorem keepsOuter_defineAll (names : List String) (values : List Value) :
    KeepsOuter (defineAll names values) := by
  induction names generalizing values with
  | nil => exact refl
  | cons name names ih =>
      cases values with
      | nil => exact refl
      | cons value values => exact (keepsOuter_define name value).bind fun _ => ih values

/-- However a line is used, it was read; and without a line nothing is assigned. -/
theorem keepsOuter_input (name : String) :
    KeepsOuter (readLine >>= fun line => assign name (.string line)) := by
  intro machine
  have ended := readLine_apply machine
  rw [behindRead] at ended
  cases isDelivery : machine.streams.delivery with
  | failed _ | atEnd =>
      rw [isDelivery] at ended
      rw [after_of_error (bind_of_error ended)]
      exact .of_same rfl rfl
  | line line =>
      have read : machine.linesRead <
          (Event.lineRead line :: machine.history).countP Event.isLineRead := by
        rw [Machine.linesRead, List.countP_cons_of_pos rfl]
        exact Nat.lt_succ_self _
      rw [isDelivery, textRead] at ended
      cases isText : Text.ofLine? line with
      | none =>
          rw [isText] at ended
          rw [after_of_error (bind_of_error ended)]
          exact .of_read read
      | some text =>
          rw [isText] at ended
          rw [after, bind_of_ok ended, assign_apply]
          split <;> exact .of_read read

/-- Looking at the text of a value binds nothing and reads no line. -/
theorem LooksAt.keepsScope {value : Value} {step : Exec α} (looks : LooksAt value step) :
    KeepsScope step := by
  induction looks with
  | pure result => exact refl
  | fail _ _ => exact refl
  | textOf _ ih => exact (keepsScope_textOf value).bind ih

theorem keepsScope_output (value : Value) : KeepsScope (output value) := by
  apply (looksAt_characterOf? value).keepsScope.bind
  rintro (_ | character)
  · exact refl
  · exact (keepsScope_put character).bind fun _ => keepsScope_write _

theorem keepsScope_outputMany (direction : Direction) (value : Value) :
    KeepsScope (outputMany direction value) := by
  rw [outputMany_eq]
  exact (looksAt_countOf value).keepsScope.bind fun count => keepsScope_takeOut direction count

/-- A step in a frame of its own keeps all bindings, as everything is below this frame. -/
theorem keepsScope_between {enter leave : Machine → Machine} {step : Exec α}
    (enters : ∀ machine, (enter machine).scope = machine.scope.push ∧
      (enter machine).history = machine.history)
    (leaves : ∀ machine, (leave machine).scope = machine.scope.pop ∧
      (leave machine).history = machine.history)
    (kept : KeepsOuter step) : KeepsScope (between enter leave step) := by
  intro machine
  have keptInside := kept (enter machine)
  have linesBefore : (enter machine).linesRead = machine.linesRead :=
    congrArg (List.countP Event.isLineRead) (enters machine).2
  rw [after_between]
  generalize step.after (enter machine) = inside at keptInside
  have linesLater : (leave inside).linesRead = inside.linesRead :=
    congrArg (List.countP Event.isLineRead) (leaves inside).2
  have lines := keptInside.lines
  rw [linesBefore] at lines
  refine ⟨linesLater ▸ lines, fun noLine => ?_⟩
  have outer := keptInside.same (linesLater.symm.trans (noLine.trans linesBefore.symm))
  rw [(enters machine).1] at outer
  exact (leaves inside).1.trans (Scope.pop_of_outer outer)

theorem keepsScope_inFrame {step : Exec α} (kept : KeepsOuter step) : KeepsScope (inFrame step) :=
  keepsScope_between (fun _ => ⟨rfl, rfl⟩) (fun _ => ⟨rfl, rfl⟩) kept

theorem keepsScope_inCall {step : Exec α} (kept : KeepsOuter step) : KeepsScope (inCall step) :=
  keepsScope_between (fun _ => ⟨rfl, rfl⟩) (fun _ => ⟨rfl, rfl⟩) kept

theorem KeepsOuter.catching {step handler : Exec α} (kept : KeepsOuter step)
    (keptHandler : KeepsOuter handler) : KeepsOuter (catching step handler) :=
  fun machine => IsTrans.trans _ _ _ (kept machine) (keptHandler.after_catching step machine)

theorem keepsView_unlessLimited {view : Scope Value → β} {step : Exec α}
    (kept : Keeps (Machine.SameUnlessRead view) step) (error : Nat → RuntimeError)
    (limit : Option Nat) :
    Keeps (Machine.SameUnlessRead view) (unlessLimited error limit step) := by
  cases limit with
  | none => exact kept
  | some limit => exact fun _ => .of_same rfl rfl

theorem KeepsScope.unlessDeep {step : Exec α} (kept : KeepsScope step) (options : Options)
    (error : Nat → RuntimeError) : KeepsScope (unlessDeep options error step) :=
  fun machine => keepsView_unlessLimited kept error (depthExceeded options machine.depth) machine

theorem keepsScope_runEmbedded (execute : Statement → Exec Completion) (block : Block) :
    KeepsScope (runEmbedded execute block) := by
  intro machine
  rw [after, runEmbedded_apply]
  rcases executeAll execute block (.fresh machine.streams (machine.depth + 1)) with
    ⟨completion, inner⟩ | ⟨error | reason, inner⟩ <;> exact .of_same rfl rfl

/-- The array that a value stands for as a target: itself, or the one in the variable it names. -/
def target? (machine : Machine) : Value → Option ArrayRef
  | .array ref => some ref
  | .string name =>
      match machine.scope.get? name with
      | some (.array ref) => some ref
      | _ => none
  | _ => none

/-- The machine behind items that were put at the end of an array. -/
def behindExtend (ref : ArrayRef) (items : List Value) (machine : Machine) : Machine :=
  { machine with
    heap := machine.heap.extend ref items.toArray
    history := .arrayExtended ref items :: machine.history }

/-- How appending ends. Only an array that came from a variable is bound to this variable again: one
that was found by the name of its variable is still there. -/
inductive Appended (variableName : Option String) (machine : Machine) :
    List Value → EStateM.Result Stop Machine Value → Prop where
  | refused (values : List Value) (error : RuntimeError) :
      Appended variableName machine values (.error (.error error) machine)
  | inPlace {target : Value} {items : List Value} {ref : ArrayRef}
      (isTarget : target? machine target = some ref)
      (noVariable : variableName = none ∨ ∃ name, target = .string name) :
      Appended variableName machine (target :: items) (.ok .nil (behindExtend ref items machine))
  | rebound {name : String} {ref : ArrayRef} {items : List Value} {scope : Scope Value}
      (isVariable : variableName = some name)
      (assigned : machine.scope.assign? name (.array ref) = some scope) :
      Appended variableName machine (.array ref :: items)
        (.ok .nil { behindExtend ref items machine with scope })
  | unbound {name : String} {ref : ArrayRef} {items : List Value}
      (isVariable : variableName = some name)
      (unbound : machine.scope.assign? name (.array ref) = none) :
      Appended variableName machine (.array ref :: items)
        (.error (.error (.undefinedVariable name)) (behindExtend ref items machine))

theorem assign_of_get? {name : String} {value : Value} {machine : Machine}
    (found : machine.scope.get? name = some value) :
    assign name value machine = .ok () machine := by
  rw [assign_apply, Scope.assign?_of_get? found]

theorem appendTarget_string (variableName : Option String) (name : String) (machine : Machine) :
    appendTarget variableName (.string name) machine =
      match machine.scope.get? name with
      | some (.array ref) => .ok (ref, some name) machine
      | some other => .error (.error (.appendToVariable name other.type)) machine
      | none => .error (.error (.undefinedVariable name)) machine := by
  rw [appendTarget, bind_apply, lookup_apply]
  cases machine.scope.get? name with
  | none => rfl
  | some value => cases value <;> rfl

/-- The array that a value stands for as a target, and the variable to bind it to: the one that the
value came with, or the one that the array was found in. -/
inductive IsTarget (variableName : Option String) (machine : Machine) :
    Value → ArrayRef → Option String → Prop where
  | array (ref : ArrayRef) : IsTarget variableName machine (.array ref) ref variableName
  | named {name : String} {ref : ArrayRef} (bound : machine.scope.get? name = some (.array ref)) :
      IsTarget variableName machine (.string name) ref (some name)

theorem IsTarget.found {variableName boundTo : Option String} {target : Value} {ref : ArrayRef}
    {machine : Machine} (isTarget : IsTarget variableName machine target ref boundTo) :
    appendTarget variableName target machine = .ok (ref, boundTo) machine := by
  cases isTarget with
  | array => rfl
  | named bound => rw [appendTarget_string, bound]

theorem appendTarget_ends (variableName : Option String) (target : Value) (machine : Machine) :
    (∃ error, appendTarget variableName target machine = .error (.error error) machine) ∨
      ∃ ref boundTo, IsTarget variableName machine target ref boundTo := by
  cases target with
  | array ref => exact .inr ⟨ref, variableName, .array ref⟩
  | string name =>
      rw [appendTarget_string]
      split
      · rename_i ref bound
        exact .inr ⟨ref, some name, .named bound⟩
      · exact .inl ⟨_, rfl⟩
      · exact .inl ⟨_, rfl⟩
  | _ => exact .inl ⟨_, rfl⟩

/-- The last step of appending: the array is bound to the variable that it came from. -/
def writeBack (ref : ArrayRef) : Option String → Exec Unit
  | some name => assign name (.array ref)
  | none => pure ()

/-- Once the array is known, it is extended and then written back. -/
theorem append_of_isTarget {variableName boundTo : Option String} {target : Value} {ref : ArrayRef}
    {machine : Machine} (isTarget : IsTarget variableName machine target ref boundTo) (item : Value)
    (items : List Value) :
    append variableName (target :: item :: items) machine =
      (writeBack ref boundTo >>= fun _ => pure .nil : Exec Value)
        (behindExtend ref (item :: items) machine) := by
  rw [append, bind_of_ok isTarget.found]
  cases boundTo <;> rfl

/-- Appending is refused and has changed nothing, or there is an array to extend. -/
theorem append_ends (variableName : Option String) (values : List Value) (machine : Machine) :
    (∃ error, append variableName values machine = .error (.error error) machine) ∨
      ∃ target item items ref boundTo, values = target :: item :: items ∧
        IsTarget variableName machine target ref boundTo := by
  rcases values with _ | ⟨target, _ | ⟨item, items⟩⟩
  · exact .inl ⟨_, rfl⟩
  · exact .inl ⟨_, rfl⟩
  · rcases appendTarget_ends variableName target machine with
      ⟨error, refused⟩ | ⟨ref, boundTo, isTarget⟩
    · exact .inl ⟨error, bind_of_error refused⟩
    · exact .inr ⟨target, item, items, ref, boundTo, rfl, isTarget⟩

/-- Every call of `append` ends in one of these ways. -/
theorem append_appended (variableName : Option String) (values : List Value) (machine : Machine) :
    Appended variableName machine values (append variableName values machine) := by
  rcases append_ends variableName values machine with
    ⟨error, refused⟩ | ⟨target, item, items, ref, boundTo, rfl, isTarget⟩
  · rw [refused]
    exact .refused _ _
  · have sameScope : (behindExtend ref (item :: items) machine).scope = machine.scope := rfl
    rw [append_of_isTarget isTarget]
    cases isTarget with
    | array ref =>
        cases variableName with
        | none => exact .inPlace rfl (.inl rfl)
        | some name =>
            rw [writeBack, bind_apply, assign_apply, sameScope]
            cases assigned : machine.scope.assign? name (.array ref) with
            | none => exact .unbound rfl assigned
            | some scope => exact .rebound rfl assigned
    | @named name _ bound =>
        have stillBound : (behindExtend ref (item :: items) machine).scope.get? name =
            some (.array ref) := bound
        rw [writeBack, bind_of_ok (assign_of_get? stillBound)]
        refine .inPlace ?_ (.inr ⟨name, rfl⟩)
        rw [target?, bound]

theorem keepsScope_length (arguments : List Value) : KeepsScope (length arguments) := by
  simp only [length]
  split
  · exact refl
  · exact (keepsScope_itemsOf _).bind fun _ => keepsView_pure _
  · exact refl
  · exact refl

theorem keepsScope_getItem (arguments : List Value) : KeepsScope (getItem arguments) := by
  simp only [getItem]
  split
  · split
    · exact refl
    · split
      · split <;> exact refl
      · apply (keepsScope_itemsOf _).bind
        intro items
        split <;> exact refl
      · exact refl
  · exact refl
  · exact refl

theorem keepsScope_list (arguments : List Value) : KeepsScope (list arguments) := by
  have written (value : Value) : KeepsScope (textOf value >>= fun text => write text >>= fun _ =>
      (pure .nil : Exec Value)) := by
    apply (keepsScope_textOf value).bind
    intro text
    exact (keepsScope_write text).bind fun _ => keepsView_pure _
  simp only [list]
  split
  · split
    · exact written _
    · exact written _
    · exact refl
  · exact refl

theorem keepsScope_reverse (arguments : List Value) : KeepsScope (reverse arguments) := by
  simp only [reverse]
  split
  · exact refl
  · exact (keepsScope_itemsOf _).bind fun _ => keepsScope_newArray _
  · exact refl
  · exact refl

theorem keepsScope_ofSentinel (constant : Sentinel) : KeepsScope (ofSentinel constant) := by
  cases constant with
  | empty => exact keepsScope_newArray []
  | _ => exact refl

section

variable {options : Options} {evaluate : Expr → Exec Value}
  {execute : Statement → Exec Completion}
  (evaluated : ∀ expression, KeepsScope (evaluate expression))
  (executed : ∀ statement, KeepsOuter (execute statement))
  (reads : ∀ {name machine value later}, evaluate (.variable name) machine = .ok value later →
    machine.scope.get? name = some value ∧ later = machine)

include evaluated in
theorem keepsScope_evaluateAll (expressions : List Expr) :
    KeepsScope (evaluateAll evaluate expressions) := by
  induction expressions with
  | nil => exact refl
  | cons expression expressions ih =>
      apply (evaluated expression).bind
      intro value
      exact ih.bind fun values => keepsView_pure _

include reads in
/-- The first argument is evaluated first, so a variable there was read before anything else. -/
theorem get?_firstVariable? {arguments : List Expr} {name : String} {value : Value}
    {values : List Value} {machine later : Machine}
    (isVariable : firstVariable? arguments = some name)
    (ended : evaluateAll evaluate arguments machine = .ok (value :: values) later) :
    machine.scope.get? name = some value := by
  rcases arguments with _ | ⟨first, rest⟩
  · cases isVariable
  · cases first with
    | «variable» variableName =>
        cases isVariable
        rw [evaluateAll, bind_apply] at ended
        cases first : evaluate (.variable name) machine with
        | error stop reached =>
            rw [first] at ended
            cases ended
        | ok found reached =>
            rw [first] at ended
            dsimp only at ended
            rw [bind_apply] at ended
            cases others : evaluateAll evaluate rest reached with
            | error stop reached =>
                rw [others] at ended
                cases ended
            | ok found' reached' =>
                rw [others] at ended
                cases ended
                exact (reads first).1
    | _ => cases isVariable

include evaluated reads in
/-- A target that came from a variable is still in it when the array is bound to it again, unless a
line was read, as the other arguments have kept the scope. -/
theorem keepsScope_append (arguments : List Expr) :
    KeepsScope (evaluateAll evaluate arguments >>= append (firstVariable? arguments)) := by
  intro machine
  have kept := keepsScope_evaluateAll evaluated arguments machine
  cases ended : evaluateAll evaluate arguments machine with
  | error stop reached =>
      rw [after_of_error ended] at kept
      rwa [after_of_error (bind_of_error ended)]
  | ok values reached =>
      rw [after_of_ok ended] at kept
      rw [after, bind_of_ok ended]
      have appended := append_appended (firstVariable? arguments) values reached
      generalize append (firstVariable? arguments) values reached = result at appended
      cases appended with
      | refused values error => exact kept
      | inPlace isTarget noVariable => exact ⟨kept.lines, kept.same⟩
      | unbound isVariable unbound => exact ⟨kept.lines, kept.same⟩
      | rebound isVariable assigned =>
          refine ⟨kept.lines, fun noLine => ?_⟩
          have sameScope : reached.scope = machine.scope := kept.same noLine
          have stillThere := get?_firstVariable? reads isVariable ended
          rw [sameScope, Scope.assign?_of_get? stillThere] at assigned
          exact (Option.some.inj assigned).symm

theorem keepsOuter_unlessReturned {rest : Exec Completion} (kept : KeepsOuter rest)
    (completion : Completion) : KeepsOuter (unlessReturned rest completion) := by
  cases completion with
  | normal => exact kept
  | returned value => exact refl

include executed in
theorem keepsOuter_executeAll (block : Block) : KeepsOuter (executeAll execute block) := by
  induction block with
  | nil => exact refl
  | cons statement statements ih =>
      exact (executed statement).bind fun completion => keepsOuter_unlessReturned ih completion

include executed in
/-- What a function binds is in the frame of its call, and what it finds below is kept. -/
theorem keepsScope_callFunction (name : String) (arguments : List Value) :
    KeepsScope (callFunction options execute name arguments) := by
  have called (function : Function) : KeepsScope (callBody execute function arguments) := by
    have body := (keepsOuter_defineAll function.parameters arguments).bind fun _ =>
      keepsOuter_executeAll executed function.body
    exact (keepsScope_inCall body).bind fun _ => keepsView_pure _
  have found : KeepsScope (functionOf name) := refl
  rw [callFunction_eq]
  apply found.bind
  rintro (_ | function)
  · exact refl
  · simp only [callFound]
    split
    · exact refl
    · exact (called function).unlessDeep _ _

theorem keepsScope_embedded (arguments : List Value) :
    KeepsScope (embedded options execute arguments) := by
  by_cases text : ∃ code, arguments = [.string code]
  · rcases text with ⟨code, rfl⟩
    rw [embedded_eq]
    apply KeepsScope.unlessDeep
    simp only [runText]
    cases readProgram options.policy code with
    | error error => exact refl
    | ok block => exact (keepsScope_runEmbedded execute block).bind fun _ => keepsView_pure _
  · rw [embedded_refused _ _ text]
    exact refl

include evaluated executed reads in
theorem keepsScope_call (callee : Callee) (arguments : List Expr) :
    KeepsScope (call options evaluate execute callee arguments) := by
  have values := keepsScope_evaluateAll evaluated arguments
  cases callee with
  | embedded => exact values.bind fun values => keepsScope_embedded values
  | named name =>
      simp only [call]
      cases Builtin.ofName? name with
      | none => exact values.bind fun values => keepsScope_callFunction executed name values
      | some builtin =>
          cases builtin with
          | append => exact keepsScope_append evaluated reads arguments
          | length => exact values.bind fun values => keepsScope_length values
          | getItem => exact values.bind fun values => keepsScope_getItem values
          | list => exact values.bind fun values => keepsScope_list values
          | reverse => exact values.bind fun values => keepsScope_reverse values

include evaluated executed reads in
theorem keepsScope_evaluateWith (expression : Expr) :
    KeepsScope (evaluateWith options evaluate execute expression) := by
  cases expression with
  | string text => exact refl
  | real literal => exact refl
  | sentinel constant => exact keepsScope_ofSentinel constant
  | bits digits => exact keepsScope_ofExcept _
  | array elements =>
      apply (keepsScope_evaluateAll evaluated elements).bind
      exact keepsScope_newArray
  | «variable» name => exact keepsScope_lookup name
  | negate operand => exact (evaluated operand).bind fun _ => keepsScope_ofExcept _
  | binary operator left right =>
      apply (evaluated left).bind
      intro leftValue
      exact (evaluated right).bind fun _ => keepsScope_ofExcept _
  | suffix operator operand trailing =>
      exact (evaluated operand).bind fun _ => keepsScope_ofExcept _
  | call callee arguments => exact keepsScope_call evaluated executed reads callee arguments
  | raise message => exact refl

include evaluated executed in
theorem keepsOuter_executeFallback (fallback : Fallback) :
    KeepsOuter (executeFallback evaluate execute fallback) := by
  fun_induction executeFallback evaluate execute fallback with
  | case1 => exact refl
  | case2 body => exact keepsOuter_executeAll executed body
  | case3 condition body fallback ih =>
      apply (evaluated condition).outer.bind
      intro value
      apply (keepsScope_isTruthy value).outer.bind
      rintro (_ | _)
      · exact ih
      · exact keepsOuter_executeAll executed body

theorem keepsOuter_whileLoop {limit : Option Nat} {condition : Exec Bool} {body : Exec Completion}
    (conditions : KeepsOuter condition) (bodies : KeepsOuter body) (fuel started : Nat) :
    KeepsOuter (whileLoop limit condition body fuel started) := by
  induction fuel generalizing started with
  | zero => exact refl
  | succ fuel ih =>
      rw [whileLoop_succ]
      apply conditions.bind
      rintro (_ | _)
      · exact refl
      · apply keepsView_unlessLimited
        exact bodies.bind fun completion => keepsOuter_unlessReturned (ih (started + 1)) completion

/-- The variable of a for loop is bound in the frame of the loop. -/
theorem keepsOuter_forEach {body : Exec Completion} (bodies : KeepsOuter body) (name : String)
    (items : List Value) : KeepsOuter (forEach name body items) := by
  induction items with
  | nil => exact refl
  | cons item items ih =>
      apply (keepsOuter_define name item).bind
      intro _
      exact bodies.bind fun completion => keepsOuter_unlessReturned ih completion

include evaluated executed reads in
theorem keepsScope_callStatement (fuel : Nat) (callee : Callee) (arguments : List Expr) :
    KeepsScope (executeWith options evaluate execute fuel (.call callee arguments)) := by
  simp only [executeWith, discard_eq]
  have called : KeepsScope (call options evaluate execute callee arguments) :=
    keepsScope_call evaluated executed reads callee arguments
  exact (called.bind fun _ => keepsView_pure ()).bind fun _ => keepsView_pure _

include evaluated executed in
theorem keepsScope_forLoop (fuel : Nat) (name : String) (range : Expr) (body : Block) :
    KeepsScope (executeWith options evaluate execute fuel (.forLoop name range body)) := by
  apply (evaluated range).bind
  intro value
  cases value with
  | array ref =>
      apply (keepsScope_itemsOf ref).bind
      intro items
      exact keepsScope_inFrame (keepsOuter_forEach (keepsOuter_executeAll executed body) name items)
  | _ => exact refl

include evaluated executed reads in
theorem keepsOuter_executeWith (fuel : Nat) (statement : Statement) :
    KeepsOuter (executeWith options evaluate execute fuel statement) := by
  have ended {α : Type} {step : Exec α} (kept : KeepsOuter step) :
      KeepsOuter (step >>= fun _ => pure Completion.normal) :=
    kept.bind fun _ => keepsView_pure _
  cases statement with
  | assign name value =>
      apply (evaluated value).outer.bind
      intro result
      exact ended (keepsOuter_define name result)
  | input name =>
      rw [executeWith, ← bind_assoc]
      exact ended (keepsOuter_input name)
  | output value =>
      apply (evaluated value).outer.bind
      intro result
      exact ended (keepsScope_output result).outer
  | outputMany direction count =>
      apply (evaluated count).outer.bind
      intro result
      exact ended (keepsScope_outputMany direction result).outer
  | call callee arguments =>
      exact (keepsScope_callStatement evaluated executed reads fuel callee arguments).outer
  | define name parameters body => exact ended (keepsScope_defineFunction name _).outer
  | giveBack value =>
      cases value with
      | none => exact refl
      | some value => exact (evaluated value).outer.bind fun _ => keepsView_pure _
  | conditional condition body fallback =>
      exact keepsOuter_executeFallback evaluated executed (.elseIf condition body fallback)
  | whileLoop condition body =>
      have conditions : KeepsOuter (evaluate condition >>= isTruthy) :=
        (evaluated condition).outer.bind fun value => (keepsScope_isTruthy value).outer
      exact keepsOuter_whileLoop conditions (keepsOuter_executeAll executed body) fuel 0
  | forLoop name range body =>
      exact (keepsScope_forLoop evaluated executed fuel name range body).outer
  | attempt body handler =>
      exact (keepsOuter_executeAll executed body).catching (keepsOuter_executeAll executed handler)
  | raise message => exact refl

end

theorem evaluate_variable {options : Options} {fuel : Nat} {name : String} {machine later : Machine}
    {value : Value} (ended : evaluate options fuel (.variable name) machine = .ok value later) :
    machine.scope.get? name = some value ∧ later = machine := by
  cases fuel with
  | zero => cases ended
  | succ fuel =>
      change lookup name machine = _ at ended
      rw [lookup_apply] at ended
      split at ended <;> cases ended
      exact ⟨by assumption, rfl⟩

/-- Expressions keep all bindings, and statements those below the current frame, whatever the
fuel. -/
theorem keepsScope_run (options : Options) (fuel : Nat) :
    (∀ expression, KeepsScope (evaluate options fuel expression)) ∧
      ∀ statement, KeepsOuter (execute options fuel statement) := by
  induction fuel with
  | zero => exact ⟨fun _ => refl, fun _ => refl⟩
  | succ fuel ih =>
      rcases ih with ⟨evaluated, executed⟩
      exact ⟨keepsScope_evaluateWith evaluated executed evaluate_variable,
        keepsOuter_executeWith evaluated executed evaluate_variable fuel⟩

end Exec

/-- Unless a line was read on this machine, an expression, a call or a for loop has left all
bindings as they were, however it ended, and any other statement or block those below the current
frame. The values are the same, arrays by their numbers; what these hold may have changed. -/
theorem only_input_changes_outer_bindings (options : Options) (fuel : Nat) (machine : Machine) :
    (∀ expression,
      let later := (evaluate options fuel expression).after machine
      later.linesRead = machine.linesRead → later.scope = machine.scope) ∧
    (∀ statement,
      let later := (execute options fuel statement).after machine
      later.linesRead = machine.linesRead → later.scope.outer = machine.scope.outer) ∧
    (∀ block,
      let later := (Exec.executeAll (execute options fuel) block).after machine
      later.linesRead = machine.linesRead → later.scope.outer = machine.scope.outer) ∧
    (∀ callee arguments,
      let later := (execute options fuel (.call callee arguments)).after machine
      later.linesRead = machine.linesRead → later.scope = machine.scope) ∧
    ∀ name range body,
      let later := (execute options fuel (.forLoop name range body)).after machine
      later.linesRead = machine.linesRead → later.scope = machine.scope := by
  rcases Exec.keepsScope_run options fuel with ⟨evaluated, executed⟩
  refine ⟨fun expression => (evaluated expression machine).same,
    fun statement => (executed statement machine).same,
    fun block => (Exec.keepsOuter_executeAll executed block machine).same, ?_, ?_⟩
  · intro callee arguments
    cases fuel with
    | zero => exact fun _ => rfl
    | succ fuel =>
        rcases Exec.keepsScope_run options fuel with ⟨evaluated, executed⟩
        exact (Exec.keepsScope_callStatement evaluated executed Exec.evaluate_variable fuel callee
          arguments machine).same
  · intro name range body
    cases fuel with
    | zero => exact fun _ => rfl
    | succ fuel =>
        rcases Exec.keepsScope_run options fuel with ⟨evaluated, executed⟩
        exact (Exec.keepsScope_forLoop evaluated executed fuel name range body machine).same

/-- A function that assigns to a name of its caller and appends to its array by variable and by
name. -/
def appender : Function :=
  ⟨["x"], [.assign "y" (.variable "x"), .call (.named "append") [.variable "xs", .variable "y"],
    .call (.named "append") [.string "xs", .variable "x"]]⟩

theorem only_input_changes_outer_bindings_appender :
    let machine : Machine := { Machine.fresh (.ofInput [] none) 0 with
      scope := ⟨⟨[("y", .nil)]⟩, [⟨[("xs", .array 0)]⟩]⟩
      functions := ⟨[("f", appender)]⟩
      heap := ⟨#[#[.string "a"]]⟩ }
    let arguments : List Expr := [.string "b"]
    let loop : Statement := .forLoop "y" (.variable "xs") [.call (.named "f") [.variable "y"]]
    let evaluated := (evaluate {} 4 (.call (.named "f") arguments)).after machine
    let called := (execute {} 4 (.call (.named "f") arguments)).after machine
    let looped := (execute {} 6 loop).after machine
    let branched := (execute {} 7 (.conditional (.variable "xs") [loop] .nothing)).after machine
    let ended := (Exec.executeAll (execute {} 6) [.assign "y" (.variable "xs"), loop]).after machine
    evaluated.scope = machine.scope ∧ called.scope = machine.scope ∧ looped.scope = machine.scope ∧
      branched.scope.outer = machine.scope.outer ∧ ended.scope.outer = machine.scope.outer ∧
      evaluated.heap.items 0 = #[.string "a", .string "b", .string "b"] ∧
      looped.heap.items 0 = #[.string "a", .string "a", .string "a"] := by
  intro machine arguments loop evaluated called looped branched ended
  refine ⟨?_, ?_, ?_, ?_, ?_, rfl, rfl⟩
  · exact (only_input_changes_outer_bindings {} 4 machine).1 _ rfl
  · exact (only_input_changes_outer_bindings {} 4 machine).2.2.2.1 _ _ rfl
  · exact (only_input_changes_outer_bindings {} 6 machine).2.2.2.2 _ _ _ rfl
  · exact (only_input_changes_outer_bindings {} 7 machine).2.1 _ rfl
  · exact (only_input_changes_outer_bindings {} 6 machine).2.2.1 _ rfl

end Mel

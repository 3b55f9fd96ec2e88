import Mel.Proofs.Safety
import Mel.Proofs.ScopeDiscipline

/-!
# Cycles of arrays

Arrays are shared, and an array can be appended to itself. That is the only way to a
cycle: as long as no array of a run was given an item that led back to it, no array
contains itself and every value can be written. All other ways in which references
travel, through variables, calls, returns, loops and items, keep machines sound.
-/

namespace Mel

namespace Value

variable {size : Nat}

theorem within_of_ofArithmetic {α : Type} {ofNumber : α → Value}
    (noReference : ∀ number, (ofNumber number).Within size) {result : Except ArithmeticError α}
    {value : Value} (computed : ofArithmetic ofNumber result = .ok value) : value.Within size := by
  cases result with
  | ok number =>
      cases computed
      exact noReference number
  | error error => cases computed

theorem within_ofInteger (outcome : Outcome Int64) : (ofInteger outcome).Within size := by
  cases outcome <;> trivial

theorem within_ofReal (outcome : Outcome Float) : (ofReal outcome).Within size := by
  cases outcome <;> trivial

theorem within_of_apply {operator : Operator} {left right value : Value}
    (computed : apply operator left right = .ok value) : value.Within size := by
  simp only [apply] at computed
  split at computed
  · split at computed
    · exact within_of_ofArithmetic within_ofInteger computed
    · cases computed
  · split at computed
    · exact within_of_ofArithmetic within_ofReal computed
    · cases computed

theorem within_of_applySuffix {operator : Operator} {operand value : Value}
    (computed : applySuffix operator operand = .ok value) : value.Within size := by
  simp only [applySuffix] at computed
  split at computed
  all_goals
    split at computed
    · apply within_of_ofArithmetic _ computed
      intro number
      trivial
    · cases computed

theorem within_of_negate {operand value : Value} (computed : operand.negate = .ok value) :
    value.Within size := by
  cases operand with
  | integer number =>
      apply within_of_ofArithmetic _ computed
      intro number
      trivial
  | real number =>
      cases computed
      trivial
  | _ => cases computed

theorem within_of_ofBits {digits : List Bool} {value : Value}
    (computed : ofBits digits = .ok value) : value.Within size := by
  simp only [ofBits] at computed
  split at computed
  · cases computed
    trivial
  · cases computed

end Value

/-- A value that is returned refers to cells, as any value does. -/
def Completion.Within (size : Nat) : Completion → Prop
  | .normal => True
  | .returned value => value.Within size

namespace Exec

variable {size : Nat}

theorem safe_ofExcept {result : Except RuntimeError Value}
    (within : ∀ value, result = .ok value → value.Within size) :
    Safe size Value.Within (ofExcept result) := by
  cases result with
  | ok value => exact safe_value (within value rfl)
  | error error => exact safe_fail error

theorem safe_normal : Safe size Completion.Within (pure .normal) :=
  safe_pure fun _ _ => trivial

theorem safe_returned {value : Value} (within : value.Within size) :
    Safe size Completion.Within (pure (.returned value)) :=
  safe_pure fun _ le => within.mono le

/-- A step that only looks at a value is safe if the value refers to cells. This is where texts of
values come in, which are endless once a cycle was closed. -/
theorem LooksAt.safe {α : Type} {value : Value} {step : Exec α} (looks : LooksAt value step)
    (within : value.Within size) : Safe size Anything step := by
  induction looks generalizing size with
  | pure result => exact safe_anything result
  | fail _ _ => exact safe_fail _
  | textOf _ ih =>
      apply (safe_textOf within).bind
      intro later text le _
      exact ih text (within.mono le)

theorem safe_output {value : Value} (within : value.Within size) :
    Safe size Anything (output value) := by
  apply ((looksAt_characterOf? value).safe within).bind
  rintro later (_ | character) le -
  · exact safe_anything ()
  · apply (safe_put character).bind
    intro _ _ _ _
    exact safe_write _

theorem safe_outputMany (direction : Direction) {value : Value} (within : value.Within size) :
    Safe size Anything (outputMany direction value) := by
  rw [outputMany_eq]
  apply ((looksAt_countOf value).safe within).bind
  intro _ count _ _
  exact safe_takeOut direction count

/-- What `append` adds to is a cell, whether an array or the name of a variable was given to it. -/
theorem safe_appendTarget (variableName : Option String) {value : Value}
    (within : value.Within size) :
    Safe size (fun size target => target.1 < size) (appendTarget variableName value) := by
  cases value with
  | array ref => exact safe_pure fun _ le => Nat.lt_of_lt_of_le within le
  | string name =>
      apply (safe_lookup name).bind
      intro later found le foundWithin
      cases found with
      | array ref => exact safe_pure fun _ more => Nat.lt_of_lt_of_le foundWithin more
      | _ => exact safe_fail _
  | _ => exact safe_fail _

/-- Appending binds a target that was given by its name once more, to an array known to be a
cell. -/
theorem safe_append (variableName : Option String) {arguments : List Value}
    (within : AllWithin size arguments) :
    Safe size Value.Within (append variableName arguments) := by
  simp only [append]
  split
  · rename_i first item items
    have firstWithin : first.Within size := within first List.mem_cons_self
    have itemsWithin : AllWithin size (item :: items) :=
      fun value isItem => within value (List.mem_cons_of_mem _ isItem)
    apply (safe_appendTarget variableName firstWithin).bind
    rintro later ⟨ref, name⟩ le present
    apply (safe_extendArray present (itemsWithin.mono le)).bind
    intro final _ more _
    cases name with
    | none => exact safe_value trivial
    | some name =>
        have refWithin : (Value.array ref).Within final := Nat.lt_of_lt_of_le present more
        exact (safe_assign name refWithin).bind fun _ _ _ _ => safe_value trivial
  · exact safe_fail _

theorem safe_length (arguments : List Value) : Safe size Value.Within (length arguments) := by
  simp only [length]
  split
  · exact safe_value trivial
  · exact (safe_itemsOf _).bind fun _ _ _ _ => safe_value trivial
  · exact safe_fail _
  · exact safe_fail _

theorem mem_of_itemAt? {α : Type} {items : List α} {position : Nat} {item : α}
    (found : itemAt? items position = some item) : item ∈ items :=
  List.mem_of_getElem? found

theorem safe_getItem (arguments : List Value) : Safe size Value.Within (getItem arguments) := by
  simp only [getItem]
  split
  · split
    · exact safe_fail _
    · split
      · split
        · exact safe_value trivial
        · exact safe_fail _
      · apply (safe_itemsOf _).bind
        intro later items le within
        split
        · rename_i item found
          exact safe_value (within item (mem_of_itemAt? found))
        · exact safe_fail _
      · exact safe_fail _
  · exact safe_fail _
  · exact safe_fail _

/-- Listing a value writes its text, and is stopped by an endless one. -/
theorem safe_list {arguments : List Value} (within : AllWithin size arguments) :
    Safe size Value.Within (list arguments) := by
  have written {value : Value} (isArgument : value ∈ arguments) :
      Safe size Value.Within (textOf value >>= fun text => write text >>= fun _ =>
        (pure .nil : Exec Value)) := by
    apply (safe_textOf (within value isArgument)).bind
    intro _ text _ _
    exact (safe_write text).bind fun _ _ _ _ => safe_value trivial
  simp only [list]
  split
  · split
    · exact written List.mem_cons_self
    · exact written List.mem_cons_self
    · exact safe_fail _
  · exact safe_fail _

theorem safe_reverse (arguments : List Value) : Safe size Value.Within (reverse arguments) := by
  simp only [reverse]
  split
  · exact safe_value trivial
  · apply (safe_itemsOf _).bind
    intro later items le within
    apply safe_newArray
    intro item isItem
    exact within item (List.mem_reverse.mp isItem)
  · exact safe_fail _
  · exact safe_fail _

theorem safe_builtin (builtin : Builtin) (variableName : Option String) {arguments : List Value}
    (within : AllWithin size arguments) :
    Safe size Value.Within (builtin.call variableName arguments) := by
  cases builtin with
  | append => exact safe_append variableName within
  | length => exact safe_length arguments
  | getItem => exact safe_getItem arguments
  | list => exact safe_list within
  | reverse => exact safe_reverse arguments

theorem safe_ofSentinel (constant : Sentinel) : Safe size Value.Within (ofSentinel constant) := by
  cases constant with
  | empty =>
      apply safe_newArray
      intro value isItem
      cases isItem
  | _ => exact safe_value trivial

theorem safe_defineAll {names : List String} {values : List Value}
    (within : AllWithin size values) : Safe size Anything (defineAll names values) := by
  induction names generalizing values size with
  | nil => exact safe_anything ()
  | cons name names ih =>
      cases values with
      | nil => exact safe_anything ()
      | cons value values =>
          rcases List.forall_mem_cons.mp within with ⟨valueWithin, valuesWithin⟩
          apply (safe_define name valueWithin).bind
          intro later _ le _
          exact ih (AllWithin.mono le valuesWithin)

section

variable {options : Options} {evaluate : Expr → Exec Value}
  {execute : Statement → Exec Completion}
  (evaluated : ∀ size expression, Safe size Value.Within (evaluate expression))
  (executed : ∀ size statement, Safe size Completion.Within (execute statement))

include evaluated in
theorem safe_evaluateAll (expressions : List Expr) :
    Safe size AllWithin (evaluateAll evaluate expressions) := by
  induction expressions generalizing size with
  | nil =>
      apply safe_pure
      intro _ _ value isValue
      cases isValue
  | cons expression expressions ih =>
      apply (evaluated size expression).bind
      intro later value le within
      apply ih.bind
      intro final values more valuesWithin
      apply safe_pure
      intro size' more'
      exact List.forall_mem_cons.mpr
        ⟨within.mono (Nat.le_trans more more'), AllWithin.mono more' valuesWithin⟩

theorem safe_unlessReturned {rest : Exec Completion} (safe : Safe size Completion.Within rest)
    {completion : Completion} (within : completion.Within size) :
    Safe size Completion.Within (unlessReturned rest completion) := by
  cases completion with
  | normal => exact safe
  | returned value => exact safe_returned within

include executed in
theorem safe_executeAll (block : Block) :
    Safe size Completion.Within (executeAll execute block) := by
  induction block generalizing size with
  | nil => exact safe_normal
  | cons statement statements ih =>
      apply (executed size statement).bind
      intro later completion le within
      exact safe_unlessReturned ih within

include executed in
/-- The result of a call refers to cells that are still there when the frame of the call is gone. -/
theorem safe_callBody (function : Function) {arguments : List Value}
    (within : AllWithin size arguments) :
    Safe size Value.Within (callBody execute function arguments) := by
  have body : Safe size Completion.Within (inCall (defineAll function.parameters arguments >>=
      fun _ => executeAll execute function.body)) :=
    ((safe_defineAll within).bind fun _ _ _ _ => safe_executeAll executed function.body).inCall
  apply body.bind
  intro later completion le completionWithin
  cases completion with
  | normal => exact safe_value trivial
  | returned value => exact safe_value completionWithin

include executed in
theorem safe_callFunction (name : String) {arguments : List Value}
    (within : AllWithin size arguments) :
    Safe size Value.Within (callFunction options execute name arguments) := by
  rw [callFunction_eq]
  apply (safe_functionOf name).bind
  intro later found le _
  cases found with
  | none => exact safe_fail _
  | some function =>
      simp only [callFound]
      split
      · exact safe_fail _
      · exact (safe_callBody executed function (AllWithin.mono le within)).unlessDeep _ _

include executed in
/-- An embedded program is safe on a machine of its own, which begins without any cells. -/
theorem safe_embedded (arguments : List Value) :
    Safe size Value.Within (embedded options execute arguments) := by
  by_cases text : ∃ code, arguments = [.string code]
  · rcases text with ⟨code, rfl⟩
    rw [embedded_eq]
    apply Safe.unlessDeep
    simp only [runText]
    cases readProgram options.policy code with
    | error error => exact safe_fail _
    | ok block =>
        apply (safe_runEmbedded (safe_executeAll executed block)).bind
        intro _ _ _ _
        exact safe_value trivial
  · rw [embedded_refused _ _ text]
    exact safe_fail _

include evaluated executed in
theorem safe_call (callee : Callee) (arguments : List Expr) :
    Safe size Value.Within (call options evaluate execute callee arguments) := by
  apply (safe_evaluateAll evaluated arguments).bind
  intro later values le within
  cases callee with
  | embedded => exact safe_embedded executed values
  | named name =>
      dsimp only
      split
      · exact safe_builtin _ _ within
      · exact safe_callFunction executed name within

include evaluated executed in
/-- An expression is safe if its parts are, and the statements of the functions that it calls. -/
theorem safe_evaluateWith (expression : Expr) :
    Safe size Value.Within (evaluateWith options evaluate execute expression) := by
  cases expression with
  | string text => exact safe_value trivial
  | real literal => exact safe_value trivial
  | sentinel constant => exact safe_ofSentinel constant
  | bits digits => exact safe_ofExcept fun _ => Value.within_of_ofBits
  | array elements =>
      apply (safe_evaluateAll evaluated elements).bind
      intro later values le within
      exact safe_newArray within
  | «variable» name => exact safe_lookup name
  | negate operand =>
      apply (evaluated size operand).bind
      intro _ _ _ _
      exact safe_ofExcept fun _ => Value.within_of_negate
  | binary operator left right =>
      apply (evaluated size left).bind
      intro later _ _ _
      apply (evaluated later right).bind
      intro _ _ _ _
      exact safe_ofExcept fun _ => Value.within_of_apply
  | suffix operator operand trailing =>
      apply (evaluated size operand).bind
      intro _ _ _ _
      exact safe_ofExcept fun _ => Value.within_of_applySuffix
  | call callee arguments => exact safe_call evaluated executed callee arguments
  | raise message => exact safe_fail _

include evaluated executed in
theorem safe_executeFallback : ∀ {size : Nat} (fallback : Fallback),
    Safe size Completion.Within (executeFallback evaluate execute fallback)
  | _, .nothing => safe_normal
  | _, .otherwise body => safe_executeAll executed body
  | size, .elseIf condition body fallback => by
      apply (evaluated size condition).bind
      intro later value le within
      apply (safe_isTruthy value).bind
      intro _ truth _ _
      cases truth with
      | true => exact safe_executeAll executed body
      | false => exact safe_executeFallback fallback

/-- Each round of a loop begins with the cells that the rounds before have left. -/
theorem safe_whileLoop {limit : Option Nat} {condition : Exec Bool} {body : Exec Completion}
    (conditions : ∀ size, Safe size Anything condition)
    (bodies : ∀ size, Safe size Completion.Within body) (fuel started : Nat) :
    Safe size Completion.Within (whileLoop limit condition body fuel started) := by
  induction fuel generalizing size started with
  | zero => exact safe_exhausted
  | succ fuel ih =>
      rw [whileLoop_succ]
      apply (conditions size).bind
      intro later truth le _
      cases truth with
      | false => exact safe_normal
      | true =>
          apply Safe.unlessLimited
          apply (bodies later).bind
          intro final completion more within
          exact safe_unlessReturned (ih (started + 1)) within

theorem safe_forEach {body : Exec Completion} (bodies : ∀ size, Safe size Completion.Within body)
    (name : String) {items : List Value} (within : AllWithin size items) :
    Safe size Completion.Within (forEach name body items) := by
  induction items generalizing size with
  | nil => exact safe_normal
  | cons item items ih =>
      rcases List.forall_mem_cons.mp within with ⟨itemWithin, itemsWithin⟩
      apply (safe_define name itemWithin).bind
      intro later _ le _
      apply (bodies later).bind
      intro final completion more completionWithin
      exact safe_unlessReturned (ih (AllWithin.mono (Nat.le_trans le more) itemsWithin))
        completionWithin

include evaluated executed in
/-- A statement is safe if the expressions and statements inside it are. -/
theorem safe_executeWith (fuel : Nat) (statement : Statement) :
    Safe size Completion.Within (executeWith options evaluate execute fuel statement) := by
  cases statement with
  | assign name value =>
      apply (evaluated size value).bind
      intro later result le within
      exact (safe_define name within).bind fun _ _ _ _ => safe_normal
  | input name =>
      apply safe_readLine.bind
      intro later line le _
      have within : (Value.string line).Within later := trivial
      exact (safe_assign name within).bind fun _ _ _ _ => safe_normal
  | output value =>
      apply (evaluated size value).bind
      intro later result le within
      exact (safe_output within).bind fun _ _ _ _ => safe_normal
  | outputMany direction count =>
      apply (evaluated size count).bind
      intro later result le within
      exact (safe_outputMany direction within).bind fun _ _ _ _ => safe_normal
  | call callee arguments =>
      simp only [executeWith, discard_eq]
      have discarded : Safe size Anything
          (call options evaluate execute callee arguments >>= fun _ => pure ()) := by
        apply (safe_call evaluated executed callee arguments).bind
        intro _ _ _ _
        exact safe_anything ()
      exact discarded.bind fun _ _ _ _ => safe_normal
  | define name parameters body =>
      exact (safe_defineFunction name ⟨parameters, body⟩).bind fun _ _ _ _ => safe_normal
  | giveBack value =>
      cases value with
      | none => exact safe_returned trivial
      | some value =>
          apply (evaluated size value).bind
          intro later result le within
          exact safe_returned within
  | conditional condition body fallback =>
      exact safe_executeFallback evaluated executed (.elseIf condition body fallback)
  | whileLoop condition body =>
      apply safe_whileLoop
      · intro size
        exact (evaluated size condition).bind fun _ value _ _ => safe_isTruthy value
      · intro size
        exact safe_executeAll executed body
  | forLoop name range body =>
      apply (evaluated size range).bind
      intro later value le within
      cases value with
      | array ref =>
          apply (safe_itemsOf ref).bind
          intro final items more itemsWithin
          apply Safe.inFrame
          apply safe_forEach _ name itemsWithin
          intro size
          exact safe_executeAll executed body
      | _ => exact safe_fail _
  | attempt body handler =>
      exact (safe_executeAll executed body).catching (safe_executeAll executed handler)
  | raise message => exact safe_fail _

end

/-- Every expression and every statement is safe, with any number of cells to begin with. -/
theorem safe_run (options : Options) (fuel : Nat) :
    (∀ size expression, Safe size Value.Within (evaluate options fuel expression)) ∧
      ∀ size statement, Safe size Completion.Within (execute options fuel statement) := by
  induction fuel with
  | zero => exact ⟨fun _ _ => safe_exhausted, fun _ _ => safe_exhausted⟩
  | succ fuel ih =>
      rcases ih with ⟨evaluated, executed⟩
      exact ⟨fun _ => safe_evaluateWith evaluated executed,
        fun _ => safe_executeWith evaluated executed fuel⟩

theorem safe_interpret (options : Options) (fuel : Nat) (block : Block) :
    Safe size Anything (interpret options fuel block) := by
  rw [interpret, discard_eq]
  exact (safe_executeAll (safe_run options fuel).2 block).bind fun _ _ _ _ => safe_anything ()

end Exec

/-- A machine stays sound over all the programs of a session, those that fail included. -/
theorem Machine.Sound.afterAll {machine : Machine} (sound : machine.Sound) (options : Options)
    (fuel : Nat) (blocks : List Block) : (machine.afterAll options fuel blocks).Sound := by
  induction blocks generalizing machine with
  | nil => exact sound
  | cons block blocks ih =>
      apply ih
      exact (Exec.safe_interpret options fuel block sound (Nat.zero_le _)).sound

/-- Whatever programs have run on a fresh machine: at each moment there was a cycle of arrays, in
this heap or in that of an embedded program, exactly if an array had been given an item that led
back to it. A value that a variable holds or that an expression has can be written unless it leads
to a cycle, and a text is endless only after a cycle was closed. -/
theorem array_cycles_are_closed_by_append (options : Options) (fuel : Nat) (streams : Streams)
    (blocks : List Block) :
    let machine := (Machine.fresh streams 0).afterAll options fuel blocks
    machine.heap = heapOf machine.history ∧
    (∀ moment, Moment machine.history moment →
      ((heapOf moment).Acyclic ↔ ¬ClosesCycle moment)) ∧
    (∀ frame ∈ machine.scope.frames, ∀ name value, frame.get? name = some value →
      ((machine.heap.content? value).isSome ↔ ¬machine.heap.Endless value)) ∧
    (∀ fuel' expression value later, evaluate options fuel' expression machine = .ok value later →
      ((later.heap.content? value).isSome ↔ ¬later.heap.Endless value)) ∧
    ∀ fuel' block later, interpret options fuel' block machine = .error (.halt .endlessText) later →
      ∃ moment, Moment later.history moment ∧ ClosesCycle moment := by
  intro machine
  have sound : machine.Sound := (Machine.sound_fresh streams 0).afterAll options fuel blocks
  refine ⟨sound.heap.replayed, sound.heap.history, ?_, ?_, ?_⟩
  · intro frame isFrame name value found
    have within := sound.scope frame isFrame name value found
    exact Heap.isSome_content?_iff sound.heap.wellFormed within
  · intro fuel' expression value later ended
    have upheld := (Exec.safe_run options fuel').1 0 expression sound (Nat.zero_le _)
    rw [ended] at upheld
    cases upheld with
    | ok soundLater _ within => exact Heap.isSome_content?_iff soundLater.heap.wellFormed within
  · intro fuel' block later stopped
    have upheld := Exec.safe_interpret options fuel' block sound (Nat.zero_le _)
    rw [stopped] at upheld
    cases upheld with
    | error _ _ closes => exact closes rfl

/-- An array is appended to itself. -/
def selfAppend : Block :=
  [.assign "a" (.sentinel .empty), .call (.named "append") [.variable "a", .variable "a"]]

theorem not_acyclic_selfAppend :
    let machine := (Machine.fresh (.ofInput [] none) 0).afterAll ⟨.lenient, none, 7⟩ 3 [selfAppend]
    machine.scope.get? "a" = some (.array 0) ∧ ¬machine.heap.Acyclic ∧
      machine.heap.content? (.array 0) = none := by
  intro machine
  have items : machine.heap.items 0 = #[.array 0] := rfl
  have contains : machine.heap.Contains 0 0 := by
    simp [Heap.Contains, items]
  refine ⟨rfl, ?_, rfl⟩
  intro acyclic
  exact acyclic 0 (.single contains)

end Mel

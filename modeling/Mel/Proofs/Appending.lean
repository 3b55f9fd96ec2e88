import Mel.Proofs.OuterBindings

/-!
# Appending

What appending does to the variables of a program. The array to append to is the value of the first
argument, which is evaluated before the others. If this argument is a variable, the array is bound
to it again once the items are in their places. So if one of the other arguments has called a
function that read a line into this variable, the line is lost. A target that is given by the name
of its variable is looked up when all arguments have their values, and appending changes no
variable then.
-/

namespace Mel

namespace Scope

variable {α : Type}

/-- Rebinding a name changes nothing exactly if the name means the same already. -/
theorem assign?_eq_self_iff {scope later : Scope α} {name : String} {value : α}
    (assigned : scope.assign? name value = some later) :
    later = scope ↔ scope.get? name = some value := by
  constructor
  · rintro rfl
    rw [get?_assign? assigned, if_pos rfl]
  · intro found
    rw [assign?_of_get? found] at assigned
    exact (Option.some.inj assigned).symm

end Scope

namespace Exec

variable {options : Options} {fuel : Nat}

section

variable {evaluate : Expr → Exec Value} {execute : Statement → Exec Completion}
  {arguments : List Expr} {start : Machine}

theorem call_append_of_error {stop : Stop} {reached : Machine}
    (stopped : evaluateAll evaluate arguments start = .error stop reached) :
    call options evaluate execute (.named "append") arguments start = .error stop reached := by
  rw [call, bind_of_error stopped]

theorem call_append_of_ok {values : List Value} {reached : Machine}
    (ended : evaluateAll evaluate arguments start = .ok values reached) :
    call options evaluate execute (.named "append") arguments start =
      append (firstVariable? arguments) values reached := by
  rw [call, bind_of_ok ended]
  rfl

theorem call_append_ok {later : Machine} {result : Value}
    (returned : call options evaluate execute (.named "append") arguments start =
      .ok result later) :
    ∃ values reached, evaluateAll evaluate arguments start = .ok values reached ∧
      append (firstVariable? arguments) values reached = .ok result later := by
  cases ended : evaluateAll evaluate arguments start with
  | error stop reached =>
      rw [call_append_of_error ended] at returned
      cases returned
  | ok values reached =>
      rw [call_append_of_ok ended] at returned
      exact ⟨values, reached, rfl, returned⟩

end

/-- A call of append that returns has put the items at the end of the array that its target stands
for. It has changed no variable, unless the target is a variable and held the array when it was
evaluated: then this variable holds the array again. Even this changes nothing exactly if the
variable held the array still, and as long as no line was read it did. -/
theorem append_rebinds_only_its_variable {target : Expr} {items : List Expr} {start later : Machine}
    {result : Value}
    (returned : call options (evaluate options fuel) (execute options fuel) (.named "append")
      (target :: items) start = .ok result later) :
    ∃ first values ref reached,
      evaluateAll (evaluate options fuel) (target :: items) start = .ok (first :: values) reached ∧
      result = .nil ∧ target? reached first = some ref ∧
      later = { behindExtend ref values reached with scope := later.scope } ∧
      ((∀ name, target = .variable name → ∃ text, first = .string text) →
        later.scope = reached.scope) ∧
      (∀ name, target = .variable name → first = .array ref →
        start.scope.get? name = some (.array ref) ∧
        reached.scope.assign? name (.array ref) = some later.scope ∧
        (later.scope = reached.scope ↔ reached.scope.get? name = some (.array ref))) ∧
      (reached.linesRead = start.linesRead → later.scope = reached.scope) := by
  obtain ⟨values, reached, ended, appends⟩ := call_append_ok returned
  have appended := append_appended (firstVariable? (target :: items)) values reached
  rw [appends] at appended
  cases appended with
  | @inPlace first values ref isTarget noVariable =>
      refine ⟨first, values, ref, reached, ended, rfl, isTarget, rfl, fun _ => rfl, ?_,
        fun _ => rfl⟩
      rintro name rfl rfl
      rcases noVariable with noVariable | ⟨text, isText⟩
      · cases noVariable
      · cases isText
  | @rebound name ref values scope isVariable assigned =>
      have isTarget : target = .variable name := by
        cases target with
        | «variable» known => exact congrArg Expr.variable (Option.some.inj isVariable)
        | _ => cases isVariable
      have held := get?_firstVariable? evaluate_variable isVariable ended
      refine ⟨.array ref, values, ref, reached, ended, rfl, rfl, rfl, ?_, ?_, ?_⟩
      · intro isText
        obtain ⟨text, isText⟩ := isText name isTarget
        cases isText
      · rintro other isOther _
        cases isTarget.symm.trans isOther
        exact ⟨held, assigned, Scope.assign?_eq_self_iff assigned⟩
      · intro noLine
        have kept := keepsScope_evaluateAll (keepsScope_run options fuel).1 (target :: items) start
        rw [after_of_ok ended] at kept
        rw [Scope.assign?_eq_self_iff assigned]
        exact (congrArg (Scope.get? · name) (kept.same noLine)).trans held

/-- A program that appends to the array in a variable what a function returns; meanwhile the
function reads a line into this variable. -/
def losingSource : String :=
  "::: Program start a = $$$$$ -> f < a ^ $$$$$$$$ ->> append a | ->> f ;;; Program end"

/-- The array in its variable, and the function. -/
def declarations : Block :=
  [.assign "a" (.sentinel .empty),
    .define "f" [] [.input "a", .giveBack (some (.sentinel .bitOne))]]

/-- The variable, and the call of the function with a sign in front of it. -/
def losingArguments : List Expr :=
  [.variable "a", .negate (.call (.named "f") [])]

/-- The line that was read into the variable is gone once the array is bound to it again. -/
theorem append_loses_a_line :
    let start := (interpret {} 4 declarations).after (.fresh (.ofInput "line".toUTF8.toList none) 0)
    readProgram .lenient losingSource =
      .ok (declarations ++ [.call (.named "append") losingArguments]) ∧
    ∃ values reached result later,
      evaluateAll (evaluate {} 5) losingArguments start = .ok values reached ∧
      call {} (evaluate {} 5) (execute {} 5) (.named "append") losingArguments start =
        .ok result later ∧
      (reached.scope.get? "a").map Value.type = some .string ∧
      (later.scope.get? "a").map Value.type = some .array := by
  intro start
  have lexing : tokenize .lenient losingSource =
      ⟨[⟨.programStart, "::: Program start", ⟨0, 1, 1⟩⟩, ⟨.identifier, "a", ⟨18, 1, 19⟩⟩,
        ⟨.assign, "=", ⟨20, 1, 21⟩⟩, ⟨.sentinel .empty, "$$$$$", ⟨22, 1, 23⟩⟩,
        ⟨.defineMark, "->", ⟨28, 1, 29⟩⟩, ⟨.identifier, "f", ⟨31, 1, 32⟩⟩,
        ⟨.input, "<", ⟨33, 1, 34⟩⟩, ⟨.identifier, "a", ⟨35, 1, 36⟩⟩,
        ⟨.returnMark, "^", ⟨37, 1, 38⟩⟩, ⟨.sentinel .bitOne, "$$$$$$$$", ⟨39, 1, 40⟩⟩,
        ⟨.callMark, "->>", ⟨48, 1, 49⟩⟩, ⟨.identifier, "append", ⟨52, 1, 53⟩⟩,
        ⟨.identifier, "a", ⟨59, 1, 60⟩⟩, ⟨.negate, "|", ⟨61, 1, 62⟩⟩,
        ⟨.callMark, "->>", ⟨63, 1, 64⟩⟩, ⟨.identifier, "f", ⟨67, 1, 68⟩⟩,
        ⟨.programEnd, ";;; Program end", ⟨69, 1, 70⟩⟩], none⟩ := by
    decide +kernel
  have isRead : readProgram .lenient losingSource =
      .ok (declarations ++ [.call (.named "append") losingArguments]) := by
    rw [readProgram, readSource, lexing]
    rfl
  have evaluated : (outcomeOf (evaluateAll (evaluate {} 5) losingArguments start)).toBool := by
    decide +kernel
  have returned : (outcomeOf
      (call {} (evaluate {} 5) (execute {} 5) (.named "append") losingArguments start)).toBool := by
    decide +kernel
  obtain ⟨values, evaluated⟩ := eq_ok_of_outcomeOf evaluated
  obtain ⟨result, returned⟩ := eq_ok_of_outcomeOf returned
  refine ⟨isRead, values, _, result, _, evaluated, returned, ?_, ?_⟩
  · decide +kernel
  · decide +kernel

theorem append_rebinds_only_its_variable_line :
    let start := (interpret {} 4 declarations).after (.fresh (.ofInput "line".toUTF8.toList none) 0)
    ∃ values reached later,
      call {} (evaluate {} 5) (execute {} 5) (.named "append") losingArguments start =
        .ok .nil later ∧
      later = { behindExtend 0 values reached with scope := later.scope } ∧
      reached.scope.assign? "a" (.array 0) = some later.scope := by
  intro start
  have returned : (outcomeOf
      (call {} (evaluate {} 5) (execute {} 5) (.named "append") losingArguments start)).toBool := by
    decide +kernel
  obtain ⟨result, returned⟩ := eq_ok_of_outcomeOf returned
  obtain ⟨first, values, ref, reached, ended, rfl, isTarget, sameElse, -, rebinds, -⟩ :=
    append_rebinds_only_its_variable returned
  have isArray : start.scope.get? "a" = some (.array 0) := rfl
  cases isArray.symm.trans (get?_firstVariable? evaluate_variable rfl ended)
  cases isTarget
  exact ⟨values, reached, _, returned, sameElse, (rebinds "a" rfl rfl).2.1⟩

end Exec

end Mel

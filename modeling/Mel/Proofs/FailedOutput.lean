import Mel.Proofs.Parallel

/-!
# Failed output

An output step first finds out what it is to output, and leaves the machine alone if
there is no such thing. Then it changes the buffer, and only then it writes. So the
buffer stays as it was unless the write fails: after a failed write it holds a
character that was not written, or has lost characters that were not.
-/

namespace Mel

def Stop.IsWriteFailure (stop : Stop) : Prop :=
  ∃ reason, stop = .error (.outputFailed reason)

namespace Exec

variable {α β : Type}

/-- A step has ended with the machine that it began with, and not because a write failed. -/
inductive LeftAlone (machine : Machine) : EStateM.Result Stop Machine α → Prop where
  | ok (result : α) : LeftAlone machine (.ok result machine)
  | error {stop : Stop} (noWrite : ¬stop.IsWriteFailure) : LeftAlone machine (.error stop machine)

theorem LooksAt.leftAlone {value : Value} {step : Exec α} (looks : LooksAt value step)
    (machine : Machine) : LeftAlone machine (step machine) := by
  induction looks with
  | pure result => exact .ok result
  | fail _ noWrite =>
      apply LeftAlone.error
      rintro ⟨reason, failed⟩
      cases failed
      exact noWrite reason rfl
  | textOf _ ih =>
      rw [bind_apply, textOf_apply]
      cases machine.heap.content? value with
      | none =>
          apply LeftAlone.error
          rintro ⟨reason, failed⟩
          cases failed
      | some content => exact ih content.text

/-- A step that begins with a look at a value fails there, or behind it on the same machine. -/
theorem LooksAt.error_of_bind {value : Value} {step : Exec α} {next : α → Exec β}
    (looks : LooksAt value step) {machine later : Machine} {stop : Stop}
    (failed : (step >>= next) machine = .error stop later) :
    (later = machine ∧ ¬stop.IsWriteFailure) ∨
      ∃ result, step machine = .ok result machine ∧ next result machine = .error stop later := by
  have leftAlone := looks.leftAlone machine
  rw [bind_apply] at failed
  generalize step machine = ended at leftAlone failed
  cases leftAlone with
  | ok result => exact .inr ⟨result, rfl, failed⟩
  | error noWrite =>
      cases failed
      exact .inl ⟨rfl, noWrite⟩

theorem error_of_write {text : String} {machine later : Machine} {stop : Stop}
    (failed : write text machine = .error stop later) :
    stop.IsWriteFailure ∧
      later = { machine with streams := machine.streams.write text.toUTF8.data } := by
  rw [write_apply] at failed
  cases failure : machine.streams.writeError? text.toUTF8.data.size with
  | none =>
      rw [failure] at failed
      cases failed
  | some reason =>
      rw [failure] at failed
      cases failed
      exact ⟨⟨reason, rfl⟩, rfl⟩

theorem error_of_output {value : Value} {machine later : Machine} {stop : Stop}
    (failed : output value machine = .error stop later) :
    (later = machine ∧ ¬stop.IsWriteFailure) ∨
      ∃ character, characterOf? value machine = .ok (some character) machine ∧
        stop.IsWriteFailure ∧ later.buffer = machine.buffer.push character := by
  rcases (looksAt_characterOf? value).error_of_bind failed with untouched | ⟨found, isFound, failed⟩
  · exact .inl untouched
  · cases found with
    | none => cases failed
    | some character =>
        rcases error_of_write failed with ⟨isWriteFailure, rfl⟩
        exact .inr ⟨character, isFound, isWriteFailure, rfl⟩

theorem error_of_outputMany {direction : Direction} {value : Value} {machine later : Machine}
    {stop : Stop} (failed : outputMany direction value machine = .error stop later) :
    (later = machine ∧ ¬stop.IsWriteFailure) ∨
      ∃ count, countOf value machine = .ok count machine ∧ count ≤ machine.buffer.size ∧
        stop.IsWriteFailure ∧ later.buffer = machine.buffer.drop count := by
  rw [outputMany_eq] at failed
  rcases (looksAt_countOf value).error_of_bind failed with untouched | ⟨count, isCount, failed⟩
  · exact .inl untouched
  · rw [takeOut_apply] at failed
    by_cases short : machine.buffer.size < count
    · rw [if_pos short] at failed
      cases failed
      refine .inl ⟨rfl, ?_⟩
      rintro ⟨reason, equal⟩
      cases equal
    · rw [if_neg short] at failed
      rcases error_of_write failed with ⟨isWriteFailure, rfl⟩
      exact .inr ⟨count, isCount, Nat.le_of_not_lt short, isWriteFailure, rfl⟩

theorem error_of_bind_pure {step : Exec α} {result : β} {machine later : Machine} {stop : Stop}
    (failed : (step >>= fun _ => (pure result : Exec β)) machine = .error stop later) :
    step machine = .error stop later := by
  rw [bind_apply] at failed
  cases ended : step machine with
  | ok _ _ =>
      rw [ended] at failed
      cases failed
  | error _ _ =>
      rw [ended] at failed
      cases failed
      rfl

/-- Where an output statement fails whose expression has a value, either no write has failed and the
machine is the one behind the expression, or the write has failed after the buffer was changed: by
the character that was to be written, or by those that were. -/
theorem buffer_of_failed_output (options : Options) (fuel : Nat) {expression : Expr}
    {start machine later : Machine} {value : Value} {stop : Stop}
    (evaluated : evaluate options fuel expression start = .ok value machine) :
    (execute options (fuel + 1) (.output expression) start = .error stop later →
      (later = machine ∧ ¬stop.IsWriteFailure) ∨
        ∃ character, characterOf? value machine = .ok (some character) machine ∧
          stop.IsWriteFailure ∧ later.buffer = machine.buffer.push character) ∧
    ∀ direction,
      execute options (fuel + 1) (.outputMany direction expression) start = .error stop later →
        (later = machine ∧ ¬stop.IsWriteFailure) ∨
          ∃ count, countOf value machine = .ok count machine ∧ count ≤ machine.buffer.size ∧
            stop.IsWriteFailure ∧ later.buffer = machine.buffer.drop count := by
  constructor
  · intro failed
    rw [execute, executeWith, bind_of_ok evaluated] at failed
    exact error_of_output (error_of_bind_pure failed)
  · intro direction failed
    rw [execute, executeWith, bind_of_ok evaluated] at failed
    exact error_of_outputMany (error_of_bind_pure failed)

theorem buffer_of_failed_output_full :
    ∃ stop later,
      execute ⟨.lenient, none, 7⟩ 2 (.output (.string "A"))
          (.fresh (.ofInput [] (some 0)) 0) = .error stop later ∧
        later.buffer = #['A'] := by
  let machine : Machine := .fresh (.ofInput [] (some 0)) 0
  have evaluated : evaluate ⟨.lenient, none, 7⟩ 1 (.string "A") machine =
      .ok (.string "A") machine := rfl
  have failed : execute ⟨.lenient, none, 7⟩ 2 (.output (.string "A")) machine =
      .error (.error (.outputFailed "failed to write whole buffer"))
        ((execute ⟨.lenient, none, 7⟩ 2 (.output (.string "A"))).after machine) := rfl
  refine ⟨_, _, failed, ?_⟩
  rcases (buffer_of_failed_output _ 1 evaluated).1 failed with ⟨_, noWrite⟩ |
    ⟨character, found, _, buffer⟩
  · exact (noWrite ⟨_, rfl⟩).elim
  · have isFirst : characterOf? (.string "A") machine = .ok (some 'A') machine := rfl
    rw [isFirst] at found
    cases found
    exact buffer

/-- A full output leaves a character in the buffer that was not written, and takes another one away
that was not written either. -/
theorem buffer_changed_full :
    let machine : Machine := .fresh (.ofInput [] (some 0)) 0
    let behind := (execute ⟨.lenient, none, 7⟩ 2 (.output (.string "A"))).after machine
    let last :=
      (execute ⟨.lenient, none, 7⟩ 2 (.outputMany .oldestFirst (.bits [true]))).after behind
    (∃ stop, execute ⟨.lenient, none, 7⟩ 2 (.output (.string "A")) machine =
      .error stop behind) ∧
    machine.buffer = #[] ∧ behind.buffer = #['A'] ∧
    (∃ stop, execute ⟨.lenient, none, 7⟩ 2 (.outputMany .oldestFirst (.bits [true])) behind =
      .error stop last) ∧
    last.buffer = #[] ∧ last.streams.written = #[] := by
  exact ⟨⟨_, rfl⟩, rfl, rfl, ⟨_, rfl⟩, rfl, rfl⟩

end Exec

end Mel

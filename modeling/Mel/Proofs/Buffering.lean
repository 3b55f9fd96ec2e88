import Mel.Proofs.FailedOutput
import Mel.Proofs.ScopeDiscipline

/-!
# Buffering

The buffer is a queue. What a program outputs one character at a time is put in at its
end, and what it outputs several characters at a time is taken off its beginning, where
nothing is lost, invented or moved as long as no write fails. Nothing else changes it:
other output goes past it, and an embedded program has a buffer of its own.

The history of a machine says what was put in and taken out. That a queue can be replayed
from it is a law of steps. What the records stand for is said by the output statements:
each time they record that characters are put in or taken out, they write these.
-/

namespace Mel

namespace Streams

/-- No write fails any more. -/
structure IsReliable (streams : Streams) : Prop where
  unlimited : streams.room = none
  unbroken : ∀ number, streams.writes ≤ number → streams.writeBreakdowns number = none

/-- The streams with one more text written. -/
def append (streams : Streams) (text : String) : Streams :=
  { streams with
    written := streams.written ++ text.toUTF8.data
    writes := streams.writes + 1 }

variable {streams : Streams}

theorem isReliable_ofInput (input : List UInt8) : (ofInput input none).IsReliable :=
  ⟨rfl, fun _ _ => rfl⟩

theorem IsReliable.writeBreakdown? (reliable : streams.IsReliable) :
    streams.writeBreakdown? = none :=
  reliable.unbroken streams.writes (Nat.le_refl _)

theorem IsReliable.writeError? (reliable : streams.IsReliable) (count : Nat) :
    streams.writeError? count = none := by
  simp [Streams.writeError?, reliable.writeBreakdown?, hasRoom, reliable.unlimited]

theorem IsReliable.write_eq (reliable : streams.IsReliable) (text : String) :
    streams.write text.toUTF8.data = streams.append text := by
  have all : text.toUTF8.data.take text.toUTF8.data.size = text.toUTF8.data := by
    simp [Array.extract_eq_self_of_le]
  simp only [write, accepted, append, reliable.writeBreakdown?, reliable.unlimited, all,
    Option.map_none]

theorem IsReliable.write (reliable : streams.IsReliable) (bytes : Array UInt8) :
    (streams.write bytes).IsReliable where
  unlimited := by simp [Streams.write, reliable.unlimited]
  unbroken number later := reliable.unbroken number (Nat.le_of_succ_le later)

theorem IsReliable.read (reliable : streams.IsReliable) : streams.read.IsReliable :=
  ⟨reliable.unlimited, reliable.unbroken⟩

end Streams

/-- The law that an output which no write fails on stays so. -/
def StepLaw.reliability : StepLaw where
  expression before later := before.streams.IsReliable → later.streams.IsReliable
  statement before later := before.streams.IsReliable → later.streams.IsReliable
  refl _ := id
  expression_trans early late := late ∘ early
  statement_trans early late := late ∘ early
  weaken kept := kept
  newArray _ _ := id
  extendArray _ _ _ := id
  assign _ := id
  write _ bytes reliable := reliable.write bytes
  limit _ := id
  call kept := kept
  embedded kept := kept
  define _ _ _ := id
  defineFunction _ _ _ := id
  readLine _ reliable := reliable.read
  put _ _ := id
  take _ _ _ := id
  frame kept := kept

/-- The characters put into the buffer, the first one first. Those of embedded programs went into
other buffers. -/
def putIn : List Event → List Char
  | [] => []
  | .put character :: events => putIn events ++ [character]
  | _ :: events => putIn events

/-- The characters taken out of the buffer, the first one first. -/
def takenOut : List Event → List Char
  | [] => []
  | .taken _ characters :: events => takenOut events ++ characters
  | _ :: events => takenOut events

/-- Does an event leave the buffer of its machine alone? -/
def Event.sparesBuffer : Event → Bool
  | .put _ | .taken _ _ => false
  | _ => true

/-- Some events, the latest first, turn one queue of characters into another: they put characters in
at its end and take out those at its beginning. -/
inductive Queued (before : List Char) : List Event → List Char → Prop where
  | nothing : Queued before [] before
  | put {events : List Event} {queue : List Char} (character : Char)
      (queued : Queued before events queue) :
      Queued before (.put character :: events) (queue ++ [character])
  | taken {events : List Event} {characters queue : List Char} (direction : Direction)
      (queued : Queued before events (characters ++ queue)) :
      Queued before (.taken direction characters :: events) queue
  | spared {event : Event} {events : List Event} {queue : List Char}
      (spares : event.sparesBuffer) (queued : Queued before events queue) :
      Queued before (event :: events) queue

namespace Queued

variable {first second third : List Char} {events later : List Event}

theorem trans (early : Queued first events second) (late : Queued second later third) :
    Queued first (later ++ events) third := by
  induction late with
  | nothing => exact early
  | put character _ ih => exact ih.put character
  | taken direction _ ih => exact ih.taken direction
  | spared spares _ ih => exact ih.spared spares

/-- What was in the queue and what was put in has been taken out, in this order, or is in it
still. -/
theorem conserved (queued : Queued first events second) :
    first ++ putIn events = takenOut events ++ second := by
  induction queued with
  | nothing => simp [putIn, takenOut]
  | put character _ ih => simp only [putIn, takenOut, ← List.append_assoc, ih]
  | taken direction _ ih => simp [putIn, takenOut, ih]
  | @spared event _ _ spares _ ih =>
      cases event with
      | put character => cases spares
      | taken direction characters => cases spares
      | _ => exact ih

end Queued

/-- The history between two machines turns the buffer of the first one into that of the second. -/
def Machine.Replays (before later : Machine) : Prop :=
  ∃ events, later.history = events ++ before.history ∧
    Queued before.buffer.toList events later.buffer.toList

namespace Machine.Replays

variable {first second third before later : Machine}

theorem refl (machine : Machine) : machine.Replays machine :=
  ⟨[], rfl, .nothing⟩

theorem trans (early : first.Replays second) (late : second.Replays third) :
    first.Replays third := by
  rcases early with ⟨events, historyEarly, queuedEarly⟩
  rcases late with ⟨more, historyLate, queuedLate⟩
  refine ⟨more ++ events, ?_, queuedEarly.trans queuedLate⟩
  simp [historyLate, historyEarly]

theorem of_spared {event : Event} (spares : event.sparesBuffer)
    (history : later.history = event :: before.history) (buffer : later.buffer = before.buffer) :
    before.Replays later := by
  refine ⟨[event], history, ?_⟩
  rw [buffer]
  exact Queued.nothing.spared spares

theorem read (machine : Machine) : machine.Replays (Exec.behindRead machine) := by
  rw [Exec.behindRead]
  cases machine.streams.delivery with
  | line line => exact .of_spared rfl rfl rfl
  | failed _ | atEnd => exact ⟨[], rfl, .nothing⟩

theorem put (machine : Machine) (character : Char) :
    machine.Replays
      { machine with
        buffer := machine.buffer.push character
        history := .put character :: machine.history } := by
  refine ⟨[.put character], rfl, ?_⟩
  simpa using Queued.nothing.put character

theorem take (machine : Machine) (direction : Direction) (count : Nat) :
    machine.Replays (Exec.behindTake direction count machine) := by
  refine ⟨[.taken direction (machine.buffer.take count).toList], rfl, .taken direction ?_⟩
  have parts : (machine.buffer.take count).toList ++ (machine.buffer.drop count).toList =
      machine.buffer.toList := by
    simp [List.take_of_length_le]
  simpa only [Exec.behindTake, parts] using Queued.nothing

end Machine.Replays

/-- The law that the history tells how the buffer has come about. -/
def StepLaw.buffer : StepLaw where
  expression := Machine.Replays
  statement := Machine.Replays
  refl := .refl
  expression_trans early late := early.trans late
  statement_trans early late := early.trans late
  weaken replays := replays
  newArray _ _ := .of_spared rfl rfl rfl
  extendArray _ _ _ := .of_spared rfl rfl rfl
  assign {machine} _ _ _ _ := .refl machine
  write machine _ := .refl machine
  limit _ := .of_spared rfl rfl rfl
  call replays := replays
  embedded _ := .of_spared rfl rfl rfl
  define machine _ _ := .refl machine
  defineFunction machine _ _ := .refl machine
  readLine := .read
  put := .put
  take {machine} direction {count} _ := .take machine direction count
  frame replays := replays

namespace Exec

variable {value : Value} {machine : Machine}

/-- How the output of one character ends if no write fails: the character goes to the output and to
the end of the buffer, or nothing happens. -/
inductive OutputEnds (value : Value) (machine : Machine) :
    EStateM.Result Stop Machine Completion → Prop where
  | written {character : Char}
      (isFirst : characterOf? value machine = .ok (some character) machine) :
      OutputEnds value machine (.ok .normal
        { machine with
          buffer := machine.buffer.push character
          streams := machine.streams.append character.toString
          history := .put character :: machine.history })
  | nothing (noCharacter : characterOf? value machine = .ok none machine) :
      OutputEnds value machine (.ok .normal machine)
  | failed {stop : Stop} (refused : characterOf? value machine = .error stop machine) :
      OutputEnds value machine (.error stop machine)

/-- How the output of several characters ends if no write fails: where there are so many, the oldest
ones leave the buffer and go to the output, and otherwise nothing happens. -/
inductive OutputManyEnds (direction : Direction) (value : Value) (machine : Machine) :
    EStateM.Result Stop Machine Completion → Prop where
  | written {count : Nat} (isCount : value.natural? = some count)
      (enough : count ≤ machine.buffer.size) :
      OutputManyEnds direction value machine (.ok .normal
        { machine with
          buffer := machine.buffer.drop count
          streams := machine.streams.append (ordered direction (machine.buffer.take count).toList)
          history := .taken direction (machine.buffer.take count).toList :: machine.history })
  | failed {stop : Stop}
      (tooMany : ∀ count, value.natural? = some count → machine.buffer.size < count) :
      OutputManyEnds direction value machine (.error stop machine)

theorem write_of_isReliable (reliable : machine.streams.IsReliable) (text : String) :
    write text machine = .ok () { machine with streams := machine.streams.append text } := by
  rw [write_apply, reliable.writeError?, reliable.write_eq, writeResult]

theorem outputEnds (reliable : machine.streams.IsReliable) (value : Value) :
    OutputEnds value machine ((output value >>= fun _ => pure .normal) machine) := by
  have leftAlone := (looksAt_characterOf? value).leftAlone machine
  rw [output, bind_assoc, bind_apply]
  cases isFirst : characterOf? value machine with
  | error stop later =>
      rw [isFirst] at leftAlone
      cases leftAlone
      exact .failed isFirst
  | ok found later =>
      rw [isFirst] at leftAlone
      cases leftAlone
      cases found with
      | none => exact .nothing isFirst
      | some character =>
          let behind : Machine :=
            { machine with
              buffer := machine.buffer.push character
              history := .put character :: machine.history }
          have reliableBehind : behind.streams.IsReliable := reliable
          change OutputEnds value machine
            ((write character.toString >>= fun _ => pure .normal) behind)
          rw [bind_of_ok (write_of_isReliable reliableBehind _)]
          exact .written isFirst

theorem outputManyEnds (reliable : machine.streams.IsReliable) (direction : Direction)
    (value : Value) :
    OutputManyEnds direction value machine
      ((outputMany direction value >>= fun _ => pure .normal) machine) := by
  rw [outputMany_eq, bind_assoc, bind_apply]
  cases isCount : value.natural? with
  | none =>
      have refused : ∃ stop, countOf value machine = .error stop machine := by
        rw [countOf, isCount]
        change ∃ stop, (textOf value >>= fun text => fail (.countNotNatural text)) machine = _
        rw [bind_apply, textOf_apply]
        cases machine.heap.content? value with
        | none => exact ⟨_, rfl⟩
        | some content => exact ⟨_, rfl⟩
      rcases refused with ⟨stop, refused⟩
      rw [refused]
      apply OutputManyEnds.failed
      intro count found
      cases isCount.symm.trans found
  | some count =>
      have counted : countOf value machine = .ok count machine := by
        rw [countOf, isCount]
        rfl
      simp only [counted, bind_apply, takeOut_apply]
      by_cases short : machine.buffer.size < count
      · rw [if_pos short]
        apply OutputManyEnds.failed
        intro other found
        cases isCount.symm.trans found
        exact short
      · have reliableBehind : (behindTake direction count machine).streams.IsReliable := reliable
        rw [if_neg short, write_of_isReliable reliableBehind]
        exact .written isCount (Nat.le_of_not_lt short)

/-- The buffer is the same, and nothing is recorded to have been put into it or taken out. -/
def SparesBuffer (before later : Machine) : Prop :=
  later.buffer = before.buffer ∧
    ∃ events, later.history = events ++ before.history ∧ events.all Event.sparesBuffer

theorem sparesBuffer_refl (machine : Machine) : SparesBuffer machine machine :=
  ⟨rfl, [], rfl, rfl⟩

theorem sparesBuffer_of_event {event : Event} {before later : Machine}
    (spares : event.sparesBuffer) (buffer : later.buffer = before.buffer)
    (history : later.history = event :: before.history) : SparesBuffer before later :=
  ⟨buffer, [event], history, by simp [spares]⟩

theorem sparesBuffer_list (values : List Value) (machine : Machine) :
    SparesBuffer machine ((list values).after machine) := by
  rw [list.eq_def]
  split
  · rename_i value
    have shown : SparesBuffer machine
        ((textOf value >>= fun text => write text >>= fun _ => pure Value.nil).after machine) := by
      rw [after, bind_apply, textOf_apply]
      cases machine.heap.content? value with
      | none => exact sparesBuffer_refl machine
      | some content =>
          dsimp only
          rw [bind_apply, write_apply]
          cases machine.streams.writeError? content.text.toUTF8.data.size with
          | none => exact ⟨rfl, [], rfl, rfl⟩
          | some reason => exact ⟨rfl, [], rfl, rfl⟩
    split
    · exact shown
    · exact shown
    · exact sparesBuffer_refl machine
  · exact sparesBuffer_refl machine

theorem sparesBuffer_runText (options : Options) (execute : Statement → Exec Completion)
    (code : String) (machine : Machine) :
    SparesBuffer machine ((runText options execute code).after machine) := by
  have closed (inner : Machine) : SparesBuffer machine (behindEmbedded machine inner) :=
    sparesBuffer_of_event rfl rfl rfl
  rw [runText]
  cases readProgram options.policy code with
  | error error => exact sparesBuffer_refl machine
  | ok block =>
      dsimp only
      rw [after, bind_apply, runEmbedded_apply]
      rcases executeAll execute block (.fresh machine.streams (machine.depth + 1)) with
        ⟨completion, inner⟩ | ⟨error | reason, inner⟩
      · exact closed inner
      · exact closed inner
      · exact closed inner

theorem sparesBuffer_embedded (options : Options) (execute : Statement → Exec Completion)
    (values : List Value) (machine : Machine) :
    SparesBuffer machine ((embedded options execute values).after machine) := by
  by_cases isText : ∃ code, values = [.string code]
  · rcases isText with ⟨code, rfl⟩
    rw [after, embedded_eq, unlessDeep_apply]
    cases depthExceeded options machine.depth with
    | none => exact sparesBuffer_runText options execute code machine
    | some limit => exact sparesBuffer_of_event rfl rfl rfl
  · rw [embedded_refused options execute isText]
    exact sparesBuffer_refl machine

theorem sparesBuffer_call (options : Options) {evaluate : Expr → Exec Value}
    (execute : Statement → Exec Completion) {callee : Callee} {arguments : List Expr}
    (spares : callee = .named "list" ∨ callee = .embedded) {start machine : Machine}
    {values : List Value} (evaluated : evaluateAll evaluate arguments start = .ok values machine) :
    SparesBuffer machine ((call options evaluate execute callee arguments).after start) := by
  rw [call, after, bind_of_ok evaluated]
  rcases spares with rfl | rfl
  · exact sparesBuffer_list values machine
  · exact sparesBuffer_embedded options execute values machine

theorem after_callStatement (options : Options) (fuel : Nat) (callee : Callee)
    (arguments : List Expr) (start : Machine) :
    (execute options (fuel + 1) (.call callee arguments)).after start =
      (evaluate options (fuel + 1) (.call callee arguments)).after start := by
  rw [execute, evaluate]
  simp only [executeWith, evaluateWith, after, bind_apply, discard_apply]
  cases call options (evaluate options fuel) (execute options fuel) callee arguments start <;> rfl

/-- As long as no write fails, the buffer is a queue over whole runs: whatever programs run on one
machine, what was in it and what they put in has been taken out, in this order, or is in it still.
Output statements put in the character that they write, and take out the oldest characters to write
them, in order or reversed, or else they fail and change nothing. Other output and embedded programs
leave the buffer alone. -/
theorem buffer_is_queue (options : Options) (fuel : Nat) {start : Machine}
    (reliable : start.streams.IsReliable) :
    (∀ blocks,
      let later := start.afterAll options fuel blocks
      later.streams.IsReliable ∧
        ∃ events, later.history = events ++ start.history ∧
          Queued start.buffer.toList events later.buffer.toList ∧
          start.buffer.toList ++ putIn events = takenOut events ++ later.buffer.toList) ∧
    (∀ expression value machine,
      evaluate options fuel expression start = .ok value machine →
      OutputEnds value machine (execute options (fuel + 1) (.output expression) start) ∧
      ∀ direction,
        OutputManyEnds direction value machine
          (execute options (fuel + 1) (.outputMany direction expression) start)) ∧
    ∀ arguments values machine,
      evaluateAll (evaluate options fuel) arguments start = .ok values machine →
      ∀ callee, callee = .named "list" ∨ callee = .embedded →
        SparesBuffer machine
          ((evaluate options (fuel + 1) (.call callee arguments)).after start) ∧
        SparesBuffer machine
          ((execute options (fuel + 1) (.call callee arguments)).after start) := by
  refine ⟨?_, ?_, ?_⟩
  · intro blocks
    have stays := StepLaw.reliability.keeps_afterAll options fuel start blocks
    rcases StepLaw.buffer.keeps_afterAll options fuel start blocks with ⟨events, history, queued⟩
    exact ⟨stays reliable, events, history, queued, queued.conserved⟩
  · intro expression value machine evaluated
    have stays := (StepLaw.reliability.keeps_run options fuel).1 expression start
    rw [after_of_ok evaluated] at stays
    constructor
    · simp only [execute, executeWith]
      rw [bind_of_ok evaluated]
      exact outputEnds (stays reliable) value
    · intro direction
      simp only [execute, executeWith]
      rw [bind_of_ok evaluated]
      exact outputManyEnds (stays reliable) direction value
  · intro arguments values machine evaluated callee spares
    rw [after_callStatement]
    have spared := sparesBuffer_call options (execute options fuel) spares evaluated
    exact ⟨spared, spared⟩

/-- Three characters are put in; more are asked for than there are, and then two. -/
def bufferingSession : List Block :=
  [[.output (.string "A"), .output (.string "B"), .output (.string "C")],
    [.attempt [.outputMany .oldestFirst (.bits [true, true, true, true])]
      [.outputMany .newestFirst (.bits [true, false])]]]

theorem buffer_is_queue_bufferingSession :
    let start := Machine.fresh (.ofInput [] none) 0
    let later := start.afterAll {} 3 bufferingSession
    start.streams.IsReliable ∧ later.streams.written = "ABCBA".toUTF8.data ∧
      putIn later.history = ['A', 'B', 'C'] ∧ takenOut later.history = ['A', 'B'] ∧
      later.buffer = #['C'] ∧
      start.buffer.toList ++ putIn later.history =
        takenOut later.history ++ later.buffer.toList := by
  intro start later
  have reliable : start.streams.IsReliable := Streams.isReliable_ofInput []
  obtain ⟨-, events, history, -, conserved⟩ :=
    (buffer_is_queue {} 3 reliable).1 bufferingSession
  have isHistory : later.history = events := history.trans (List.append_nil events)
  refine ⟨reliable, ?_, ?_, ?_, ?_, ?_⟩
  · decide +kernel
  · decide +kernel
  · decide +kernel
  · decide +kernel
  · rw [isHistory]
    exact conserved

end Exec

end Mel

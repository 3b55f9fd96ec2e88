import Mel.Proofs.ScopeDiscipline
import Mel.Proofs.Scopes
import Mathlib.Data.List.TakeWhile

/-!
# Input in lines

Input is taken in whole lines, from the first one on and each of them once, whoever takes
it: the program itself, its functions and handlers, the programs embedded in it and those
that are run after it. A line that turns out to be no text, or that no variable is there
for, has been taken all the same.

The lines of an input are defined here on the bytes alone. That a run has taken the first
of them is a law of steps, where the history tells which ones it took. The input may come in
bit by bit, and for ever, as long as none of the reads breaks down and nothing comes in
behind an unfinished line, which has been taken for the last one.
-/

namespace Mel

mutual

/-- The lines that were taken in an event, also by an embedded program. -/
def Event.linesTaken : Event → List (List UInt8)
  | .lineRead line => [line]
  | .embedded events => linesTakenIn events
  | .put _ | .taken _ _ | .arrayMade _ | .arrayExtended _ _ | .limitReached => []

/-- The lines that were taken in a history, the first one first, also by embedded programs. -/
def linesTakenIn : List Event → List (List UInt8)
  | [] => []
  | event :: events => linesTakenIn events ++ event.linesTaken

end

theorem linesTakenIn_append (later events : List Event) :
    linesTakenIn (later ++ events) = linesTakenIn events ++ linesTakenIn later := by
  induction later with
  | nil => simp [linesTakenIn]
  | cons event later ih => simp [linesTakenIn, ih]

namespace Streams

/-- The lines of some bytes, each with the line feed that ends it; the last one may have none. -/
def lines : List UInt8 → List (List UInt8)
  | [] => []
  | byte :: bytes =>
      if byte = lineFeed then [byte] :: lines bytes
      else
        match lines bytes with
        | [] => [[byte]]
        | line :: rest => (byte :: line) :: rest

/-- No line is lost, and none is empty. -/
theorem flatten_lines (bytes : List UInt8) : (lines bytes).flatten = bytes := by
  induction bytes with
  | nil => rfl
  | cons byte bytes ih =>
      rw [lines]
      split
      · simp [ih]
      · split
        · rename_i noLine
          rw [noLine] at ih
          simp [← ih]
        · rename_i line rest isLines
          rw [isLines] at ih
          simp [← ih]

/-- A line feed is the last byte of its line. -/
theorem lineFeed_of_mem_lines {bytes line : List UInt8} (isLine : line ∈ lines bytes) :
    line ≠ [] ∧ lineFeed ∉ line.dropLast := by
  induction bytes generalizing line with
  | nil => cases isLine
  | cons byte bytes ih =>
      rw [lines] at isLine
      split at isLine
      · rcases List.mem_cons.mp isLine with rfl | isLater
        · simp
        · exact ih isLater
      · rename_i noEnd
        split at isLine
        · rcases List.mem_singleton.mp isLine with rfl
          simp
        · rename_i first rest isLines
          rcases List.mem_cons.mp isLine with rfl | isLater
          · rcases ih (isLines ▸ List.mem_cons_self) with ⟨nonempty, within⟩
            rw [List.dropLast_cons_of_ne_nil nonempty]
            simp [Ne.symm noEnd, within]
          · exact ih (isLines ▸ List.mem_cons_of_mem first isLater)

theorem lines_eq_cons {bytes : List UInt8} (nonempty : bytes ≠ []) :
    lines bytes = line bytes :: lines (afterLine bytes) := by
  induction bytes with
  | nil => exact (nonempty rfl).elim
  | cons byte bytes ih =>
      by_cases ends : byte = lineFeed
      · simp [lines, line, afterLine, ends]
      · have lineCons : line (byte :: bytes) = byte :: line bytes := by simp [line, ends]
        have afterCons : afterLine (byte :: bytes) = afterLine bytes := by simp [afterLine, ends]
        rw [lines, if_neg ends, lineCons, afterCons]
        rcases bytes with _ | ⟨next, bytes⟩
        · rfl
        · rw [ih (List.cons_ne_nil next bytes)]

/-- The bytes end where a line does. -/
def EndWhole (bytes : List UInt8) : Prop :=
  ∀ byte ∈ bytes.getLast?, byte = lineFeed

theorem EndWhole.of_append (front : List UInt8) {bytes : List UInt8}
    (whole : EndWhole (front ++ bytes)) : EndWhole bytes := by
  intro byte isLast
  apply whole
  rw [List.getLast?_append, isLast]
  rfl

/-- Behind a line that has its end a new one begins. -/
theorem lines_append {bytes : List UInt8} (whole : EndWhole bytes) (later : List UInt8) :
    lines (bytes ++ later) = lines bytes ++ lines later := by
  induction bytes with
  | nil => rfl
  | cons byte bytes ih =>
      have wholeLater : EndWhole bytes := .of_append [byte] whole
      rw [List.cons_append, lines, lines, ih wholeLater]
      by_cases ends : byte = lineFeed
      · rw [if_pos ends, if_pos ends, List.cons_append]
      · have nonempty : bytes ≠ [] := by
          rintro rfl
          exact ends (whole byte rfl)
        rw [if_neg ends, if_neg ends, lines_eq_cons nonempty]
        rfl

/-- What comes in before the next reads, as many as `count`. -/
def incoming (streams : Streams) (count : Nat) : List UInt8 :=
  (List.range count).flatMap fun read => streams.arrivals (streams.reads + read)

/-- None of the next reads, as many as `count`, breaks down, and nothing comes in before them behind
an unfinished line. An input that is all there from the beginning, with `Streams.ofInput`, is steady
for any number of reads. -/
structure IsSteady (streams : Streams) (count : Nat) : Prop where
  unbroken : ∀ read < count, streams.readBreakdowns (streams.reads + read) = none
  whole : ∀ read < count, streams.arrivals (streams.reads + read) ≠ [] →
    EndWhole (streams.unread ++ streams.incoming read)

variable {streams before later first second third : Streams} {count reads more : Nat}
  {taken takenMore : List (List UInt8)}

theorem incoming_succ (streams : Streams) (count : Nat) :
    streams.incoming (count + 1) =
      streams.arrivals streams.reads ++ streams.read.incoming count := by
  simp only [incoming, read, List.range_succ_eq_map, List.flatMap_cons, List.flatMap_map,
    Nat.add_zero, Nat.succ_eq_add_one, Nat.add_right_comm, Nat.add_assoc]

theorem IsSteady.mono (steady : streams.IsSteady more) (le : count ≤ more) :
    streams.IsSteady count :=
  ⟨fun read lt => steady.unbroken read (Nat.lt_of_lt_of_le lt le),
    fun read lt => steady.whole read (Nat.lt_of_lt_of_le lt le)⟩

theorem IsSteady.readBreakdown? (steady : streams.IsSteady (count + 1)) :
    streams.readBreakdown? = none :=
  steady.unbroken 0 (Nat.succ_pos count)

theorem read_of_unbroken (unbroken : streams.readBreakdown? = none) :
    streams.read =
      { streams with unread := afterLine streams.arrived, reads := streams.reads + 1 } := by
  rw [read, leftover, unbroken]

theorem IsSteady.read (steady : streams.IsSteady (count + 1)) : streams.read.IsSteady count where
  unbroken later lt := by
    have unbroken := steady.unbroken (later + 1) (Nat.succ_lt_succ lt)
    rwa [← Nat.add_assoc, Nat.add_right_comm] at unbroken
  whole later lt arrives := by
    have whole := steady.whole (later + 1) (Nat.succ_lt_succ lt)
    rw [← Nat.add_assoc, Nat.add_right_comm] at whole
    have isWhole := whole arrives
    rw [incoming_succ, ← List.append_assoc] at isWhole
    change EndWhole (streams.arrived ++ _) at isWhole
    rw [← line_append_afterLine streams.arrived, List.append_assoc] at isWhole
    rw [read_of_unbroken steady.readBreakdown?] at isWhole ⊢
    exact .of_append _ isWhole

/-- The lines that come in before the next reads, as many as `count`. -/
def linesIncoming (streams : Streams) (count : Nat) : List (List UInt8) :=
  (List.range count).flatMap fun read => lines (streams.arrivals (streams.reads + read))

/-- What comes in is cut into lines by itself. -/
theorem IsSteady.lines_incoming (steady : streams.IsSteady count) :
    lines (streams.unread ++ streams.incoming count) =
      lines streams.unread ++ streams.linesIncoming count := by
  induction count with
  | zero => simp [incoming, linesIncoming]
  | succ count ih =>
      rw [incoming, linesIncoming, List.range_succ, List.flatMap_append, List.flatMap_append,
        List.flatMap_singleton, List.flatMap_singleton, ← List.append_assoc, ← List.append_assoc,
        ← linesIncoming, ← ih (steady.mono (Nat.le_succ count)), ← incoming]
      by_cases arrives : streams.arrivals (streams.reads + count) = []
      · simp [arrives, lines]
      · exact lines_append (steady.whole count (Nat.lt_succ_self count) arrives) _

theorem IsSteady.lines_arrived (steady : streams.IsSteady 1) :
    lines streams.arrived = lines streams.unread ++ streams.linesIncoming 1 := by
  rw [← steady.lines_incoming, incoming, List.range_one, List.flatMap_singleton]
  rfl

/-- As many reads have taken these lines off the input, if it was steady for so long, and the rest
of it is as it was. -/
structure Consumes (before : Streams) (reads : Nat) (taken : List (List UInt8)) (later : Streams) :
    Prop where
  count : later.reads = before.reads + reads
  arrivals : later.arrivals = before.arrivals
  steady : ∀ more, before.IsSteady (reads + more) → later.IsSteady more
  lines : before.IsSteady reads →
    lines before.unread ++ before.linesIncoming reads = taken ++ lines later.unread

theorem Consumes.refl (streams : Streams) : streams.Consumes 0 [] streams :=
  ⟨rfl, rfl, fun _ steady => steady.mono (Nat.le_add_left _ _), fun _ => List.append_nil _⟩

theorem Consumes.trans (early : first.Consumes reads taken second)
    (late : second.Consumes more takenMore third) :
    first.Consumes (reads + more) (taken ++ takenMore) third where
  count := by rw [late.count, early.count, Nat.add_assoc]
  arrivals := late.arrivals.trans early.arrivals
  steady further steady :=
    late.steady further (early.steady _ (Nat.add_assoc reads more further ▸ steady))
  lines := by
    intro steady
    have parts : first.linesIncoming (reads + more) =
        first.linesIncoming reads ++ second.linesIncoming more := by
      simp only [linesIncoming, early.count, early.arrivals, List.range_add, List.flatMap_append,
        List.flatMap_map, Nat.add_assoc]
    rw [parts, ← List.append_assoc, early.lines (steady.mono (Nat.le_add_right reads more)),
      List.append_assoc, late.lines (early.steady more steady), List.append_assoc]

theorem Consumes.read (streams : Streams) :
    streams.Consumes 1 (linesTakenIn (Exec.eventsRead streams.delivery)) streams.read where
  count := rfl
  arrivals := rfl
  steady more steady := .read (Nat.add_comm 1 more ▸ steady)
  lines := by
    intro steady
    have unbroken := steady.readBreakdown?
    rw [← steady.lines_arrived, read_of_unbroken unbroken, delivery, unbroken]
    by_cases atEnd : streams.arrived = []
    · rw [atEnd]
      rfl
    · have notEmpty : ¬streams.arrived.isEmpty := by simpa using atEnd
      rw [lines_eq_cons atEnd]
      simp [notEmpty, Exec.eventsRead, linesTakenIn, Event.linesTaken]

end Streams

/-- Does a character belong to the end of a line? -/
def IsLineEnd (character : Char) : Prop :=
  character = '\n' ∨ character = '\r'

/-- A line is the encoding of a text and of line feeds and carriage returns behind it, none of which
belongs to the text. -/
structure Delivers (line : List UInt8) (text : String) : Prop where
  encoded : ∃ ends : List Char, (∀ character ∈ ends, IsLineEnd character) ∧
    (String.ofList (text.toList ++ ends)).toUTF8.data.toList = line
  stripped : ∀ character, text.toList.getLast? = some character → ¬IsLineEnd character

theorem encodes_of_fromUTF8? {bytes : ByteArray} {text : String}
    (decoded : String.fromUTF8? bytes = some text) : text.toUTF8 = bytes := by
  rw [String.fromUTF8?] at decoded
  split at decoded
  · cases decoded
    rfl
  · cases decoded

theorem delivers_of_ofLine? {line : List UInt8} {text : String}
    (read : Text.ofLine? line = some text) : Delivers line text := by
  rw [Text.ofLine?, Option.map_eq_some_iff] at read
  rcases read with ⟨whole, decoded, rfl⟩
  generalize isEnd : (fun character : Char => decide (character = '\n' ∨ character = '\r')) = ends
  have isEnd (character : Char) : ends character = true ↔ IsLineEnd character := by
    rw [← isEnd, decide_eq_true_iff, IsLineEnd]
  constructor
  · refine ⟨(whole.toList.reverse.takeWhile ends).reverse, ?_, ?_⟩
    · intro character isThere
      exact (isEnd character).mp (List.mem_takeWhile_imp (List.mem_reverse.mp isThere))
    · rw [String.toList_ofList, ← List.reverse_append, List.takeWhile_append_dropWhile,
        List.reverse_reverse, String.ofList_toList, encodes_of_fromUTF8? decoded]
  · intro character isLast atEnd
    rw [String.toList_ofList, List.getLast?_reverse] at isLast
    have first := List.head?_dropWhile_not ends whole.toList.reverse
    rw [isLast] at first
    exact Bool.false_ne_true (first.symm.trans ((isEnd character).mpr atEnd))

theorem ne_of_ofLine? {line : List UInt8} (notText : Text.ofLine? line = none) (text : String) :
    text.toUTF8.data.toList ≠ line := by
  rintro rfl
  have decoded : String.fromUTF8? text.toUTF8 = some text := dif_pos text.isValidUTF8
  have read : Text.ofLine? text.toUTF8.data.toList ≠ none := by
    rw [Text.ofLine?, Array.toArray_toList, decoded]
    exact Option.some_ne_none _
  exact read notText

/-- The lines that the history tells of have been taken off the input. -/
def Machine.TakesLines (before later : Machine) : Prop :=
  ∃ events reads, later.history = events ++ before.history ∧
    before.streams.Consumes reads (linesTakenIn events) later.streams

namespace Machine.TakesLines

variable {first second third before later : Machine}

theorem refl (machine : Machine) : machine.TakesLines machine :=
  ⟨[], 0, rfl, .refl machine.streams⟩

theorem trans (early : first.TakesLines second) (late : second.TakesLines third) :
    first.TakesLines third := by
  rcases early with ⟨events, reads, historyEarly, takenEarly⟩
  rcases late with ⟨eventsLate, readsLate, historyLate, takenLate⟩
  refine ⟨eventsLate ++ events, reads + readsLate, ?_, ?_⟩
  · simp [historyLate, historyEarly]
  · rw [linesTakenIn_append]
    exact takenEarly.trans takenLate

/-- An event without input. -/
theorem of_event {event : Event} (noLine : event.linesTaken = [])
    (history : later.history = event :: before.history)
    (streams : later.streams = before.streams) : before.TakesLines later := by
  refine ⟨[event], 0, history, ?_⟩
  rw [streams, linesTakenIn, linesTakenIn, noLine]
  exact .refl before.streams

theorem write (machine : Machine) (bytes : Array UInt8) :
    machine.TakesLines { machine with streams := machine.streams.write bytes } := by
  refine ⟨[], 0, rfl, rfl, rfl, fun more steady => ?_, fun _ => List.append_nil _⟩
  have same := steady.mono (Nat.le_add_left more 0)
  exact ⟨same.unbroken, same.whole⟩

theorem read (machine : Machine) : machine.TakesLines (Exec.behindRead machine) :=
  ⟨Exec.eventsRead machine.streams.delivery, 1, rfl, .read machine.streams⟩

theorem embedded {machine inner : Machine}
    (takes : (Machine.fresh machine.streams (machine.depth + 1)).TakesLines inner) :
    machine.TakesLines (Exec.behindEmbedded machine inner) := by
  rcases takes with ⟨events, reads, history, isTaken⟩
  have isHistory : inner.history = events := history.trans (List.append_nil events)
  refine ⟨[.embedded inner.history], reads, rfl, ?_⟩
  rw [linesTakenIn, linesTakenIn, Event.linesTaken, isHistory]
  exact isTaken

end Machine.TakesLines

/-- The law that input is taken line by line. -/
def StepLaw.input : StepLaw where
  expression := Machine.TakesLines
  statement := Machine.TakesLines
  refl := .refl
  expression_trans early late := early.trans late
  statement_trans early late := early.trans late
  weaken takes := takes
  newArray _ _ := .of_event rfl rfl rfl
  extendArray _ _ _ := .of_event rfl rfl rfl
  assign {machine} _ _ _ _ := ⟨[], 0, rfl, .refl machine.streams⟩
  write := .write
  limit _ := .of_event rfl rfl rfl
  call takes := takes
  embedded takes := takes.embedded
  define machine _ _ := .refl machine
  defineFunction machine _ _ := .refl machine
  readLine := .read
  put _ _ := .of_event rfl rfl rfl
  take _ _ _ := .of_event rfl rfl rfl
  frame takes := takes

/-- What is still to come in has not changed. If the input was steady for the reads that there were,
then of what was there or has come in with them as many lines as the history tells of are gone from
the beginning, and these are the ones that it tells of: whole lines, with a line feed at the end at
most. -/
def Machine.ReadsLines (before later : Machine) : Prop :=
  ∃ events reads, later.history = events ++ before.history ∧
    later.streams.reads = before.streams.reads + reads ∧
    later.streams.arrivals = before.streams.arrivals ∧
    (before.streams.IsSteady reads →
      let lines := Streams.lines (before.streams.unread ++ before.streams.incoming reads)
      let count := (linesTakenIn events).length
      linesTakenIn events = lines.take count ∧
        later.streams.unread = (lines.drop count).flatten ∧
        ∀ line ∈ linesTakenIn events, line ≠ [] ∧ Streams.lineFeed ∉ line.dropLast)

theorem Machine.TakesLines.readsLines {before later : Machine} (takes : before.TakesLines later) :
    before.ReadsLines later := by
  rcases takes with ⟨events, reads, history, taken⟩
  refine ⟨events, reads, history, taken.count, taken.arrivals, fun steady => ?_⟩
  have isTaken : Streams.lines (before.streams.unread ++ before.streams.incoming reads) =
      linesTakenIn events ++ Streams.lines later.streams.unread := by
    rw [steady.lines_incoming, taken.lines steady]
  refine ⟨?_, ?_, fun line isLine => ?_⟩
  · rw [isTaken, List.take_left]
  · rw [isTaken, List.drop_left, Streams.flatten_lines]
  · apply Streams.lineFeed_of_mem_lines
    rw [isTaken]
    exact List.mem_append_left _ isLine

namespace Exec

/-- The machine of a run that has just taken a line and left these bytes unread. -/
def behindLine (line unread : List UInt8) (machine : Machine) : Machine :=
  { machine with
    streams := { machine.streams with unread, reads := machine.streams.reads + 1 }
    history := .lineRead line :: machine.history }

/-- How an input ends that has taken a line: with the text of the line in the variable, or for want
of a variable or of a text. -/
inductive InputEnds (name : String) (line : List UInt8) (reached : Machine) :
    EStateM.Result Stop Machine Completion → Prop where
  | assigned {text : String} (delivers : Delivers line text) {scope : Scope Value}
      (rebound : ∀ wanted, scope.get? wanted =
        if name = wanted then some (.string text) else reached.scope.get? wanted) :
      InputEnds name line reached (.ok .normal { reached with scope })
  | unbound {text : String} (delivers : Delivers line text)
      (unbound : reached.scope.get? name = none) :
      InputEnds name line reached (.error (.error (.undefinedVariable name)) reached)
  | notText (noText : ∀ text : String, text.toUTF8.data.toList ≠ line) :
      InputEnds name line reached (.error (.error .inputNotText) reached)

theorem input_of_error (options : Options) (fuel : Nat) (name : String) {machine : Machine}
    {error : RuntimeError} (noText : textRead machine.streams.delivery = .error error) :
    execute options (fuel + 1) (.input name) machine =
      .error (.error error) (behindRead machine) := by
  have stopped : readLine machine = .error (.error error) (behindRead machine) := by
    rw [readLine_apply, noText]
    rfl
  simp only [execute, executeWith]
  rw [bind_of_error stopped]

theorem input_broken (options : Options) (fuel : Nat) (name : String) {machine : Machine}
    {breakdown : Breakdown} (broken : machine.streams.readBreakdown? = some breakdown) :
    execute options (fuel + 1) (.input name) machine =
      .error (.error (.inputFailed breakdown.reason))
        { machine with streams := machine.streams.read } := by
  have isDelivery : machine.streams.delivery = .failed breakdown.reason := by
    rw [Streams.delivery, broken]
  have ended := input_of_error options fuel name (congrArg textRead isDelivery)
  rwa [behindRead, isDelivery] at ended

theorem input_atEnd (options : Options) (fuel : Nat) (name : String) {machine : Machine}
    (unbroken : machine.streams.readBreakdown? = none) (atEnd : machine.streams.arrived = []) :
    execute options (fuel + 1) (.input name) machine =
      .error (.error .endOfInput) { machine with streams := machine.streams.read } := by
  have isDelivery : machine.streams.delivery = .atEnd := by
    rw [Streams.delivery, unbroken, atEnd]
    rfl
  have ended := input_of_error options fuel name (congrArg textRead isDelivery)
  rwa [behindRead, isDelivery] at ended

theorem inputEnds (options : Options) (fuel : Nat) (name : String) {machine : Machine}
    {line : List UInt8} {rest : List (List UInt8)}
    (unbroken : machine.streams.readBreakdown? = none)
    (isLines : Streams.lines machine.streams.arrived = line :: rest) :
    InputEnds name line (behindLine line rest.flatten machine)
      (execute options (fuel + 1) (.input name) machine) := by
  have nonempty : machine.streams.arrived ≠ [] := by
    intro atEnd
    rw [atEnd] at isLines
    cases isLines
  have isTaken := Streams.lines_eq_cons nonempty
  rw [isLines, List.cons.injEq] at isTaken
  rcases isTaken with ⟨isLine, isRest⟩
  have isDelivery : machine.streams.delivery = .line line := by
    rw [Streams.delivery, unbroken, isLine]
    exact if_neg (by simpa using nonempty)
  have isBehind : behindRead machine = behindLine line rest.flatten machine := by
    rw [behindRead, isDelivery, Streams.read_of_unbroken unbroken, isRest, Streams.flatten_lines]
    rfl
  cases isText : Text.ofLine? line with
  | none =>
      have noText : textRead machine.streams.delivery = .error .inputNotText := by
        rw [isDelivery, textRead, isText]
      rw [input_of_error options fuel name noText, isBehind]
      exact .notText (ne_of_ofLine? isText)
  | some text =>
      have read : readLine machine = .ok text (behindLine line rest.flatten machine) := by
        rw [readLine_apply, isDelivery, textRead, isText, isBehind]
        rfl
      simp only [execute, executeWith]
      rw [bind_of_ok read, bind_apply, assign_apply]
      cases assigned : (behindLine line rest.flatten machine).scope.assign? name (.string text) with
      | none => exact .unbound (delivers_of_ofLine? isText) (Scope.get?_of_not_assign? assigned)
      | some scope => exact .assigned (delivers_of_ofLine? isText) (Scope.get?_assign? assigned)

/-- Input is taken in whole lines, each of them once: whatever is run, if the input is steady for as
long as it is read, then what is left of it is the input without its first lines, as many as were
taken, and these are the lines that were taken one after another. An input statement takes the next
line, if there is one, and with it assigns its text without the line's end, or fails because it is
no text or there is no such variable. It fails as well at the end of the input, and where the read
breaks down. -/
theorem input_is_read_in_lines (options : Options) (fuel : Nat) (start : Machine) :
    (∀ expression, start.ReadsLines ((evaluate options fuel expression).after start)) ∧
    (∀ statement, start.ReadsLines ((execute options fuel statement).after start)) ∧
    (∀ blocks, start.ReadsLines (start.afterAll options fuel blocks)) ∧
    ∀ name,
      (∀ breakdown, start.streams.readBreakdown? = some breakdown →
        execute options (fuel + 1) (.input name) start =
          .error (.error (.inputFailed breakdown.reason))
            { start with streams := start.streams.read }) ∧
      (start.streams.readBreakdown? = none →
        (start.streams.arrived = [] →
          execute options (fuel + 1) (.input name) start =
            .error (.error .endOfInput) { start with streams := start.streams.read }) ∧
        ∀ line rest, Streams.lines start.streams.arrived = line :: rest →
          InputEnds name line (behindLine line rest.flatten start)
            (execute options (fuel + 1) (.input name) start)) := by
  rcases StepLaw.input.keeps_run options fuel with ⟨evaluated, executed⟩
  refine ⟨?_, ?_, ?_, fun name => ⟨?_, fun unbroken => ⟨?_, ?_⟩⟩⟩
  · intro expression
    exact (evaluated expression start).readsLines
  · intro statement
    exact (executed statement start).readsLines
  · intro blocks
    exact (StepLaw.input.keeps_afterAll options fuel start blocks).readsLines
  · intro breakdown
    exact input_broken options fuel name
  · exact input_atEnd options fuel name unbroken
  · intro line rest
    exact inputEnds options fuel name unbroken

/-- Two lines, and a third one that comes in behind them and has no line feed. -/
def lateInput : Streams :=
  { Streams.ofInput "a\r\nb\n".toUTF8.toList none with
    arrivals := fun read => if read = 2 then "c".toUTF8.toList else [] }

/-- Two programs take a line each, the second one for a variable that there is not. -/
def inputSession : List Block :=
  [[.assign "x" (.sentinel .nil), .input "x"], [.attempt [.input "y"] []]]

theorem input_is_read_in_lines_inputSession :
    let start := Machine.fresh lateInput 0
    let later := start.afterAll {} 3 inputSession
    let last := "c".toUTF8.toList
    start.streams.IsSteady 3 ∧
      linesTakenIn later.history = ["a\r\n".toUTF8.toList, "b\n".toUTF8.toList] ∧
      later.streams.unread = [] ∧
      Streams.lines later.streams.arrived = last :: [] ∧
      InputEnds "x" last (behindLine last [] later) (execute {} 4 (.input "x") later) := by
  intro start later last
  have steady : start.streams.IsSteady 3 := by
    refine ⟨fun _ _ => rfl, fun read _ arrives => ?_⟩
    have isThird : read = 2 := by
      by_contra notThird
      exact arrives (if_neg fun isThird => notThird ((Nat.zero_add read).symm.trans isThird))
    subst isThird
    intro byte isLast
    have isLineFeed : ("a\r\nb\n".toUTF8.toList ++ lateInput.incoming 2).getLast? =
        some Streams.lineFeed := by
      decide +kernel
    exact (Option.some.inj (isLineFeed.symm.trans isLast)).symm
  have isTaken : linesTakenIn later.history = ["a\r\n".toUTF8.toList, "b\n".toUTF8.toList] := by
    decide +kernel
  have readTwice : later.streams.reads = 2 := by
    decide +kernel
  obtain ⟨events, reads, history, isReads, -, taken⟩ :=
    (input_is_read_in_lines {} 3 start).2.2.1 inputSession
  have isHistory : later.history = events := history.trans (List.append_nil events)
  have isTwo : reads = 2 := by
    rw [readTwice] at isReads
    exact (isReads.trans (Nat.zero_add reads)).symm
  have allTaken : later.streams.unread = [] := by
    subst isTwo
    obtain ⟨-, unread, -⟩ := taken (steady.mono (Nat.le_succ 2))
    rw [unread, ← isHistory, isTaken]
    decide +kernel
  have isLine : Streams.lines later.streams.arrived = last :: [] := by
    decide +kernel
  have unbroken : later.streams.readBreakdown? = none := by
    rw [← Option.isNone_iff_eq_none]
    decide +kernel
  refine ⟨steady, isTaken, allTaken, isLine, ?_⟩
  exact (((input_is_read_in_lines {} 3 later).2.2.2 "x").2 unbroken).2 last [] isLine

end Exec

end Mel

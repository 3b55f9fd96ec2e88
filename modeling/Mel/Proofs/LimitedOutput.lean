import Mel.Proofs.Fuel
import Mel.Proofs.Lockstep.Runs

/-!
# Limited output

An output with room for a limited number of bytes takes the beginning of what an
output without a limit would have taken.

The two runs go side by side up to the first write that does not fit. From there on
they may do different things, since a program can catch the failure. But then the
limited output is full, and a full output takes no more bytes, while the other one
keeps the bytes that it has.
-/

namespace Mel

namespace Streams

/-- The output has taken these bytes since, and there was room for them. -/
structure Takes (before later : Streams) (taken : Array UInt8) : Prop where
  written : later.written = before.written ++ taken
  room : later.room = before.room.map (· - taken.size)
  fits : ∀ {room}, before.room = some room → taken.size ≤ room

def Continues (before later : Streams) : Prop :=
  ∃ taken, before.Takes later taken

theorem continues_of_same {before later : Streams} (written : later.written = before.written)
    (room : later.room = before.room) : before.Continues later := by
  refine ⟨#[], ?_, ?_, ?_⟩
  · simp [written]
  · simp [room]
  · simp

theorem Continues.refl (streams : Streams) : streams.Continues streams :=
  continues_of_same rfl rfl

theorem Continues.trans {first second third : Streams} (early : first.Continues second)
    (late : second.Continues third) : first.Continues third := by
  rcases early with ⟨taken, early⟩
  rcases late with ⟨more, late⟩
  refine ⟨taken ++ more, ?_, ?_, ?_⟩
  · rw [late.written, early.written, Array.append_assoc]
  · rw [late.room, early.room]
    simp only [Option.map_map, Array.size_append]
    congr 1
    funext room
    simp only [Function.comp_apply]
    omega
  · intro room limited
    have fitsEarly := early.fits limited
    have fitsLate : more.size ≤ room - taken.size := by
      apply late.fits
      simp [early.room, limited]
    simp only [Array.size_append]
    omega

theorem accepted_le_room {streams : Streams} {room : Nat} (limited : streams.room = some room)
    (count : Nat) : streams.accepted count ≤ room := by
  simp only [accepted, limited]
  exact Nat.min_le_left _ _

theorem continues_write (streams : Streams) (bytes : Array UInt8) :
    streams.Continues (streams.write bytes) := by
  refine ⟨bytes.take (streams.accepted bytes.size), rfl, rfl, ?_⟩
  intro room limited
  have le := accepted_le_room limited bytes.size
  simp
  omega

/-- A full output takes no more bytes. -/
theorem Continues.of_full {before later : Streams} (continues : before.Continues later)
    (full : before.room = some 0) : later.written = before.written ∧ later.room = some 0 := by
  rcases continues with ⟨taken, takes⟩
  have isEmpty : taken = #[] := by
    apply Array.eq_empty_of_size_eq_zero
    exact Nat.le_zero.mp (takes.fits full)
  constructor
  · simp [takes.written, isEmpty]
  · simp [takes.room, full]

/-- The streams with this much room for output, where no write breaks down. -/
def withRoom (streams : Streams) (room : Option Nat) : Streams :=
  { streams with room, writeBreakdowns := fun _ => none }

theorem write_withRoom_none (streams : Streams) (bytes : Array UInt8) :
    (streams.withRoom none).write bytes =
      Streams.withRoom
        { streams with
          written := streams.written ++ bytes
          writes := streams.writes + 1 } none := by
  simp [write, withRoom, accepted, writeBreakdown?]

theorem write_withRoom_some (streams : Streams) (room : Nat) (bytes : Array UInt8) :
    (streams.withRoom (some room)).write bytes =
      Streams.withRoom
        { streams with
          written := streams.written ++ bytes.take room, writes := streams.writes + 1 }
        (some (room - bytes.size)) := by
  have offered : (streams.withRoom (some room)).accepted bytes.size = min room bytes.size := rfl
  have taken : bytes.take (min room bytes.size) = bytes.take room := by
    rcases Nat.le_total room bytes.size with le | le
    · rw [Nat.min_eq_left le]
    · rw [Nat.min_eq_right le]
      simp [Array.extract_eq_self_of_le, le]
  simp only [write, offered, taken]
  simp [withRoom]
  omega

theorem writeError?_withRoom_none (streams : Streams) (count : Nat) :
    (streams.withRoom none).writeError? count = none := rfl

theorem writeError?_withRoom_some {streams : Streams} {room count : Nat} (fits : count ≤ room) :
    (streams.withRoom (some room)).writeError? count = none := by
  simp [writeError?, withRoom, writeBreakdown?, hasRoom, fits]

/-- Streams at the same point of two runs, the first without a limit and the second with room for
`capacity` bytes altogether, none of which was refused. -/
def SameWithin (capacity : Nat) (free bounded : Streams) : Prop :=
  ∃ streams : Streams, free = streams.withRoom none ∧
    bounded = streams.withRoom (some (capacity - streams.written.size)) ∧
    streams.written.size ≤ capacity

/-- Streams of two runs, the second of which was refused what the first has written beyond
`capacity` bytes. -/
structure Parted (capacity : Nat) (free bounded : Streams) : Prop where
  beyond : capacity < free.written.size
  full : bounded.room = some 0
  beginning : bounded.written = free.written.take capacity

variable {capacity : Nat} {free bounded : Streams}

theorem SameWithin.read (same : SameWithin capacity free bounded) :
    free.delivery = bounded.delivery ∧ SameWithin capacity free.read bounded.read := by
  rcases same with ⟨streams, rfl, rfl, within⟩
  exact ⟨rfl, streams.read, rfl, rfl, within⟩

theorem SameWithin.write (same : SameWithin capacity free bounded) (bytes : Array UInt8) :
    (free.writeError? bytes.size = bounded.writeError? bytes.size ∧
      SameWithin capacity (free.write bytes) (bounded.write bytes)) ∨
    Parted capacity (free.write bytes) (bounded.write bytes) := by
  rcases same with ⟨streams, rfl, rfl, within⟩
  rw [write_withRoom_none, write_withRoom_some]
  by_cases fits : bytes.size ≤ capacity - streams.written.size
  · refine .inl ⟨?_, _, rfl, ?_, ?_⟩
    · rw [writeError?_withRoom_none, writeError?_withRoom_some fits]
    · simp [Array.extract_eq_self_of_le, fits, Nat.sub_sub]
    · simp only [Array.size_append]
      omega
  · refine .inr ⟨?_, ?_, ?_⟩
    · simp only [withRoom, Array.size_append]
      omega
    · simp only [withRoom, Option.some.injEq]
      omega
    · simp only [withRoom, Array.take_eq_extract, Array.extract_append]
      simp [Array.extract_eq_self_of_le, within]

/-- Whatever the two runs do from there on, the second one takes no more bytes. -/
theorem Parted.behind {free' bounded' : Streams} (parted : Parted capacity free bounded)
    (continues : free.Continues free') (continues' : bounded.Continues bounded') :
    Parted capacity free' bounded' := by
  rcases continues with ⟨taken, takes⟩
  rcases continues'.of_full parted.full with ⟨written, full⟩
  have beyond := parted.beyond
  refine ⟨?_, full, ?_⟩
  · simp only [takes.written, Array.size_append]
    omega
  · rw [written, parted.beginning, takes.written]
    simp [Array.extract_append, Nat.sub_eq_zero_of_le (Nat.le_of_lt beyond)]

end Streams

/-- The law that what has been written stays written. -/
def StepLaw.output : StepLaw where
  expression before later := before.streams.Continues later.streams
  statement before later := before.streams.Continues later.streams
  refl machine := .refl machine.streams
  expression_trans early late := early.trans late
  statement_trans early late := early.trans late
  weaken continues := continues
  newArray machine _ := .refl machine.streams
  extendArray machine _ _ := .refl machine.streams
  assign {machine} _ _ _ _ := .refl machine.streams
  write machine bytes := Streams.continues_write machine.streams bytes
  limit machine := .refl machine.streams
  call continues := continues
  embedded continues := continues
  define machine _ _ := .refl machine.streams
  defineFunction machine _ _ := .refl machine.streams
  readLine _ := Streams.continues_of_same rfl rfl
  put machine _ := .refl machine.streams
  take {machine} _ _ _ := .refl machine.streams
  frame continues := continues

/-- The runs part where the second one is refused a write. -/
def Parting.atFullOutput (capacity : Nat) : Parting (.and .frames .output) where
  parted _ left right := left.streams.Parted capacity right.streams
  before _ parted := parted
  behind parted moved moved' := parted.behind moved.2 moved'.2
  frame parted := parted
  call parted := parted
  embedded parted := parted

/-- A run with room for `capacity` bytes follows one without a limit until a write is refused. -/
def Lockstep.ofCapacity (options : Options) (capacity : Nat) : Lockstep where
  leader := options
  follower := options
  law := .and .frames .output
  parting := .atFullOutput capacity
  scopes := .same
  streams := Streams.SameWithin capacity
  depths := Eq
  errors := Eq
  policy := rfl
  framesGrown both := both.1
  read same := same.read
  write same bytes := same.write bytes
  deeper equal := congrArg Nat.succ equal
  plain _ := rfl
  embedded equal := congrArg RuntimeError.embeddedFailure equal
  loopLimit started := by
    refine LimitCheck.same ?_ (Exec.exceeds options.loopLimit started)
    intro limit
    rfl
  depthLimit {depth} _ equal := by
    rw [← equal]
    refine LimitCheck.same ?_ (Exec.depthExceeded options depth)
    intro limit
    rfl

/-- The machine with this much room for output, where no write breaks down. -/
def Machine.withRoom (room : Option Nat) (machine : Machine) : Machine :=
  { machine with streams := machine.streams.withRoom room }

namespace Exec

variable {α : Type} {options : Options} {capacity : Nat}

theorem eq_withRoom_of_alike {left right : Machine}
    (alike : (Lockstep.ofCapacity options capacity).Alike left right) :
    left.streams.written.size ≤ capacity ∧
      right = left.withRoom (some (capacity - left.streams.written.size)) := by
  rcases alike with
    ⟨scope, ⟨streams, free, bounded, within⟩, depth, functions, buffer, heap, history⟩
  cases left
  cases right
  simp only [Lockstep.ofCapacity, ScopeMatch.same] at *
  subst_vars
  exact ⟨within, rfl⟩

theorem streams_mapMachine_withRoom (room : Option Nat) (ended : EStateM.Result Stop Machine α) :
    (machineOf (mapMachine (·.withRoom room) ended)).streams =
      (machineOf ended).streams.withRoom room := by
  cases ended <;> rfl

/-- Either all that was written has found room, or the second run was refused some of it. -/
theorem withRoom_or_parted {start : Machine} {unlimited limited : EStateM.Result Stop Machine α}
    (matched : (Lockstep.ofCapacity options capacity).Matched start unlimited limited) :
    ((machineOf unlimited).streams.written.size ≤ capacity ∧
      limited =
        mapMachine
          (·.withRoom (some (capacity - (machineOf unlimited).streams.written.size))) unlimited) ∨
    (machineOf unlimited).streams.Parted capacity (machineOf limited).streams := by
  cases matched with
  | ok result alike =>
      rcases eq_withRoom_of_alike alike with ⟨within, rfl⟩
      exact .inl ⟨within, rfl⟩
  | error errors alike =>
      rcases eq_withRoom_of_alike alike with ⟨within, rfl⟩
      cases errors
      exact .inl ⟨within, rfl⟩
  | halt reason alike =>
      rcases eq_withRoom_of_alike alike with ⟨within, rfl⟩
      exact .inl ⟨within, rfl⟩
  | parted parted => exact .inr parted

theorem alike_withRoom (options : Options) (machine : Machine) (room : Nat) :
    (Lockstep.ofCapacity options (machine.streams.written.size + room)).Alike
      (machine.withRoom none) (machine.withRoom (some room)) := by
  refine ⟨rfl, ⟨machine.streams, rfl, ?_, Nat.le_add_right _ _⟩, rfl, rfl, rfl, rfl, rfl⟩
  rw [Nat.add_sub_cancel_left]
  rfl

/-- What a run with limited room has written is as much of what the run without a limit has written
as there was room for. If there was room for all of it, both runs end in the same way, and on the
same machine but for the room that is left. -/
theorem limited_output_is_beginning (options : Options) {block : Block} {machine : Machine}
    {room : Nat} {unlimited limited : EStateM.Result Stop Machine Unit}
    (ends : Ends (fun fuel => interpret options fuel block) (machine.withRoom none) unlimited)
    (endsLimited :
      Ends (fun fuel => interpret options fuel block) (machine.withRoom (some room)) limited) :
    ∃ output,
      (machineOf unlimited).streams.written = machine.streams.written ++ output ∧
        (machineOf limited).streams.written = machine.streams.written ++ output.take room ∧
        (output.size ≤ room →
          limited = mapMachine (·.withRoom (some (room - output.size))) unlimited) := by
  rcases ends.eventually (fuelStable_interpret options block) with ⟨enough, reached⟩
  rcases endsLimited.eventually (fuelStable_interpret options block) with ⟨enough', reached'⟩
  let fuel := max enough enough'
  -- The room is counted from here, the capacity from the first byte ever written.
  let capacity := machine.streams.written.size + room
  have kept := StepLaw.output.keeps_interpret options fuel block (machine.withRoom none)
  have matched := (Lockstep.ofCapacity options capacity).follows_interpret fuel block
    (alike_withRoom options machine room)
  change Lockstep.Matched _ _ (interpret options fuel block _) (interpret options fuel block _)
    at matched
  rw [after, reached fuel (Nat.le_max_left _ _)] at kept
  rw [reached fuel (Nat.le_max_left _ _), reached' fuel (Nat.le_max_right _ _)] at matched
  rcases kept with ⟨output, takes⟩
  have written : (machineOf unlimited).streams.written = machine.streams.written ++ output :=
    takes.written
  have size : (machineOf unlimited).streams.written.size =
      machine.streams.written.size + output.size := by
    rw [written, Array.size_append]
  refine ⟨output, written, ?_⟩
  rcases withRoom_or_parted matched with ⟨within, same⟩ | parted
  · have fits : output.size ≤ room := by
      omega
    have left : capacity - (machineOf unlimited).streams.written.size = room - output.size := by
      omega
    rw [left] at same
    refine ⟨?_, fun _ => same⟩
    rw [same, streams_mapMachine_withRoom]
    simp [Streams.withRoom, written, Array.extract_eq_self_of_le, fits]
  · refine ⟨?_, ?_⟩
    · rw [parted.beginning, written]
      simp [Array.extract_append, Array.extract_eq_self_of_le, capacity]
    · intro fits
      have beyond := parted.beyond
      omega

/-- A program that goes on writing whether its first write fails or not. -/
def persistentProgram : Block :=
  [.attempt [.call (.named "list") [.string "abc"]] [],
    .attempt [.call (.named "list") [.string "d"]] []]

theorem limited_output_is_beginning_persistentProgram :
    ∃ unlimited limited : Machine,
      Ends (fun fuel => interpret ⟨.lenient, none, 7⟩ fuel persistentProgram)
        (.withRoom none (.fresh (.ofInput [] none) 0)) (.ok () unlimited) ∧
      Ends (fun fuel => interpret ⟨.lenient, none, 7⟩ fuel persistentProgram)
        (.withRoom (some 2) (.fresh (.ofInput [] none) 0)) (.ok () limited) ∧
      unlimited.streams.written = "abcd".toUTF8.data ∧
      limited.streams.written = "abcd".toUTF8.data.take 2 := by
  let options : Options := ⟨.lenient, none, 7⟩
  let run (fuel : Nat) := interpret options fuel persistentProgram
  let machine : Machine := .fresh (.ofInput [] none) 0
  have ends : Ends run (machine.withRoom none)
      (.ok () ((run 3).after (machine.withRoom none))) := by
    refine ⟨?_, 3, rfl⟩
    intro later exhausted
    cases exhausted
  have endsLimited : Ends run (machine.withRoom (some 2))
      (.ok () ((run 3).after (machine.withRoom (some 2)))) := by
    refine ⟨?_, 3, rfl⟩
    intro later exhausted
    cases exhausted
  rcases limited_output_is_beginning options ends endsLimited with
    ⟨output, written, writtenLimited, -⟩
  have all : ((run 3).after (machine.withRoom none)).streams.written = "abcd".toUTF8.data := by
    decide +kernel
  have nothing : machine.streams.written = #[] := rfl
  rw [machineOf, all, nothing, Array.empty_append] at written
  rw [machineOf, nothing, Array.empty_append, ← written] at writtenLimited
  exact ⟨_, _, ends, endsLimited, all, writtenLimited⟩

end Exec

end Mel

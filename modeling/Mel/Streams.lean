/-!
# Streams

A run reads from one stream of bytes and writes to another.

Input is taken in whole lines, each up to and with its line feed or to the end of what
is there. Before every read more input may come in, so that it need not end, and an end
need not be final. Output may have room for a limited number of bytes only: of a write
that does not fit, the bytes that fit are taken and the write is refused.

Apart from that, any read may break down after some bytes of its line, and any write
after some of its bytes or after all of them.
-/

namespace Mel

/-- How a read or a write breaks down. -/
structure Breakdown where
  /-- How many bytes are taken all the same. -/
  taken : Nat
  reason : String

structure Streams where
  /-- The input that is there and has not been taken. -/
  unread : List UInt8
  /-- The input that comes in before a read, by the number of reads before it. -/
  arrivals : Nat → List UInt8
  /-- The reads that break down, each by the number of reads before it. -/
  readBreakdowns : Nat → Option Breakdown
  /-- How many reads there have been. -/
  reads : Nat
  written : Array UInt8
  /-- How many more bytes can be written, if there is a limit. -/
  room : Option Nat
  /-- Why a write fails that does not fit, by the number of writes before it. -/
  refusal : Nat → String
  /-- The writes that break down, each by the number of writes before it. -/
  writeBreakdowns : Nat → Option Breakdown
  /-- How many writes there have been. -/
  writes : Nat

namespace Streams

/-- Streams with some input and nothing written yet, where no more input comes in and nothing breaks
down. -/
def ofInput (input : List UInt8) (room : Option Nat) : Streams where
  unread := input
  arrivals _ := []
  readBreakdowns _ := none
  reads := 0
  written := #[]
  room := room
  refusal _ := "failed to write whole buffer"
  writeBreakdowns _ := none
  writes := 0

def lineFeed : UInt8 := 10

/-- The first line of a list of bytes with its line feed. -/
def line (bytes : List UInt8) : List UInt8 :=
  bytes.takeWhile (· ≠ lineFeed) ++ (bytes.dropWhile (· ≠ lineFeed)).take 1

/-- What follows the first line. -/
def afterLine (bytes : List UInt8) : List UInt8 :=
  (bytes.dropWhile (· ≠ lineFeed)).drop 1

theorem line_append_afterLine (bytes : List UInt8) : line bytes ++ afterLine bytes = bytes := by
  rw [line, afterLine, List.append_assoc, List.take_append_drop, List.takeWhile_append_dropWhile]

/-- The input that the next read finds. -/
def arrived (streams : Streams) : List UInt8 :=
  streams.unread ++ streams.arrivals streams.reads

/-- How the next read breaks down, if it does. -/
def readBreakdown? (streams : Streams) : Option Breakdown :=
  streams.readBreakdowns streams.reads

/-- What a read comes to. -/
inductive Delivery where
  | line (bytes : List UInt8)
  | atEnd
  | failed (reason : String)

/-- What the next read comes to. -/
def delivery (streams : Streams) : Delivery :=
  match streams.readBreakdown? with
  | some breakdown => .failed breakdown.reason
  | none => if streams.arrived.isEmpty then .atEnd else .line (line streams.arrived)

/-- What the next read leaves of the input. A read that breaks down has not come to a line feed. -/
def leftover (streams : Streams) : List UInt8 :=
  match streams.readBreakdown? with
  | some breakdown =>
      let unfinished := streams.arrived.takeWhile (· ≠ lineFeed)
      streams.arrived.drop (min breakdown.taken unfinished.length)
  | none => afterLine streams.arrived

/-- Reads a line, or as much of it as is taken. -/
def read (streams : Streams) : Streams :=
  { streams with unread := streams.leftover, reads := streams.reads + 1 }

/-- Does a write of this many bytes fit? -/
def hasRoom (streams : Streams) (count : Nat) : Bool :=
  match streams.room with
  | none => true
  | some room => count ≤ room

/-- How the next write breaks down, if it does. -/
def writeBreakdown? (streams : Streams) : Option Breakdown :=
  streams.writeBreakdowns streams.writes

/-- Why the next write fails, if it is of this many bytes. -/
def writeError? (streams : Streams) (count : Nat) : Option String :=
  match streams.writeBreakdown? with
  | some breakdown => some breakdown.reason
  | none => if streams.hasRoom count then none else some (streams.refusal streams.writes)

/-- How many of this many bytes the next write takes. -/
def accepted (streams : Streams) (count : Nat) : Nat :=
  let offered := match streams.writeBreakdown? with
    | some breakdown => min breakdown.taken count
    | none => count
  match streams.room with
  | none => offered
  | some room => min room offered

/-- Writes as many bytes as are taken. -/
def write (streams : Streams) (bytes : Array UInt8) : Streams :=
  let taken := bytes.take (streams.accepted bytes.size)
  { streams with
    written := streams.written ++ taken
    room := streams.room.map (· - taken.size)
    writes := streams.writes + 1 }

end Streams

/-- The text of a line without the line feeds and carriage returns at its end, if it is UTF-8. -/
def Text.ofLine? (bytes : List UInt8) : Option String :=
  (String.fromUTF8? ⟨bytes.toArray⟩).map fun text =>
    String.ofList (text.toList.reverse.dropWhile fun character =>
      character = '\n' ∨ character = '\r').reverse

end Mel

/-!
# Values

Values are small: an array is a reference to a cell of the heap, so that all
variables bound to it see what is appended to it. The heap only grows, and its
cells only grow.
-/

namespace Mel

inductive ValueType where
  | boolean
  | integer
  | real
  | string
  | array
  | nil
deriving DecidableEq, Repr

def ValueType.name : ValueType → String
  | .boolean => "boolean"
  | .integer => "integer"
  | .real => "real"
  | .string => "string"
  | .array => "array"
  | .nil => "nil"

/-- The number of a heap cell. -/
abbrev ArrayRef := Nat

inductive Value where
  | boolean (truth : Bool)
  | integer (number : Int64)
  | real (number : Float)
  | string (text : String)
  | array (ref : ArrayRef)
  | nil
deriving Repr

def Value.type : Value → ValueType
  | .boolean _ => .boolean
  | .integer _ => .integer
  | .real _ => .real
  | .string _ => .string
  | .array _ => .array
  | .nil => .nil

/-- A number as a real. -/
def Value.real? : Value → Option Float
  | .integer number => some number.toFloat
  | .real number => some number
  | _ => none

/-- The arrays of a run, each by the number of its cell. -/
structure Heap where
  cells : Array (Array Value)

namespace Heap

def empty : Heap := ⟨#[]⟩

def size (heap : Heap) : Nat :=
  heap.cells.size

/-- The items of an array; a reference without a cell has none. -/
def items (heap : Heap) (ref : ArrayRef) : Array Value :=
  heap.cells[ref]?.getD #[]

/-- Makes a new array. -/
def alloc (heap : Heap) (items : Array Value) : ArrayRef × Heap :=
  (heap.cells.size, ⟨heap.cells.push items⟩)

/-- Puts items at the end of an array. -/
def extend (heap : Heap) (ref : ArrayRef) (items : Array Value) : Heap :=
  ⟨heap.cells.modify ref (· ++ items)⟩

theorem items_alloc (heap : Heap) (items : Array Value) :
    (heap.alloc items).2.items (heap.alloc items).1 = items := by
  simp [alloc, Heap.items]

theorem items_alloc_of_lt {heap : Heap} {ref : ArrayRef} (old : ref < heap.size)
    (items : Array Value) : (heap.alloc items).2.items ref = heap.items ref := by
  have present : ref < heap.cells.size := old
  simp [alloc, Heap.items, Array.getElem?_push, Nat.ne_of_lt present]

theorem size_extend (heap : Heap) (ref : ArrayRef) (items : Array Value) :
    (heap.extend ref items).size = heap.size := by
  simp [extend, size]

theorem items_extend {heap : Heap} {ref : ArrayRef} (present : ref < heap.size)
    (items : Array Value) : (heap.extend ref items).items ref = heap.items ref ++ items := by
  have present : ref < heap.cells.size := present
  simp [extend, Heap.items, present, Array.getElem_modify]

theorem items_extend_of_ne {heap : Heap} {ref other : ArrayRef} (distinct : other ≠ ref)
    (items : Array Value) : (heap.extend ref items).items other = heap.items other := by
  simp [extend, Heap.items, Array.getElem?_modify, distinct.symm]

end Heap

end Mel

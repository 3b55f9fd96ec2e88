import Mel.Floating.Text
import Mel.Text.Form
import Mel.Value

/-!
# Contents

The content of a value is the value with the items of its arrays in place of
references, as far down as they go. It is what a value is written as and what two
values are compared by.

An array that contains itself has no content: there is no end to what would have
to be written.
-/

namespace Mel

open Text (Form)

inductive Content where
  | boolean (truth : Bool)
  | integer (number : Int64)
  | real (number : Float)
  | string (text : String)
  | array (items : List Content)
  | nil

namespace Content

def type : Content → ValueType
  | .boolean _ => .boolean
  | .integer _ => .integer
  | .real _ => .real
  | .string _ => .string
  | .array _ => .array
  | .nil => .nil

/-- Zero, empty texts, empty arrays and nil do not count as true. -/
def isTruthy : Content → Bool
  | .boolean truth => truth
  | .integer number => number != 0
  | .real number => number != 0.0
  | .string text => !text.isEmpty
  | .array items => !items.isEmpty
  | .nil => false

mutual

def form : Content → Form
  | .boolean true => .word "true"
  | .boolean false => .word "false"
  | .integer number => .word (toString number.toInt)
  | .real number => .word (Floating.text number)
  | .string text => .quoted text
  | .array items => .brackets (forms items)
  | .nil => .word "nil"

def forms : List Content → List Form
  | [] => []
  | item :: items => form item :: forms items

end

/-- What a value is written as. A text is written as it is, and quoted inside an array only. -/
def text : Content → String
  | .string text => text
  | content => content.form.text

mutual

/-- Are two contents of one type and equal? Reals are compared as numbers, so that NaN is unlike
itself and both zeros are alike. -/
def same : Content → Content → Bool
  | .boolean left, .boolean right => left == right
  | .integer left, .integer right => left == right
  | .real left, .real right => left == right
  | .string left, .string right => left == right
  | .array left, .array right => sameItems left right
  | .nil, .nil => true
  | _, _ => false

def sameItems : List Content → List Content → Bool
  | [], [] => true
  | left :: lefts, right :: rights => same left right && sameItems lefts rights
  | _, _ => false

end

end Content

namespace Heap

mutual

/-- Builds a value with a given content; all of its arrays are new. -/
def store (heap : Heap) : Content → Value × Heap
  | .boolean truth => (.boolean truth, heap)
  | .integer number => (.integer number, heap)
  | .real number => (.real number, heap)
  | .string text => (.string text, heap)
  | .array items =>
      let (values, later) := storeAll heap items
      let (ref, final) := later.alloc values.toArray
      (.array ref, final)
  | .nil => (.nil, heap)

def storeAll (heap : Heap) : List Content → List Value × Heap
  | [] => ([], heap)
  | item :: items =>
      let (value, later) := store heap item
      let (values, final) := storeAll later items
      (value :: values, final)

end

/-- The content of a value whose arrays are nested at most `depth` deep. -/
def contentWithin? (heap : Heap) : (depth : Nat) → Value → Option Content
  | _, .boolean truth => some (.boolean truth)
  | _, .integer number => some (.integer number)
  | _, .real number => some (.real number)
  | _, .string text => some (.string text)
  | 0, .array _ => none
  | depth + 1, .array ref =>
      ((heap.items ref).toList.mapM (contentWithin? heap depth)).map .array
  | _, .nil => some .nil

/-- The content of a value. Arrays nested deeper than there are arrays contain themselves. -/
def content? (heap : Heap) (value : Value) : Option Content :=
  heap.contentWithin? heap.size value

/-- Does a value count as true? -/
def isTruthy (heap : Heap) : Value → Bool
  | .boolean truth => truth
  | .integer number => number != 0
  | .real number => number != 0.0
  | .string text => !text.isEmpty
  | .array ref => !(heap.items ref).isEmpty
  | .nil => false

end Heap

end Mel

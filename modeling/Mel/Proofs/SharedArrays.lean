import Mel.Proofs.Containment
import Mel.Proofs.OuterBindings

/-!
# Shared arrays

An array is seen from many places: from variables in several frames, and from other arrays that have
it among their items. Appending reaches it by the variable that it came from or by the name of a
variable, and both ways lead to the same change of one cell. What was seen before is still seen at
the same places, and wherever the array is seen, so are its new items.
-/

namespace Mel

namespace Heap

/-- What is found at the end of a path that leads from a value through the items of arrays. -/
def follow? (heap : Heap) : (start : Value) → (path : List Nat) → Option Value
  | value, [] => some value
  | .array ref, position :: path =>
      (heap.items ref)[position]?.bind fun item => heap.follow? item path
  | _, _ :: _ => none

variable {heap later : Heap} {ref : ArrayRef} {items : Array Value}

/-- Items keep their positions, as new ones come behind them. -/
theorem Adds.getElem? (adds : heap.Adds later ref items) {other : ArrayRef} {position : Nat}
    {item : Value} (isItem : (heap.items other)[position]? = some item) :
    (later.items other)[position]? = some item := by
  by_cases same : other = ref
  · subst same
    have inside : position < (heap.items other).size := (Array.getElem?_eq_some_iff.mp isItem).1
    rw [adds.items_ref, Array.getElem?_append_left inside, isItem]
  · rw [adds.items_other other same, isItem]

/-- No path is lost when items are added. -/
theorem Adds.follow? (adds : heap.Adds later ref items) {start found : Value} {path : List Nat}
    (leads : heap.follow? start path = some found) : later.follow? start path = some found := by
  induction path generalizing start with
  | nil => exact leads
  | cons position path ih =>
      cases start with
      | array other =>
          obtain ⟨item, isItem, leads⟩ := Option.bind_eq_some_iff.mp leads
          exact Option.bind_eq_some_iff.mpr ⟨item, adds.getElem? isItem, ih leads⟩
      | _ => cases leads

end Heap

namespace Exec

/-- Where the variable holds the array already, writing it back changes nothing. -/
theorem append_of_bound {variableName : Option String} {target : Value} {name : String}
    {ref : ArrayRef} {machine : Machine}
    (isTarget : IsTarget variableName machine target ref (some name))
    (bound : machine.scope.get? name = some (.array ref)) (item : Value) (items : List Value) :
    append variableName (target :: item :: items) machine =
      .ok .nil (behindExtend ref (item :: items) machine) := by
  have stillBound : (behindExtend ref (item :: items) machine).scope.get? name =
      some (.array ref) := bound
  rw [append_of_isTarget isTarget, writeBack, bind_of_ok (assign_of_get? stillBound)]
  rfl

/-- Appending to the array that a variable holds comes to the same by the variable and by its name,
whichever variable the name itself came from. The array has the items behind those that it had. All
else is as it was: every other array, all bindings, the functions, the buffer, the streams and the
depth. So whatever a path led to, from a variable in any frame or through any arrays, it leads to
still; where it led to this array, the new items are seen. On a machine that a run has reached,
every reference is to an array that is there (`Machine.Sound`), so `present` leaves none of these
out. -/
theorem append_is_seen_through_all_aliases {machine : Machine} {name : String} {ref : ArrayRef}
    (present : ref < machine.heap.size) (bound : machine.scope.get? name = some (.array ref))
    (variableName : Option String) (item : Value) (items : List Value) :
    ∃ later,
      append (some name) (.array ref :: item :: items) machine = .ok .nil later ∧
      append variableName (.string name :: item :: items) machine = .ok .nil later ∧
      later.heap.items ref = machine.heap.items ref ++ (item :: items).toArray ∧
      (∀ start path found, machine.heap.follow? start path = some found →
        later.heap.follow? start path = some found) ∧
      (∀ other, other ≠ ref → later.heap.items other = machine.heap.items other) ∧
      later.heap.size = machine.heap.size ∧ later.scope = machine.scope ∧
      later.functions = machine.functions ∧ later.buffer = machine.buffer ∧
      later.streams = machine.streams ∧ later.depth = machine.depth := by
  have adds := Heap.adds_extend present (item :: items).toArray
  refine ⟨behindExtend ref (item :: items) machine, ?_, ?_, adds.items_ref,
    fun _ _ _ => adds.follow?, adds.items_other, Heap.size_extend _ _ _, rfl, rfl, rfl, rfl, rfl⟩
  · exact append_of_bound (.array ref) bound item items
  · exact append_of_bound (.named bound) bound item items

/-- The name is bound in two frames, and the array is seen from another one too, which is appended
to it together with the array itself. -/
theorem append_is_seen_through_all_aliases_shadowed :
    let machine : Machine := { Machine.fresh (.ofInput [] none) 0 with
      scope := ⟨⟨[("n", .integer 1)]⟩, [⟨[("x", .array 0)]⟩, ⟨[("x", .nil), ("y", .array 1)]⟩]⟩
      heap := ⟨#[#[.integer 1], #[.string "a", .array 0]]⟩ }
    ∃ later,
      append (some "x") [.array 0, .array 0, .array 1] machine = .ok .nil later ∧
      append (some "n") [.string "x", .array 0, .array 1] machine = .ok .nil later ∧
      machine.heap.follow? (.array 1) [1] = some (.array 0) ∧
      later.heap.follow? (.array 1) [1] = some (.array 0) ∧
      later.heap.items 0 = #[.integer 1, .array 0, .array 1] ∧
      later.heap.items 1 = #[.string "a", .array 0] ∧ later.scope = machine.scope := by
  intro machine
  have present : 0 < machine.heap.size := by decide
  have bound : machine.scope.get? "x" = some (.array 0) := rfl
  obtain ⟨later, byVariable, byName, itemsThere, follows, others, -, sameScope, -⟩ :=
    append_is_seen_through_all_aliases present bound (some "n") (.array 0) [.array 1]
  exact ⟨later, byVariable, byName, rfl, follows _ _ _ rfl, itemsThere,
    others 1 (by decide), sameScope⟩

end Exec

end Mel

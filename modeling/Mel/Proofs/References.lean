import Mel.Proofs.Containment
import Mel.Proofs.Step

/-!
# References

Every reference that a machine holds is that of a cell of its heap, and the heap is
the one that its history has made. A machine is sound if both is so. This file says
what keeps machines sound: each elementary step, and the ways in which steps are put
together. A step says of its result, too, that the references in it are those of
cells.

Of a sound machine, the history tells whether there is a cycle in the heap: whether
some array was given an item that led back to it.
-/

namespace Mel

namespace Scope

variable {α : Type} {holds : α → Prop} {scope : Scope α}

/-- All values that are bound in some frame, also those that another frame hides. -/
def All (holds : α → Prop) (scope : Scope α) : Prop :=
  ∀ frame ∈ scope.frames, ∀ name value, frame.get? name = some value → holds value

theorem all_empty : (empty : Scope α).All holds := by
  intro frame isFrame name value found
  simp only [frames, empty, List.mem_singleton] at isFrame
  subst frame
  cases found

theorem All.mono {holds' : α → Prop} (all : scope.All holds)
    (implies : ∀ value, holds value → holds' value) : scope.All holds' :=
  fun frame isFrame name value found => implies value (all frame isFrame name value found)

theorem All.get? (all : scope.All holds) {name : String} {value : α}
    (found : scope.get? name = some value) : holds value := by
  rcases List.exists_of_findSome?_eq_some found with ⟨frame, isFrame, foundThere⟩
  exact all frame isFrame name value foundThere

theorem holds_of_insert {frame : Table α} {name : String} {value : α} (holdsNew : holds value)
    (all : ∀ known old, frame.get? known = some old → holds old) :
    ∀ known old, (frame.insert name value).get? known = some old → holds old := by
  intro known old found
  rw [Table.get?_insert] at found
  split at found
  · cases found
    exact holdsNew
  · exact all known old found

theorem All.define (all : scope.All holds) {name : String} {value : α} (holdsNew : holds value) :
    (scope.define name value).All holds := by
  intro frame isFrame
  rcases List.mem_cons.mp isFrame with rfl | isOuter
  · exact holds_of_insert holdsNew (all _ List.mem_cons_self)
  · exact all frame (List.mem_cons_of_mem _ isOuter)

theorem all_assignIn {name : String} {value : α} (holdsNew : holds value)
    {frames later : List (Table α)} (assigned : assignIn name value frames = some later)
    (all : ∀ frame ∈ frames, ∀ known old, frame.get? known = some old → holds old) :
    ∀ frame ∈ later, ∀ known old, frame.get? known = some old → holds old := by
  induction frames generalizing later with
  | nil => cases assigned
  | cons top frames ih =>
      rw [List.forall_mem_cons] at all
      simp only [assignIn] at assigned
      split at assigned
      · cases assigned
        rw [List.forall_mem_cons]
        exact ⟨holds_of_insert holdsNew all.1, all.2⟩
      · rcases Option.map_eq_some_iff.mp assigned with ⟨below, assignedBelow, rfl⟩
        rw [List.forall_mem_cons]
        exact ⟨all.1, ih assignedBelow all.2⟩

theorem All.assign? (all : scope.All holds) {name : String} {value : α} (holdsNew : holds value)
    {later : Scope α} (assigned : scope.assign? name value = some later) : later.All holds := by
  simp only [Scope.assign?] at assigned
  split at assigned
  · cases assigned
    exact all.define holdsNew
  · rcases Option.map_eq_some_iff.mp assigned with ⟨below, assignedBelow, rfl⟩
    have allFrames := all
    simp only [All, frames, List.forall_mem_cons] at allFrames ⊢
    exact ⟨allFrames.1, all_assignIn holdsNew assignedBelow allFrames.2⟩

theorem All.push (all : scope.All holds) : scope.push.All holds := by
  rw [All, frames_push, List.forall_mem_cons]
  refine ⟨?_, all⟩
  intro name value found
  cases found

theorem All.pop (all : scope.All holds) : scope.pop.All holds := by
  cases below : scope.outer with
  | nil => simpa [Scope.pop, below] using all
  | cons frame frames =>
      intro other isFrame
      apply all
      simp only [Scope.pop, below, Scope.frames] at isFrame ⊢
      exact List.mem_cons_of_mem _ isFrame

end Scope

/-- The heap that a history has made, event by event. -/
def heapOf : List Event → Heap
  | [] => .empty
  | .arrayMade items :: earlier => ((heapOf earlier).alloc items.toArray).2
  | .arrayExtended ref items :: earlier => (heapOf earlier).extend ref items.toArray
  | _ :: earlier => heapOf earlier

/-- At some point an array was given an item that was this array or led to it. -/
inductive ClosesCycle : List Event → Prop where
  | extended {ref : ArrayRef} {items : List Value} {earlier : List Event} {item : Value}
      (isItem : item ∈ items) (leads : (heapOf earlier).Leads item ref) :
      ClosesCycle (.arrayExtended ref items :: earlier)
  | before {event : Event} {earlier : List Event} (closes : ClosesCycle earlier) :
      ClosesCycle (event :: earlier)

/-- The second history was reached in the course of the first one, on the same machine or on that of
an embedded program. -/
inductive Moment : List Event → List Event → Prop where
  | here (history : List Event) : Moment history history
  | before {event : Event} {earlier moment : List Event} (isMoment : Moment earlier moment) :
      Moment (event :: earlier) moment
  | embedded {events earlier moment : List Event} (isMoment : Moment events moment) :
      Moment (.embedded events :: earlier) moment

/-- At every moment the history so far tells whether there is a cycle. -/
def SoundHistory (history : List Event) : Prop :=
  ∀ moment, Moment history moment → ((heapOf moment).Acyclic ↔ ¬ClosesCycle moment)

/-- An event that leaves the heap alone. An embedded program has made a heap of its own. -/
def Event.IsQuiet : Event → Prop
  | .arrayMade _ | .arrayExtended _ _ => False
  | .lineRead _ | .put _ | .taken _ _ | .limitReached => True
  | .embedded events => SoundHistory events

theorem heapOf_quiet {event : Event} (quiet : event.IsQuiet) (earlier : List Event) :
    heapOf (event :: earlier) = heapOf earlier := by
  cases event <;> first | rfl | cases quiet

/-- Adding items closes a cycle if one of them leads back to the array, or if an earlier event has
closed one. -/
theorem closesCycle_arrayExtended_iff {ref : ArrayRef} {items : List Value}
    {earlier : List Event} :
    ClosesCycle (.arrayExtended ref items :: earlier) ↔
      (∃ item ∈ items, (heapOf earlier).Leads item ref) ∨ ClosesCycle earlier := by
  constructor
  · intro closes
    cases closes with
    | extended isItem leads => exact .inl ⟨_, isItem, leads⟩
    | before closes => exact .inr closes
  · rintro (⟨item, isItem, leads⟩ | closes)
    · exact .extended isItem leads
    · exact .before closes

theorem closesCycle_cons_iff {event : Event}
    (notExtended : ∀ ref items, event ≠ .arrayExtended ref items) {earlier : List Event} :
    ClosesCycle (event :: earlier) ↔ ClosesCycle earlier := by
  constructor
  · intro closes
    cases closes with
    | extended => exact (notExtended _ _ rfl).elim
    | before closes => exact closes
  · exact .before

theorem closesCycle_quiet {event : Event} (quiet : event.IsQuiet) {earlier : List Event} :
    ClosesCycle (event :: earlier) ↔ ClosesCycle earlier := by
  apply closesCycle_cons_iff
  rintro ref items rfl
  cases quiet

theorem SoundHistory.cons {event : Event} {earlier : List Event} (sound : SoundHistory earlier)
    (now : (heapOf (event :: earlier)).Acyclic ↔ ¬ClosesCycle (event :: earlier))
    (embedded : ∀ events, event = .embedded events → SoundHistory events) :
    SoundHistory (event :: earlier) := by
  intro moment isMoment
  cases isMoment with
  | here => exact now
  | before isMoment => exact sound moment isMoment
  | embedded isMoment => exact embedded _ rfl moment isMoment

namespace Heap

/-- A heap as its history has made it, with references to its own cells only. -/
structure Sound (heap : Heap) (history : List Event) : Prop where
  wellFormed : heap.WellFormed
  replayed : heap = heapOf history
  history : SoundHistory history

variable {heap : Heap} {history : List Event}

theorem Sound.acyclic_iff (sound : heap.Sound history) : heap.Acyclic ↔ ¬ClosesCycle history := by
  have now := sound.history history (.here history)
  rwa [← sound.replayed] at now

theorem wellFormed_empty : empty.WellFormed := by
  intro ref item isItem
  simp [Heap.items, empty] at isItem

theorem sound_empty : empty.Sound [] := by
  refine ⟨wellFormed_empty, rfl, ?_⟩
  intro moment isMoment
  cases isMoment
  constructor
  · intro acyclic closes
    cases closes
  · intro _
    exact acyclic_empty

theorem Sound.quiet (sound : heap.Sound history) {event : Event} (quiet : event.IsQuiet) :
    heap.Sound (event :: history) := by
  have same := heapOf_quiet quiet history
  refine ⟨sound.wellFormed, ?_, sound.history.cons ?_ ?_⟩
  · rw [same]
    exact sound.replayed
  · rw [same, closesCycle_quiet quiet, ← sound.replayed]
    exact sound.acyclic_iff
  · rintro events rfl
    exact quiet

theorem size_alloc (heap : Heap) (items : Array Value) :
    (heap.alloc items).2.size = heap.size + 1 := by
  simp [alloc, size]

theorem Adds.wellFormed {later : Heap} {ref : ArrayRef} {items : Array Value}
    (adds : heap.Adds later ref items) (wellFormed : heap.WellFormed)
    (le : heap.size ≤ later.size) (within : ∀ item ∈ items, item.Within heap.size) :
    later.WellFormed := by
  intro other item isItem
  by_cases same : other = ref
  · subst other
    rw [adds.items_ref, Array.mem_append] at isItem
    rcases isItem with old | isNew
    · exact (wellFormed _ item old).mono le
    · exact (within item isNew).mono le
  · rw [adds.items_other other same] at isItem
    exact (wellFormed other item isItem).mono le

theorem Sound.alloc (sound : heap.Sound history) {items : List Value}
    (within : ∀ item ∈ items, item.Within heap.size) :
    (heap.alloc items.toArray).2.Sound (.arrayMade items :: history) := by
  have withinArray : ∀ item ∈ items.toArray, item.Within heap.size := by
    simpa using within
  have replayed : heapOf (.arrayMade items :: history) = (heap.alloc items.toArray).2 := by
    rw [heapOf, ← sound.replayed]
  refine ⟨?_, replayed.symm, sound.history.cons ?_ ?_⟩
  · apply (adds_alloc heap items.toArray).wellFormed sound.wellFormed _ withinArray
    simp [size_alloc]
  · rw [replayed, acyclic_alloc_iff sound.wellFormed withinArray, closesCycle_cons_iff]
    · exact sound.acyclic_iff
    · intro ref items equal
      cases equal
  · intro events equal
    cases equal

/-- A heap stays as its history tells when items are added, with the cycles that this closes. -/
theorem Sound.extend (sound : heap.Sound history) {ref : ArrayRef} (present : ref < heap.size)
    {items : List Value} (within : ∀ item ∈ items, item.Within heap.size) :
    (heap.extend ref items.toArray).Sound (.arrayExtended ref items :: history) := by
  have adds := adds_extend present items.toArray
  have replayed : heapOf (.arrayExtended ref items :: history) = heap.extend ref items.toArray := by
    rw [heapOf, ← sound.replayed]
  refine ⟨?_, replayed.symm, sound.history.cons ?_ ?_⟩
  · apply adds.wellFormed sound.wellFormed
    · rw [size_extend]
    · simpa using within
  · rw [replayed, adds.acyclic_iff, closesCycle_arrayExtended_iff, not_or, sound.acyclic_iff,
      ← sound.replayed, and_comm]
    simp only [List.mem_toArray]
  · intro events equal
    cases equal

/-- Only where a cycle was closed is there a value without a content. -/
theorem Sound.closesCycle (sound : heap.Sound history) {value : Value}
    (within : value.Within heap.size) (endless : heap.content? value = none) :
    ClosesCycle history := by
  by_contra noneCloses
  have acyclic := sound.acyclic_iff.mpr noneCloses
  have found : (heap.content? value).isSome := by
    rw [isSome_content?_iff sound.wellFormed within]
    rintro ⟨ref, _, inCycle⟩
    exact acyclic ref inCycle
  rw [endless] at found
  cases found

end Heap

end Mel

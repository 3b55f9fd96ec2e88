import Mel.Value.Content
import Mathlib.Data.Finset.Card
import Mathlib.Logic.Relation

/-!
# Containment of arrays

The arrays of a heap form a graph: one array contains another one that is among its
items. Items are only ever added, to a new array or to one that is there already, so
a cycle comes about in one way only: an array is given an item that is or leads to
this array itself. A value has a content unless it leads to a cycle.
-/

namespace Mel

open Relation

/-- The reference of an array is that of one of so many cells. -/
def Value.Within (size : Nat) : Value → Prop
  | .array ref => ref < size
  | _ => True

theorem Value.Within.mono {size later : Nat} (le : size ≤ later) {value : Value}
    (within : value.Within size) : value.Within later := by
  cases value with
  | array ref => exact Nat.lt_of_lt_of_le within le
  | _ => exact trivial

namespace Heap

/-- An array has another one among its items. -/
def Contains (heap : Heap) (outer inner : ArrayRef) : Prop :=
  .array inner ∈ heap.items outer

/-- A value is an array, or has it somewhere among its items. -/
def Leads (heap : Heap) (value : Value) (ref : ArrayRef) : Prop :=
  ∃ start, value = .array start ∧ ReflTransGen heap.Contains start ref

/-- An array contains itself, directly or through others. -/
def InCycle (heap : Heap) (ref : ArrayRef) : Prop :=
  TransGen heap.Contains ref ref

def Acyclic (heap : Heap) : Prop :=
  ∀ ref, ¬heap.InCycle ref

def WellFormed (heap : Heap) : Prop :=
  ∀ ref, ∀ item ∈ heap.items ref, item.Within heap.size

variable {heap later : Heap} {ref : ArrayRef} {items : Array Value}

theorem leads_of_reaches {start ref : ArrayRef} (path : ReflTransGen heap.Contains start ref) :
    heap.Leads (.array start) ref :=
  ⟨start, rfl, path⟩

theorem Leads.trans {value : Value} {middle ref : ArrayRef} (leads : heap.Leads value middle)
    (path : ReflTransGen heap.Contains middle ref) : heap.Leads value ref := by
  rcases leads with ⟨start, rfl, first⟩
  exact ⟨start, rfl, first.trans path⟩

theorem WellFormed.lt_of_contains (wellFormed : heap.WellFormed) {outer inner : ArrayRef}
    (contains : heap.Contains outer inner) : inner < heap.size :=
  wellFormed outer _ contains

theorem items_of_size_le (outside : heap.size ≤ ref) : heap.items ref = #[] := by
  simp only [Heap.items]
  rw [Array.getElem?_eq_none outside]
  rfl

theorem forall_mem_items {holds : Value → Prop}
    (all : ∀ cell ∈ heap.cells.toList, ∀ item ∈ cell.toList, holds item) (ref : ArrayRef) :
    ∀ item ∈ heap.items ref, holds item := by
  intro item isItem
  rw [Heap.items] at isItem
  cases found : heap.cells[ref]? with
  | none => simp [found] at isItem
  | some cell =>
      rw [found, Option.getD_some] at isItem
      exact all cell (Array.mem_toList_iff.mpr (Array.mem_of_getElem? found)) item
        (Array.mem_toList_iff.mpr isItem)

theorem Leads.lt_size (wellFormed : heap.WellFormed) {value : Value}
    (within : value.Within heap.size) (leads : heap.Leads value ref) : ref < heap.size := by
  rcases leads with ⟨start, rfl, path⟩
  cases path with
  | refl => exact within
  | tail _ contains => exact wellFormed.lt_of_contains contains

/-- The second heap is the first one with more items in one array. -/
structure Adds (heap later : Heap) (ref : ArrayRef) (items : Array Value) : Prop where
  items_ref : later.items ref = heap.items ref ++ items
  items_other : ∀ other, other ≠ ref → later.items other = heap.items other

theorem adds_alloc (heap : Heap) (items : Array Value) :
    heap.Adds (heap.alloc items).2 heap.size items := by
  constructor
  · rw [items_of_size_le (Nat.le_refl _), Array.empty_append]
    exact items_alloc heap items
  · intro other distinct
    rcases Nat.lt_or_gt_of_ne distinct with old | beyond
    · exact items_alloc_of_lt old items
    · rw [items_of_size_le (Nat.le_of_lt beyond)]
      apply items_of_size_le
      simp only [alloc, size, Array.size_push]
      exact beyond

theorem adds_extend (present : ref < heap.size) (items : Array Value) :
    heap.Adds (heap.extend ref items) ref items :=
  ⟨items_extend present items, fun _ distinct => items_extend_of_ne distinct items⟩

theorem Adds.contains_iff (adds : heap.Adds later ref items) {outer inner : ArrayRef} :
    later.Contains outer inner ↔
      heap.Contains outer inner ∨ outer = ref ∧ .array inner ∈ items := by
  by_cases same : outer = ref
  · subst outer
    simp [Contains, adds.items_ref]
  · simp [Contains, adds.items_other outer same, same]

theorem Adds.contains (adds : heap.Adds later ref items) {outer inner : ArrayRef}
    (contains : heap.Contains outer inner) : later.Contains outer inner :=
  adds.contains_iff.mpr (.inl contains)

/-- A path through the new items goes to the array first, and on from one of the items. -/
theorem Adds.reaches_cases (adds : heap.Adds later ref items) {first last : ArrayRef}
    (path : ReflTransGen later.Contains first last) :
    ReflTransGen heap.Contains first last ∨
      ReflTransGen heap.Contains first ref ∧ ∃ item ∈ items, heap.Leads item last := by
  -- Only the last way through the new items matters, so the path is followed to its end.
  induction path with
  | refl => exact .inl .refl
  | tail _ contains ih =>
      rcases adds.contains_iff.mp contains with old | ⟨rfl, isItem⟩
      · rcases ih with path | ⟨path, item, isItem, leads⟩
        · exact .inl (path.tail old)
        · exact .inr ⟨path, item, isItem, leads.trans (.single old)⟩
      · rcases ih with path | ⟨path, _⟩
        · exact .inr ⟨path, _, isItem, leads_of_reaches .refl⟩
        · exact .inr ⟨path, _, isItem, leads_of_reaches .refl⟩

theorem Adds.reaches (adds : heap.Adds later ref items) {first last : ArrayRef}
    (path : ReflTransGen heap.Contains first last) : ReflTransGen later.Contains first last :=
  ReflTransGen.lift id (fun _ _ contains => adds.contains contains) _ _ path

theorem Adds.inCycle (adds : heap.Adds later ref items) {other : ArrayRef}
    (inCycle : heap.InCycle other) : later.InCycle other :=
  TransGen.lift id (fun _ _ contains => adds.contains contains) _ _ inCycle

theorem Adds.inCycle_of_leads (adds : heap.Adds later ref items) {item : Value}
    (isItem : item ∈ items) (leads : heap.Leads item ref) : later.InCycle ref := by
  rcases leads with ⟨start, rfl, path⟩
  have contains : later.Contains ref start := adds.contains_iff.mpr (.inr ⟨rfl, isItem⟩)
  exact TransGen.head' contains (adds.reaches path)

theorem Adds.inCycle_cases (adds : heap.Adds later ref items) {other : ArrayRef}
    (inCycle : later.InCycle other) :
    heap.InCycle other ∨ ∃ item ∈ items, heap.Leads item ref := by
  rcases TransGen.head'_iff.mp inCycle with ⟨next, contains, path⟩
  rcases adds.contains_iff.mp contains with old | ⟨rfl, isItem⟩
  · rcases adds.reaches_cases path with path | ⟨path, item, isItem, leads⟩
    · exact .inl (TransGen.head' old path)
    · exact .inr ⟨item, isItem, leads.trans (.head old path)⟩
  · rcases adds.reaches_cases path with path | ⟨path, _⟩
    · exact .inr ⟨_, isItem, leads_of_reaches path⟩
    · exact .inr ⟨_, isItem, leads_of_reaches path⟩

/-- Adding items keeps a heap free of cycles exactly if none of them leads back to its array. -/
theorem Adds.acyclic_iff (adds : heap.Adds later ref items) :
    later.Acyclic ↔ heap.Acyclic ∧ ¬∃ item ∈ items, heap.Leads item ref := by
  constructor
  · intro acyclic
    refine ⟨fun other inCycle => acyclic other (adds.inCycle inCycle), ?_⟩
    rintro ⟨item, isItem, leads⟩
    exact acyclic ref (adds.inCycle_of_leads isItem leads)
  · rintro ⟨acyclic, noneLeads⟩ other inCycle
    rcases adds.inCycle_cases inCycle with old | leads
    · exact acyclic other old
    · exact noneLeads leads

/-- A new array is in no cycle, since nothing leads to it yet. -/
theorem acyclic_alloc_iff (wellFormed : heap.WellFormed)
    (within : ∀ item ∈ items, item.Within heap.size) :
    (heap.alloc items).2.Acyclic ↔ heap.Acyclic := by
  rw [(adds_alloc heap items).acyclic_iff]
  constructor
  · intro both
    exact both.1
  · intro acyclic
    refine ⟨acyclic, ?_⟩
    rintro ⟨item, isItem, leads⟩
    exact Nat.lt_irrefl _ (leads.lt_size wellFormed (within item isItem))

theorem acyclic_empty : empty.Acyclic := by
  intro ref inCycle
  rcases TransGen.head'_iff.mp inCycle with ⟨next, contains, _⟩
  simp [Contains, Heap.items, empty] at contains

/-- A value leads to an array that contains itself. -/
def Endless (heap : Heap) (value : Value) : Prop :=
  ∃ ref, heap.Leads value ref ∧ heap.InCycle ref

theorem endless_of_item {item : Value} (isItem : item ∈ heap.items ref)
    (endless : heap.Endless item) : heap.Endless (.array ref) := by
  rcases endless with ⟨last, ⟨start, rfl, path⟩, inCycle⟩
  exact ⟨last, leads_of_reaches (.head isItem path), inCycle⟩

/-- The way to a cycle never ends: it goes on through one of the items. -/
theorem exists_endless_item (endless : heap.Endless (.array ref)) :
    ∃ item ∈ heap.items ref, heap.Endless item := by
  rcases endless with ⟨last, ⟨start, equal, path⟩, inCycle⟩
  cases equal
  rcases ReflTransGen.cases_head path with rfl | ⟨next, contains, rest⟩
  · rcases TransGen.head'_iff.mp inCycle with ⟨next, contains, rest⟩
    exact ⟨.array next, contains, ref, leads_of_reaches rest, inCycle⟩
  · exact ⟨.array next, contains, last, leads_of_reaches rest, inCycle⟩

theorem isSome_mapM {α β : Type} (find : α → Option β) (list : List α) :
    (list.mapM find).isSome ↔ ∀ item ∈ list, (find item).isSome := by
  induction list with
  | nil => simp
  | cons item rest ih =>
      simp only [List.mapM_cons, List.forall_mem_cons, ← ih]
      cases find item <;> cases rest.mapM find <;> simp

theorem isSome_contentWithin?_succ (heap : Heap) (depth : Nat) (ref : ArrayRef) :
    (heap.contentWithin? (depth + 1) (.array ref)).isSome ↔
      ∀ item ∈ heap.items ref, (heap.contentWithin? depth item).isSome := by
  rw [contentWithin?, Option.isSome_map, isSome_mapM]
  simp only [Array.mem_toList_iff]

theorem isSome_contentWithin?_of_type {value : Value} (noArray : ∀ ref, value ≠ .array ref)
    (heap : Heap) (depth : Nat) : (heap.contentWithin? depth value).isSome := by
  cases value with
  | array ref => exact (noArray ref rfl).elim
  | _ => cases depth <;> rfl

theorem not_isSome_contentWithin? {value : Value} (endless : heap.Endless value) (depth : Nat) :
    ¬(heap.contentWithin? depth value).isSome := by
  induction depth generalizing value with
  | zero =>
      rcases endless with ⟨last, ⟨start, rfl, path⟩, inCycle⟩
      simp [contentWithin?]
  | succ depth ih =>
      have isArray := endless
      rcases isArray with ⟨last, ⟨start, rfl, path⟩, inCycle⟩
      rcases exists_endless_item endless with ⟨item, isItem, endlessItem⟩
      rw [isSome_contentWithin?_succ]
      intro all
      exact ih endlessItem (all item isItem)

/-- Arrays that an array has been reached from, none of which it leads back to. -/
structure Visited (heap : Heap) (visited : Finset ArrayRef) (ref : ArrayRef) : Prop where
  lt_size : ∀ other ∈ visited, other < heap.size
  leads : ∀ other ∈ visited, TransGen heap.Contains other ref

theorem Visited.isNew {visited : Finset ArrayRef} (isVisited : heap.Visited visited ref)
    (ending : ¬heap.Endless (.array ref)) : ref ∉ visited := by
  intro isOld
  exact ending ⟨ref, leads_of_reaches .refl, isVisited.leads ref isOld⟩

theorem Visited.card_lt {visited : Finset ArrayRef} (isVisited : heap.Visited visited ref)
    (present : ref < heap.size) (ending : ¬heap.Endless (.array ref)) :
    visited.card < heap.size := by
  have within : insert ref visited ⊆ Finset.range heap.size := by
    intro other isMember
    rw [Finset.mem_range]
    rcases Finset.mem_insert.mp isMember with rfl | isOld
    · exact present
    · exact isVisited.lt_size other isOld
  have le := Finset.card_le_card within
  rw [Finset.card_insert_of_notMem (isVisited.isNew ending), Finset.card_range] at le
  exact le

theorem Visited.insert {visited : Finset ArrayRef} (isVisited : heap.Visited visited ref)
    (present : ref < heap.size) {inner : ArrayRef} (contains : heap.Contains ref inner) :
    heap.Visited (insert ref visited) inner := by
  constructor
  · intro other isMember
    rcases Finset.mem_insert.mp isMember with rfl | isOld
    · exact present
    · exact isVisited.lt_size other isOld
  · intro other isMember
    rcases Finset.mem_insert.mp isMember with rfl | isOld
    · exact .single contains
    · exact (isVisited.leads other isOld).tail contains

/-- The arrays on the way to an array are all different, so that as many steps as there are arrays
left are enough to come to its end. -/
theorem isSome_contentWithin?_of_visited (wellFormed : heap.WellFormed)
    (visited : Finset ArrayRef) (isVisited : heap.Visited visited ref) (present : ref < heap.size)
    (ending : ¬heap.Endless (.array ref)) {depth : Nat}
    (enough : heap.size ≤ visited.card + depth) :
    (heap.contentWithin? depth (.array ref)).isSome := by
  induction depth generalizing ref visited with
  | zero =>
      have more := isVisited.card_lt present ending
      omega
  | succ depth ih =>
      rw [isSome_contentWithin?_succ]
      intro item isItem
      by_cases isArray : ∃ inner, item = .array inner
      · rcases isArray with ⟨inner, rfl⟩
        -- One step deeper, there is one more array that must not come again.
        have card := Finset.card_insert_of_notMem (isVisited.isNew ending)
        apply ih (insert ref visited) (isVisited.insert present isItem)
          (wellFormed.lt_of_contains isItem)
        · intro endless
          exact ending (endless_of_item isItem endless)
        · omega
      · apply isSome_contentWithin?_of_type
        intro inner equal
        exact isArray ⟨inner, equal⟩

/-- A value has a content exactly if it leads to no cycle. -/
theorem isSome_content?_iff (wellFormed : heap.WellFormed) {value : Value}
    (within : value.Within heap.size) :
    (heap.content? value).isSome ↔ ¬heap.Endless value := by
  constructor
  · intro found endless
    exact not_isSome_contentWithin? endless heap.size found
  · intro ending
    by_cases isArray : ∃ ref, value = .array ref
    · rcases isArray with ⟨ref, rfl⟩
      apply isSome_contentWithin?_of_visited wellFormed ∅ ?_ within ending
      · simp
      · exact ⟨by simp, by simp⟩
    · apply isSome_contentWithin?_of_type
      intro ref equal
      exact isArray ⟨ref, equal⟩

end Heap

end Mel

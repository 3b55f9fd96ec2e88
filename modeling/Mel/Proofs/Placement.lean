import Mathlib.Data.List.Forall2
import Mel.Proofs.Acyclicity
import Mel.Proofs.Scopes

/-!
# Placement

The same arrays on two heaps: on one that holds nothing else, numbered in the order in which they
were made, and on one that holds others as well, wherever there was room. A list of places says
which is which: the array with the number n on the first heap lies at the n-th place on the second.

Values, scopes and heaps correspond if they are the same but for these numbers. What a value is
written as, how it counts as a truth and what an operator makes of it do not depend on the places
of arrays.
-/

namespace Mel

/-- The second value is the first one, where arrays are known by their places. -/
inductive Value.LiesAt (places : List ArrayRef) : Value → Value → Prop where
  | boolean (truth : Bool) : LiesAt places (.boolean truth) (.boolean truth)
  | integer (number : Int64) : LiesAt places (.integer number) (.integer number)
  | real (number : Float) : LiesAt places (.real number) (.real number)
  | string (text : String) : LiesAt places (.string text) (.string text)
  | array {ref place : ArrayRef} (isPlace : places[ref]? = some place) :
      LiesAt places (.array ref) (.array place)
  | nil : LiesAt places .nil .nil

namespace Value

variable {places places' : List ArrayRef} {value value' other other' : Value}

/-- A value without references is the same everywhere. -/
theorem liesAt_self (noReference : value.Within 0) : LiesAt places value value := by
  cases value with
  | array ref => exact absurd noReference (Nat.not_lt_zero ref)
  | _ => constructor

theorem liesAt_range {size : Nat} (within : value.Within size) :
    LiesAt (List.range size) value value := by
  cases value with
  | array ref => exact .array (List.getElem?_range within)
  | _ => constructor

theorem getElem?_of_isPrefix (grown : places <+: places') {ref place : ArrayRef}
    (isPlace : places[ref]? = some place) : places'[ref]? = some place := by
  obtain ⟨isCell, rfl⟩ := List.getElem?_eq_some_iff.mp isPlace
  exact List.prefix_iff_getElem?.mp grown ref isCell

theorem LiesAt.mono (grown : places <+: places') (lies : LiesAt places value value') :
    LiesAt places' value value' := by
  cases lies with
  | array isPlace => exact .array (getElem?_of_isPrefix grown isPlace)
  | _ => constructor

theorem LiesAt.within (lies : LiesAt places value value') : value.Within places.length := by
  cases lies with
  | array isPlace => exact (List.getElem?_eq_some_iff.mp isPlace).1
  | _ => exact trivial

theorem within_of_lie {values values' : List Value}
    (lie : List.Forall₂ (LiesAt places) values values') :
    ∀ value ∈ values, value.Within places.length := by
  induction lie with
  | nil =>
      intro value isMember
      cases isMember
  | cons lies _ ih => exact List.forall_mem_cons.mpr ⟨lies.within, ih⟩

theorem LiesAt.type_eq (lies : LiesAt places value value') : value'.type = value.type := by
  cases lies <;> rfl

theorem LiesAt.apply_eq (operator : Operator) (lies : LiesAt places value value')
    (liesOther : LiesAt places other other') :
    apply operator value' other' = apply operator value other := by
  simp only [apply, lies.type_eq, liesOther.type_eq]
  cases lies <;> cases liesOther <;> rfl

theorem LiesAt.applySuffix_eq (operator : Operator) (lies : LiesAt places value value') :
    applySuffix operator value' = applySuffix operator value := by
  cases lies <;> rfl

theorem LiesAt.negate_eq (lies : LiesAt places value value') : value'.negate = value.negate := by
  cases lies <;> rfl

end Value

namespace Heap

/-- All arrays of a heap are on another one as well, with the same numbers and the same items. -/
structure KeptIn (heap later : Heap) : Prop where
  size_le : heap.size ≤ later.size
  items : ∀ ref < heap.size, later.items ref = heap.items ref

theorem keptIn_refl (heap : Heap) : heap.KeptIn heap :=
  ⟨Nat.le_refl _, fun _ _ => rfl⟩

theorem KeptIn.trans {first second third : Heap} (early : first.KeptIn second)
    (late : second.KeptIn third) : first.KeptIn third := by
  refine ⟨Nat.le_trans early.size_le late.size_le, fun ref isCell => ?_⟩
  rw [late.items ref (Nat.lt_of_lt_of_le isCell early.size_le), early.items ref isCell]

theorem keptIn_alloc (heap : Heap) (items : Array Value) : heap.KeptIn (heap.alloc items).2 := by
  refine ⟨?_, fun ref isCell => items_alloc_of_lt isCell items⟩
  rw [size_alloc]
  exact Nat.le_succ _

/-- The arrays of the heap `guest` lie at these places on the heap `host`, apart from those of the
heap `outside`, which are all still there as they were. -/
structure Houses (outside : Heap) (places : List ArrayRef) (guest host : Heap) : Prop where
  length : places.length = guest.size
  nodup : places.Nodup
  outside_le : ∀ place ∈ places, outside.size ≤ place
  lt_size : ∀ place ∈ places, place < host.size
  size_le : guest.size ≤ host.size
  kept : outside.KeptIn host
  items : ∀ {ref place}, places[ref]? = some place →
    List.Forall₂ (Value.LiesAt places) (guest.items ref).toList (host.items place).toList

variable {outside guest host : Heap} {places : List ArrayRef}

theorem houses_empty (heap : Heap) : heap.Houses [] .empty heap where
  length := rfl
  nodup := .nil
  outside_le _ isPlace := by cases isPlace
  lt_size _ isPlace := by cases isPlace
  size_le := Nat.zero_le _
  kept := heap.keptIn_refl
  items isPlace := by cases isPlace

/-- A heap houses itself, each array at its own number. -/
theorem houses_self {heap : Heap} (wellFormed : heap.WellFormed) :
    Houses .empty (List.range heap.size) heap heap where
  length := List.length_range
  nodup := List.nodup_range
  outside_le _ _ := Nat.zero_le _
  lt_size _ isPlace := List.mem_range.mp isPlace
  size_le := Nat.le_refl _
  kept := ⟨Nat.zero_le _, fun ref isCell => absurd isCell (Nat.not_lt_zero ref)⟩
  items {ref place} isPlace := by
    obtain ⟨isCell, rfl⟩ := List.getElem?_eq_some_iff.mp isPlace
    rw [List.getElem_range]
    exact List.forall₂_same.mpr fun item isItem =>
      Value.liesAt_range (wellFormed ref item (Array.mem_toList_iff.mp isItem))

/-- What comes to the host behind all arrays that are there does not matter. -/
theorem Houses.of_keptIn (houses : outside.Houses places guest host) {later : Heap}
    (kept : host.KeptIn later) : outside.Houses places guest later where
  length := houses.length
  nodup := houses.nodup
  outside_le := houses.outside_le
  lt_size place isPlace := Nat.lt_of_lt_of_le (houses.lt_size place isPlace) kept.size_le
  size_le := Nat.le_trans houses.size_le kept.size_le
  kept := houses.kept.trans kept
  items isPlace := by
    rw [kept.items _ (houses.lt_size _ (List.mem_of_getElem? isPlace))]
    exact houses.items isPlace

/-- A new array on both heaps lies where the host has put it. -/
theorem Houses.alloc (houses : outside.Houses places guest host) {items items' : List Value}
    (lie : List.Forall₂ (Value.LiesAt places) items items') :
    outside.Houses (places ++ [host.size]) (guest.alloc items.toArray).2
      (host.alloc items'.toArray).2 where
  length := by
    rw [List.length_append, houses.length, size_alloc]
    rfl
  nodup := by
    apply List.Nodup.append houses.nodup (List.nodup_singleton _)
    intro place isOld isNew
    exact Nat.lt_irrefl _ (List.mem_singleton.mp isNew ▸ houses.lt_size place isOld)
  outside_le place isPlace := by
    rcases List.mem_append.mp isPlace with isOld | isNew
    · exact houses.outside_le place isOld
    · rw [List.mem_singleton.mp isNew]
      exact houses.kept.size_le
  lt_size place isPlace := by
    rw [size_alloc]
    rcases List.mem_append.mp isPlace with isOld | isNew
    · exact Nat.lt_succ_of_lt (houses.lt_size place isOld)
    · rw [List.mem_singleton.mp isNew]
      exact Nat.lt_succ_self _
  size_le := by
    rw [size_alloc, size_alloc]
    exact Nat.succ_le_succ houses.size_le
  kept := houses.kept.trans (host.keptIn_alloc _)
  items {ref place} isPlace := by
    have grown : places <+: places ++ [host.size] := List.prefix_append _ _
    by_cases isOld : ref < places.length
    · rw [List.getElem?_append_left isOld] at isPlace
      rw [items_alloc_of_lt (houses.length ▸ isOld),
        items_alloc_of_lt (houses.lt_size place (List.mem_of_getElem? isPlace))]
      exact (houses.items isPlace).imp fun _ _ lies => lies.mono grown
    · obtain ⟨rfl, rfl⟩ : ref = guest.size ∧ place = host.size := by
        rw [List.getElem?_append_right (Nat.le_of_not_lt isOld)] at isPlace
        have isLast := (List.getElem?_eq_some_iff.mp isPlace).1
        rw [List.length_singleton] at isLast
        have isNew : ref = places.length := Nat.le_antisymm
          (Nat.sub_eq_zero_iff_le.mp (Nat.lt_one_iff.mp isLast)) (Nat.le_of_not_lt isOld)
        subst ref
        rw [Nat.sub_self] at isPlace
        exact ⟨houses.length, (Option.some.inj isPlace).symm⟩
      have onGuest : (guest.alloc items.toArray).2.items guest.size = items.toArray :=
        items_alloc guest _
      have onHost : (host.alloc items'.toArray).2.items host.size = items'.toArray :=
        items_alloc host _
      rw [onGuest, onHost]
      exact lie.imp fun _ _ lies => lies.mono grown

theorem Houses.extend (houses : outside.Houses places guest host) {ref place : ArrayRef}
    (isPlace : places[ref]? = some place) {items items' : List Value}
    (lie : List.Forall₂ (Value.LiesAt places) items items') :
    outside.Houses places (guest.extend ref items.toArray) (host.extend place items'.toArray) where
  length := by rw [houses.length, size_extend]
  nodup := houses.nodup
  outside_le := houses.outside_le
  lt_size other isOther := by
    rw [size_extend]
    exact houses.lt_size other isOther
  size_le := by
    rw [size_extend, size_extend]
    exact houses.size_le
  kept := by
    have outsideLe := houses.outside_le place (List.mem_of_getElem? isPlace)
    refine ⟨by rw [size_extend]; exact houses.kept.size_le, fun other isCell => ?_⟩
    rw [items_extend_of_ne (Nat.ne_of_lt (Nat.lt_of_lt_of_le isCell outsideLe)),
      houses.kept.items other isCell]
  items {other otherPlace} isOther := by
    by_cases same : other = ref
    · subst same
      obtain rfl : otherPlace = place := Option.some.inj (isOther.symm.trans isPlace)
      have isCell := (List.getElem?_eq_some_iff.mp isPlace).1
      rw [items_extend (houses.length ▸ isCell),
        items_extend (houses.lt_size _ (List.mem_of_getElem? isPlace)), Array.toList_append,
        Array.toList_append]
      exact List.rel_append (houses.items isPlace) lie
    · have apart : otherPlace ≠ place := by
        rintro rfl
        have isCell := (List.getElem?_eq_some_iff.mp isOther).1
        exact same ((List.getElem?_inj isCell houses.nodup).mp (isOther.trans isPlace.symm))
      rw [items_extend_of_ne same, items_extend_of_ne apart]
      exact houses.items isOther

theorem Houses.wellFormed (houses : outside.Houses places guest host) : guest.WellFormed := by
  intro ref item isItem
  by_cases isCell : ref < places.length
  · rw [← houses.length]
    exact Value.within_of_lie (houses.items (List.getElem?_eq_getElem isCell)) item
      (Array.mem_toList_iff.mpr isItem)
  · rw [items_of_size_le (houses.length ▸ Nat.le_of_not_lt isCell)] at isItem
    exact absurd isItem (Array.not_mem_empty item)

theorem mapM_congr_of_lie {places : List ArrayRef} {find find' : Value → Option Content}
    (same : ∀ {value value'}, Value.LiesAt places value value' → find' value' = find value)
    {values values' : List Value} (lie : List.Forall₂ (Value.LiesAt places) values values') :
    values'.mapM find' = values.mapM find := by
  induction lie with
  | nil => rfl
  | cons lies _ ih => rw [List.mapM_cons, List.mapM_cons, same lies, ih]

theorem Houses.contentWithin?_eq (houses : outside.Houses places guest host) (depth : Nat)
    {value value' : Value} (lies : Value.LiesAt places value value') :
    host.contentWithin? depth value' = guest.contentWithin? depth value := by
  induction depth generalizing value value' with
  | zero =>
      cases lies <;> rfl
  | succ depth ih =>
      cases lies with
      | array isPlace =>
          rw [contentWithin?, contentWithin?, mapM_congr_of_lie ih (houses.items isPlace)]
      | _ => rfl

theorem mapM_of_implies {α β : Type} {find find' : α → Option β}
    (implies : ∀ {item result}, find item = some result → find' item = some result)
    {list : List α} {results : List β} (found : list.mapM find = some results) :
    list.mapM find' = some results := by
  induction list generalizing results with
  | nil => exact found
  | cons item rest ih =>
      rw [List.mapM_cons] at *
      obtain ⟨result, isResult, found⟩ := Option.bind_eq_some_iff.mp found
      obtain ⟨others, areOthers, found⟩ := Option.bind_eq_some_iff.mp found
      rw [implies isResult, ih areOthers]
      exact found

/-- A content that was found is found at all greater depths. -/
theorem contentWithin?_succ {heap : Heap} {depth : Nat} {value : Value} {content : Content}
    (found : heap.contentWithin? depth value = some content) :
    heap.contentWithin? (depth + 1) value = some content := by
  induction depth generalizing value content with
  | zero =>
      cases value with
      | array ref => cases found
      | _ => exact found
  | succ depth ih =>
      cases value with
      | array ref =>
          rw [contentWithin?] at found ⊢
          obtain ⟨contents, inside, rfl⟩ := Option.map_eq_some_iff.mp found
          rw [mapM_of_implies ih inside]
          rfl
      | _ => exact found

theorem contentWithin?_of_le {heap : Heap} {depth deeper : Nat} (le : depth ≤ deeper)
    {value : Value} {content : Content} (found : heap.contentWithin? depth value = some content) :
    heap.contentWithin? deeper value = some content := by
  induction le with
  | refl => exact found
  | step _ ih => exact contentWithin?_succ ih

/-- Arrays that lie elsewhere have the same contents. On a larger heap the search goes deeper, but
what it does not find on the smaller one contains itself and is found at no depth. -/
theorem Houses.content?_eq (houses : outside.Houses places guest host) {value value' : Value}
    (lies : Value.LiesAt places value value') : host.content? value' = guest.content? value := by
  rw [content?, houses.contentWithin?_eq host.size lies]
  cases found : guest.content? value with
  | some content => exact contentWithin?_of_le houses.size_le found
  | none =>
      have endless : guest.Endless value := by
        by_contra ending
        have within := lies.within
        rw [houses.length] at within
        have isSome := (isSome_content?_iff houses.wellFormed within).mpr ending
        rw [found] at isSome
        cases isSome
      exact Option.not_isSome_iff_eq_none.mp (not_isSome_contentWithin? endless host.size)

/-- New arrays on a heap do not matter for the contents of the values that were there before. -/
theorem KeptIn.content?_eq {heap later : Heap} (kept : heap.KeptIn later)
    (wellFormed : heap.WellFormed) {value : Value} (within : value.Within heap.size) :
    later.content? value = heap.content? value :=
  ((houses_self wellFormed).of_keptIn kept).content?_eq (Value.liesAt_range within)

/-- An array is its items, whatever its number is. -/
theorem content?_eq_of_items {heap : Heap} {ref other : ArrayRef}
    (same : heap.items ref = heap.items other) :
    heap.content? (.array ref) = heap.content? (.array other) := by
  rw [content?, content?]
  cases heap.size with
  | zero => rfl
  | succ depth => rw [contentWithin?, contentWithin?, same]

theorem Houses.isTruthy_eq (houses : outside.Houses places guest host) {value value' : Value}
    (lies : Value.LiesAt places value value') : host.isTruthy value' = guest.isTruthy value := by
  cases lies with
  | array isPlace =>
      have sameLength := (houses.items isPlace).length_eq
      simp only [Array.length_toList] at sameLength
      simp only [isTruthy, Array.isEmpty, sameLength]
  | _ => rfl

end Heap

end Mel

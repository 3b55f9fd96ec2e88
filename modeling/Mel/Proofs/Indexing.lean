import Mel.Proofs.OuterBindings
import Mel.Proofs.Placement

/-!
# Indexing

The items of an array are counted from one, and so are the characters of a text, each of which is a
text of its own. Length, indexing and reversal agree on this: the length says at which positions
there are items, and reversal counts the same positions from the other end. A reversed array is a
new array, so that what is appended to one of the two is not seen in the other.
-/

namespace Mel

open Relation (ReflTransGen)

theorem Value.text_or_array {collection : Value}
    (isCollection : collection.type = .string ∨ collection.type = .array) :
    (∃ text, collection = .string text) ∨ ∃ ref, collection = .array ref := by
  cases collection with
  | string text => exact .inl ⟨text, rfl⟩
  | array ref => exact .inr ⟨ref, rfl⟩
  | _ => simp [Value.type] at isCollection

namespace Heap

/-- The items of an array or the characters of a text. -/
def members? (heap : Heap) : Value → Option (List Value)
  | .string text => some (text.toList.map fun character => .string character.toString)
  | .array ref => some (heap.items ref).toList
  | _ => none

/-- What values are put together to: texts to a longer text, and items to an array. -/
inductive Builds (heap : Heap) : List Value → Value → Prop where
  | text (pieces : List String) : Builds heap (pieces.map .string) (.string (String.join pieces))
  | array (ref : ArrayRef) : Builds heap (heap.items ref).toList (.array ref)

variable {heap : Heap} {collection : Value} {items : List Value}

theorem exists_members (heap : Heap)
    (isCollection : collection.type = .string ∨ collection.type = .array) :
    ∃ items, heap.members? collection = some items := by
  rcases Value.text_or_array isCollection with ⟨text, rfl⟩ | ⟨ref, rfl⟩
  · exact ⟨_, rfl⟩
  · exact ⟨_, rfl⟩

theorem join_characters (text : String) :
    String.join (text.toList.map fun character => character.toString) = text := by
  rw [← String.toList_inj, String.toList_join, List.flatMap_map]
  simp only [Char.toString_eq_singleton, String.toList_singleton, List.flatMap_singleton']

theorem builds_of_members (isMembers : heap.members? collection = some items) :
    heap.Builds items collection := by
  cases collection with
  | string text =>
      cases isMembers
      have built : heap.Builds _ (.string (String.join (text.toList.map fun character =>
        character.toString))) := .text _
      rwa [join_characters, List.map_map] at built
  | array ref =>
      cases isMembers
      exact .array ref
  | _ => cases isMembers

end Heap

namespace Exec

section

variable {α : Type} {items : List α} {index mirrored : Int64} {item : α}

/-- The item that an integer stands for, if it stands for one. -/
def pick? (items : List α) (index : Int64) : Option α :=
  if index.toInt.toNat = 0 then none else itemAt? items index.toInt.toNat

theorem pick?_eq_some_iff :
    pick? items index = some item ↔
      ∃ position : Nat, index.toInt = position + 1 ∧ items[position]? = some item := by
  rw [pick?, itemAt?]
  constructor
  · intro found
    by_cases isZero : index.toInt.toNat = 0
    · rw [if_pos isZero] at found
      cases found
    · rw [if_neg isZero] at found
      exact ⟨index.toInt.toNat - 1, by omega, found⟩
  · rintro ⟨position, isPosition, isItem⟩
    have isNext : index.toInt.toNat = position + 1 := by omega
    rw [isNext, if_neg (Nat.succ_ne_zero position), Nat.add_sub_cancel, isItem]

theorem toInt_ofNat_of_le {number : Nat} (small : number ≤ Int64.maxValue.toInt) :
    (Int64.ofNat number).toInt = number := by
  rw [Int64.toInt_maxValue] at small
  exact Int64.toInt_ofNat_of_lt (by omega)

/-- As a number of items is cut off at the greatest integer, no integer is too great for it that was
not too great before. -/
theorem le_countOfItems_iff (index : Int64) (number : Nat) :
    index ≤ countOfItems number ↔ index.toInt ≤ number := by
  rw [Int64.le_iff_toInt_le, countOfItems]
  by_cases small : number ≤ Int64.maxValue.toInt
  · rw [if_pos small, toInt_ofNat_of_le small]
  · rw [if_neg small]
    have bounded := index.toInt_le
    omega

theorem isSome_pick?_iff :
    (pick? items index).isSome ↔ 1 ≤ index ∧ index ≤ countOfItems items.length := by
  have isOne : (1 : Int64).toInt = 1 := rfl
  rw [le_countOfItems_iff, Int64.le_iff_toInt_le, isOne, Option.isSome_iff_exists]
  simp only [pick?_eq_some_iff]
  constructor
  · rintro ⟨item, position, isPosition, isItem⟩
    have inside := (List.getElem?_eq_some_iff.mp isItem).1
    omega
  · rintro ⟨positive, le⟩
    have inside : index.toInt.toNat - 1 < items.length := by omega
    exact ⟨_, _, by omega, List.getElem?_eq_getElem inside⟩

/-- An item of a reversed list is found at the same position from the other end. -/
theorem pick?_of_reverse (mirrors : mirrored.toInt = items.length + 1 - index.toInt)
    (found : pick? items.reverse index = some item) : pick? items mirrored = some item := by
  obtain ⟨position, isPosition, isItem⟩ := pick?_eq_some_iff.mp found
  have inside := (List.getElem?_eq_some_iff.mp isItem).1
  rw [List.length_reverse] at inside
  rw [List.getElem?_reverse inside] at isItem
  exact pick?_eq_some_iff.mpr ⟨_, by omega, isItem⟩

theorem pick?_reverse_iff (mirrors : mirrored.toInt = items.length + 1 - index.toInt) :
    pick? items.reverse index = some item ↔ pick? items mirrored = some item := by
  refine ⟨pick?_of_reverse mirrors, fun found => ?_⟩
  rw [← items.reverse_reverse] at found
  apply pick?_of_reverse _ found
  rw [List.length_reverse, mirrors]
  omega

end

/-- The length of a value says which integers stand for one of its items; all others are refused. -/
structure IsCounted (machine : Machine) (collection : Value) (count : Int64) : Prop where
  length : length [collection] machine = .ok (.integer count) machine
  found : ∀ index, 1 ≤ index ∧ index ≤ count →
    ∃ item, getItem [collection, .integer index] machine = .ok item machine
  refused : ∀ index, ¬(1 ≤ index ∧ index ≤ count) →
    getItem [collection, .integer index] machine =
      .error (.error (.indexOutOfBounds index)) machine

variable {machine later final : Machine} {collection reversed again : Value} {items : List Value}

theorem itemsOf_apply (ref : ArrayRef) (machine : Machine) :
    itemsOf ref machine = .ok (machine.heap.items ref).toList machine := rfl

theorem length_apply (isMembers : machine.heap.members? collection = some items) :
    length [collection] machine = .ok (.integer (countOfItems items.length)) machine := by
  cases collection with
  | string text =>
      cases isMembers
      rw [List.length_map, String.length_toList]
      rfl
  | array ref =>
      cases isMembers
      rfl
  | _ => cases isMembers

theorem getItem_apply (isMembers : machine.heap.members? collection = some items) (index : Int64) :
    getItem [collection, .integer index] machine =
      ((pick? items index).elim (fail (.indexOutOfBounds index)) pure : Exec Value) machine := by
  rw [pick?]
  by_cases isZero : index.toInt.toNat = 0
  · have refused : getItem [collection, .integer index] = fail (.indexOutOfBounds index) :=
      if_pos isZero
    rw [refused, if_pos isZero, Option.elim_none]
  · rw [if_neg isZero, itemAt?]
    cases collection with
    | string text =>
        cases isMembers
        rw [getItem, if_neg isZero, itemAt?, List.getElem?_map]
        cases text.toList[index.toInt.toNat - 1]? <;> rfl
    | array ref =>
        cases isMembers
        rw [getItem, if_neg isZero, bind_of_ok (itemsOf_apply ref machine), itemAt?]
        cases (machine.heap.items ref).toList[index.toInt.toNat - 1]? <;> rfl
    | _ => cases isMembers

theorem getItem_eq_ok_iff (isMembers : machine.heap.members? collection = some items)
    {index : Int64} {item : Value} :
    getItem [collection, .integer index] machine = .ok item machine ↔
      pick? items index = some item := by
  rw [getItem_apply isMembers]
  constructor
  · intro ended
    cases picked : pick? items index with
    | none =>
        rw [picked] at ended
        cases ended
    | some other =>
        rw [picked] at ended
        cases ended
        rfl
  · intro picked
    rw [picked]
    rfl

theorem isCounted_of_members (isMembers : machine.heap.members? collection = some items) :
    IsCounted machine collection (countOfItems items.length) where
  length := length_apply isMembers
  found index inside := by
    obtain ⟨item, picked⟩ := Option.isSome_iff_exists.mp (isSome_pick?_iff.mpr inside)
    exact ⟨item, (getItem_eq_ok_iff isMembers).mpr picked⟩
  refused index outside := by
    rw [← isSome_pick?_iff, Option.not_isSome_iff_eq_none] at outside
    rw [getItem_apply isMembers, outside]
    rfl

/-- The machine behind a new array. -/
def behindNewArray (items : List Value) (machine : Machine) : Machine :=
  { machine with
    heap := (machine.heap.alloc items.toArray).2
    history := .arrayMade items :: machine.history }

/-- What reversing makes of a value, and the machine behind it. -/
inductive Reverses (machine : Machine) : Value → Value → Machine → Prop where
  | text (text : String) :
      Reverses machine (.string text) (.string (String.ofList text.toList.reverse)) machine
  | array (ref : ArrayRef) :
      Reverses machine (.array ref) (.array machine.heap.size)
        (behindNewArray (machine.heap.items ref).toList.reverse machine)

theorem reverse_apply (reverses : Reverses machine collection reversed later) :
    reverse [collection] machine = .ok reversed later := by
  cases reverses <;> rfl

theorem exists_reverses (isCollection : collection.type = .string ∨ collection.type = .array)
    (machine : Machine) : ∃ reversed later, Reverses machine collection reversed later := by
  rcases Value.text_or_array isCollection with ⟨text, rfl⟩ | ⟨ref, rfl⟩
  · exact ⟨_, _, .text text⟩
  · exact ⟨_, _, .array ref⟩

namespace Reverses

theorem type_eq (reverses : Reverses machine collection reversed later) :
    reversed.type = collection.type := by
  cases reverses <;> rfl

theorem keptIn (reverses : Reverses machine collection reversed later) :
    machine.heap.KeptIn later.heap := by
  cases reverses with
  | text => exact machine.heap.keptIn_refl
  | array => exact machine.heap.keptIn_alloc _

theorem members (reverses : Reverses machine collection reversed later)
    (isMembers : machine.heap.members? collection = some items) :
    later.heap.members? reversed = some items.reverse := by
  cases reverses with
  | text text =>
      cases isMembers
      rw [Heap.members?, String.toList_ofList, List.map_reverse]
  | array ref =>
      cases isMembers
      have isNew : (behindNewArray (machine.heap.items ref).toList.reverse machine).heap.items
          machine.heap.size = _ := machine.heap.items_alloc _
      rw [Heap.members?, isNew]

/-- What is reversed twice has its content again, although the arrays are new ones. -/
theorem content?_eq (reverses : Reverses machine collection reversed later)
    (reversesBack : Reverses later reversed again final) (wellFormed : machine.heap.WellFormed)
    (within : collection.Within machine.heap.size) :
    final.heap.content? again = machine.heap.content? collection := by
  have kept := reverses.keptIn.trans reversesBack.keptIn
  rw [← kept.content?_eq wellFormed within]
  cases reverses with
  | text text =>
      cases reversesBack
      rw [String.toList_ofList, List.reverse_reverse, String.ofList_toList]
  | array ref =>
      have membersBack := reversesBack.members ((Reverses.array ref).members rfl)
      rw [List.reverse_reverse] at membersBack
      cases reversesBack
      apply Heap.content?_eq_of_items
      rw [kept.items ref within]
      exact Array.toList_inj.mp (Option.some.inj membersBack)

end Reverses

variable {ref other : ArrayRef} {before : Machine}

/-- Items are put at the end of an array, whether it comes on its own, from a variable or by the
name of one. -/
def Appends (ref : ArrayRef) (before later : Machine) : Prop :=
  ∃ variableName target item items boundTo, IsTarget variableName before target ref boundTo ∧
    (append variableName (target :: item :: items)).after before = later

theorem heap_after_writeBack (ref : ArrayRef) (boundTo : Option String) (machine : Machine) :
    ((writeBack ref boundTo >>= fun _ => pure .nil : Exec Value).after machine).heap =
      machine.heap := by
  cases boundTo with
  | none => rfl
  | some name =>
      rw [after, writeBack, bind_apply, assign_apply]
      cases machine.scope.assign? name (.array ref) <;> rfl

theorem Appends.heap_eq (appends : Appends ref before later) :
    ∃ items, later.heap = before.heap.extend ref items := by
  obtain ⟨variableName, target, item, items, boundTo, isTarget, rfl⟩ := appends
  refine ⟨(item :: items).toArray, ?_⟩
  rw [after, append_of_isTarget isTarget]
  exact heap_after_writeBack ref boundTo (behindExtend ref (item :: items) before)

/-- However often items are put at the end of an array, other arrays keep theirs. -/
theorem items_of_appends (distinct : other ≠ ref)
    (appends : ReflTransGen (Appends ref) before later) :
    later.heap.items other = before.heap.items other := by
  induction appends with
  | refl => rfl
  | tail _ last ih =>
      obtain ⟨items, extended⟩ := last.heap_eq
      rw [extended, Heap.items_extend_of_ne distinct, ih]

/-- A text or an array has as many items as its length says: these are found from one up to the
length, and all other integers are refused. What they are put together to is the text or the array
once more. A reversed one has the same length, its items are those from the other end, and reversed
again it has the content that it had. An array that was reversed is still there as it was; the
reversed one is a new array, and what is appended to one of the two, however often, is not seen in
the other. Only a length that does not fit into an integer, which is more than there is memory for,
is cut off.

The references of a machine that a run has reached are to arrays that are there (`Machine.Sound`),
so that its heap is well-formed. -/
theorem indexing_agrees_with_length_and_reverse (wellFormed : machine.heap.WellFormed)
    (within : collection.Within machine.heap.size)
    (isCollection : collection.type = .string ∨ collection.type = .array) :
    ∃ count items reversed later again final,
      IsCounted machine collection count ∧
      machine.heap.Builds items collection ∧
      reverse [collection] machine = .ok reversed later ∧
      IsCounted later reversed count ∧
      reverse [reversed] later = .ok again final ∧
      final.heap.Builds items again ∧
      final.heap.content? again = machine.heap.content? collection ∧
      (items.length ≤ Int64.maxValue.toInt →
        count.toInt = items.length ∧
        (∀ (position : Nat) item, items[position]? = some item →
          getItem [collection, .integer (.ofNat (position + 1))] machine = .ok item machine) ∧
        ∀ index mirrored : Int64, mirrored.toInt = count.toInt + 1 - index.toInt → ∀ item,
          getItem [reversed, .integer index] later = .ok item later ↔
            getItem [collection, .integer mirrored] machine = .ok item machine) ∧
      ∀ ref, collection = .array ref → ∃ new,
        reversed = .array new ∧ machine.heap.size ≤ new ∧
        later.heap.items ref = machine.heap.items ref ∧
        ∀ before after,
          (ReflTransGen (Appends ref) before after →
            after.heap.items new = before.heap.items new) ∧
          (ReflTransGen (Appends new) before after →
            after.heap.items ref = before.heap.items ref) := by
  obtain ⟨items, isMembers⟩ := machine.heap.exists_members isCollection
  obtain ⟨reversed, later, reverses⟩ := exists_reverses isCollection machine
  rw [← reverses.type_eq] at isCollection
  obtain ⟨again, final, reversesBack⟩ := exists_reverses isCollection later
  have isMembersReversed := reverses.members isMembers
  have isMembersBack := reversesBack.members isMembersReversed
  rw [List.reverse_reverse] at isMembersBack
  have isCountedReversed := isCounted_of_members isMembersReversed
  rw [List.length_reverse] at isCountedReversed
  refine ⟨countOfItems items.length, items, reversed, later, again, final,
    isCounted_of_members isMembers, Heap.builds_of_members isMembers, reverse_apply reverses,
    isCountedReversed, reverse_apply reversesBack, Heap.builds_of_members isMembersBack,
    reverses.content?_eq reversesBack wellFormed within, fun small => ?_, ?_⟩
  · have isCount : (countOfItems items.length).toInt = items.length := by
      rw [countOfItems, if_pos small, toInt_ofNat_of_le small]
    refine ⟨isCount, fun position item isItem => ?_, fun index mirrored mirrors item => ?_⟩
    · have inside := (List.getElem?_eq_some_iff.mp isItem).1
      rw [getItem_eq_ok_iff isMembers, pick?_eq_some_iff]
      exact ⟨position, toInt_ofNat_of_le (by omega), isItem⟩
    · rw [isCount] at mirrors
      rw [getItem_eq_ok_iff isMembersReversed, getItem_eq_ok_iff isMembers,
        pick?_reverse_iff mirrors]
  · rintro ref rfl
    cases reverses
    have isOld : ref < machine.heap.size := within
    refine ⟨machine.heap.size, rfl, Nat.le_refl _, Heap.items_alloc_of_lt isOld _,
      fun before after => ⟨items_of_appends (Nat.ne_of_gt isOld),
        items_of_appends (Nat.ne_of_lt isOld)⟩⟩

/-- The last item of three comes first, and there is no fourth one. -/
theorem indexing_agrees_with_length_and_reverse_nested :
    let machine : Machine := { Machine.fresh (.ofInput [] none) 0 with
      heap := ⟨#[#[.integer 7], #[.array 0, .string "é", .nil]]⟩ }
    ∃ reversed later again final,
      reverse [.array 1] machine = .ok reversed later ∧
      reverse [reversed] later = .ok again final ∧
      getItem [reversed, .integer 1] later = .ok .nil later ∧
      getItem [reversed, .integer 4] later = .error (.error (.indexOutOfBounds 4)) later ∧
      reversed ≠ .array 1 ∧ (final.heap.content? again).isSome ∧
      final.heap.content? again = machine.heap.content? (.array 1) := by
  intro machine
  have wellFormed : machine.heap.WellFormed :=
    Heap.forall_mem_items (by simp [machine, Value.Within, Heap.size])
  have within : (Value.array 1).Within machine.heap.size := Nat.lt_succ_self 1
  obtain ⟨count, items, reversed, later, again, final, counted, built, ended, countedBack,
    endedBack, -, sameContent, whole, isNew⟩ :=
    indexing_agrees_with_length_and_reverse wellFormed within (.inr rfl)
  cases counted.length
  cases built
  obtain ⟨-, -, mirrored⟩ := whole (by decide)
  obtain ⟨new, rfl, size_le, -⟩ := isNew 1 rfl
  refine ⟨_, later, again, final, ended, endedBack, (mirrored 1 3 (by decide) .nil).mpr rfl,
    countedBack.refused 4 (by decide), ?_, ?_, sameContent⟩
  · rintro ⟨⟩
    exact Nat.not_lt_of_le size_le (by decide)
  · rw [sameContent]
    rfl

end Exec

end Mel

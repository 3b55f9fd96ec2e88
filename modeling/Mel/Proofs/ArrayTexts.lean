import Mel.Proofs.Containment
import Mel.Proofs.Forms
import Mel.Proofs.RealTexts
import Mel.Proofs.Step

/-!
# Arrays by their texts

What an array is written as tells its items, all the way down, as long as there is no real among
them: a word is the name of a truth or of nil, or an integer in digits, what is between quotes is a
text, and what is between brackets is an array. So arrays are written alike exactly if they are
equal.
-/

namespace Mel

open Relation (ReflTransGen)
open Text (Form IsPlainWord)

namespace Content

/-- There is no real in a content. -/
inductive IsRealFree : Content → Prop where
  | boolean (truth : Bool) : IsRealFree (.boolean truth)
  | integer (number : Int64) : IsRealFree (.integer number)
  | string (text : String) : IsRealFree (.string text)
  | array {items : List Content} (areRealFree : ∀ item ∈ items, IsRealFree item) :
      IsRealFree (.array items)
  | nil : IsRealFree .nil

/-- The content that a word is written for. -/
def ofWord (word : String) : Content :=
  if word = "true" then .boolean true
  else if word = "false" then .boolean false
  else if word = "nil" then .nil
  else .integer (.ofInt ((Floating.exponent? word.toList).getD 0))

mutual

/-- The content without reals that a form is written for. -/
def ofForm : Form → Content
  | .word word => ofWord word
  | .quoted text => .string text
  | .brackets items => .array (ofForms items)
  | .parens _ => .nil

def ofForms : List Form → List Content
  | [] => []
  | item :: items => ofForm item :: ofForms items

end

theorem forms_eq_map (items : List Content) : forms items = items.map form := by
  induction items with
  | nil => rfl
  | cons item items ih => rw [forms, ih, List.map_cons]

theorem ofForms_eq_map (items : List Form) : ofForms items = items.map ofForm := by
  induction items with
  | nil => rfl
  | cons item items ih => rw [ofForms, ih, List.map_cons]

theorem toString_ne_of_not_isDigit {name : String} (number : Int)
    (named : ∃ character ∈ name.toList, ¬(character.isDigit ∨ character = '-')) :
    toString number ≠ name := by
  rintro rfl
  obtain ⟨character, member, noPart⟩ := named
  exact noPart (Floating.isDigit_or_eq_minus member)

theorem ofWord_toString (number : Int64) : ofWord (toString number.toInt) = .integer number := by
  have notTrue : toString number.toInt ≠ "true" := toString_ne_of_not_isDigit _ ⟨'t', by decide⟩
  have notFalse : toString number.toInt ≠ "false" := toString_ne_of_not_isDigit _ ⟨'f', by decide⟩
  have notNil : toString number.toInt ≠ "nil" := toString_ne_of_not_isDigit _ ⟨'n', by decide⟩
  rw [ofWord, if_neg notTrue, if_neg notFalse, if_neg notNil, Floating.exponent?_toString,
    Option.getD_some, Int64.ofInt_toInt]

/-- What a content is written as is read back. -/
theorem ofForm_form {content : Content} (realFree : content.IsRealFree) :
    ofForm content.form = content := by
  induction realFree with
  | boolean truth => cases truth <;> rfl
  | integer number => exact ofWord_toString number
  | string text => rfl
  | @array items _ ih =>
      have readItems : ofForms (forms items) = items := by
        rw [forms_eq_map, ofForms_eq_map, List.map_map]
        exact (List.map_congr_left ih).trans (List.map_id items)
      exact congrArg array readItems
  | nil => rfl

theorem isPlainWord_toString (number : Int) : IsPlainWord (toString number) where
  nonempty := by
    cases number with
    | ofNat number =>
        have isText : toString (Int.ofNat number) = number.repr := rfl
        rw [isText, Nat.toList_repr]
        exact Nat.toDigits_ne_nil
    | negSucc number =>
        have isText : toString (Int.negSucc number) = "-" ++ (number + 1).repr := rfl
        rw [isText, String.toList_append]
        exact List.cons_ne_nil _ _
  undelimited character member := by
    have undelimited : "0123456789".toList.all (!Text.isDelimiter ·) := by decide
    rcases Floating.isDigit_or_eq_minus member with isDigit | rfl
    · simpa using List.all_eq_true.mp undelimited character (Floating.mem_of_isDigit isDigit)
    · rfl

theorem isPlain_form {content : Content} (realFree : content.IsRealFree) :
    content.form.IsPlain := by
  induction realFree with
  | boolean truth => cases truth <;> exact .word (by decide)
  | integer number => exact .word (isPlainWord_toString _)
  | string text => exact .quoted text
  | @array items _ ih =>
      refine .brackets ?_
      rw [forms_eq_map]
      exact List.forall_mem_map.mpr ih
  | nil => exact .word (by decide)

/-- Two arrays without reals that are written alike have the same items. -/
theorem text_injective {items items' : List Content}
    (realFree : (array items).IsRealFree) (realFree' : (array items').IsRealFree)
    (same : (array items).text = (array items').text) : items = items' := by
  have delimited : Text.Delimited [] := by
    rintro character ⟨⟩
  have sameChars : (array items).form.onto [] = (array items').form.onto [] :=
    String.ofList_injective same
  obtain ⟨sameForm, -⟩ := Form.onto_injective (isPlain_form realFree) (isPlain_form realFree')
    delimited delimited sameChars
  rw [← array.injEq, ← ofForm_form realFree, sameForm, ofForm_form realFree']

theorem sameItems_iff {items : List Content}
    (each : ∀ item ∈ items, ∀ other : Content, item.same other = true ↔ item = other)
    (others : List Content) : sameItems items others = true ↔ items = others := by
  induction items generalizing others with
  | nil => cases others <;> simp [sameItems]
  | cons item items ih =>
      rw [List.forall_mem_cons] at each
      cases others with
      | nil => simp [sameItems]
      | cons other others => rw [sameItems, Bool.and_eq_true, each.1, ih each.2, List.cons.injEq]

/-- Reals apart, what is equal is the same. -/
theorem same_iff_eq {content : Content} (realFree : content.IsRealFree) (other : Content) :
    content.same other = true ↔ content = other := by
  induction realFree generalizing other with
  | boolean truth => cases other <;> simp [same]
  | integer number => cases other <;> simp [same]
  | string text => cases other <;> simp [same]
  | @array items _ ih =>
      cases other with
      | array others => rw [same, sameItems_iff ih, array.injEq]
      | _ => simp [same]
  | nil => cases other <;> simp [same]

end Content

namespace Heap

/-- None of the arrays that a value leads to has a real among its items. -/
def LeadsToNoReal (heap : Heap) (value : Value) : Prop :=
  ∀ ref, heap.Leads value ref → ∀ item ∈ heap.items ref, item.type ≠ .real

theorem LeadsToNoReal.item {heap : Heap} {ref : ArrayRef}
    (noReal : heap.LeadsToNoReal (.array ref)) {item : Value} (isItem : item ∈ heap.items ref) :
    heap.LeadsToNoReal item := by
  rintro inner ⟨start, rfl, path⟩
  exact noReal inner ⟨ref, rfl, .head isItem path⟩

theorem exists_of_mem_mapM {α β : Type} {find : α → Option β} {list : List α} {results : List β}
    (found : list.mapM find = some results) {result : β} (member : result ∈ results) :
    ∃ item ∈ list, find item = some result := by
  induction list generalizing results with
  | nil =>
      cases found
      cases member
  | cons item rest ih =>
      rw [List.mapM_cons] at found
      obtain ⟨first, isFirst, found⟩ := Option.bind_eq_some_iff.mp found
      obtain ⟨others, areOthers, found⟩ := Option.bind_eq_some_iff.mp found
      cases found
      rcases List.mem_cons.mp member with rfl | isOther
      · exact ⟨item, List.mem_cons_self, isFirst⟩
      · obtain ⟨other, isItem, isFound⟩ := ih areOthers isOther
        exact ⟨other, List.mem_cons_of_mem _ isItem, isFound⟩

theorem isRealFree_of_contentWithin? {heap : Heap} {depth : Nat} {value : Value}
    {content : Content} (found : heap.contentWithin? depth value = some content)
    (notReal : value.type ≠ .real) (noReal : heap.LeadsToNoReal value) : content.IsRealFree := by
  induction depth generalizing value content with
  | zero =>
      cases value with
      | real number => exact (notReal rfl).elim
      | array ref => cases found
      | boolean _ | integer _ | string _ | nil =>
          cases found
          constructor
  | succ depth ih =>
      cases value with
      | real number => exact (notReal rfl).elim
      | array ref =>
          obtain ⟨contents, areContents, rfl⟩ := Option.map_eq_some_iff.mp found
          refine .array fun inner isInner => ?_
          obtain ⟨item, isItem, isFound⟩ := exists_of_mem_mapM areContents isInner
          have isItem : item ∈ heap.items ref := Array.mem_toList_iff.mp isItem
          exact ih isFound (noReal ref (leads_of_reaches .refl) item isItem) (noReal.item isItem)
      | boolean _ | integer _ | string _ | nil =>
          cases found
          constructor

theorem eq_array_of_contentWithin? {heap : Heap} {depth : Nat} {ref : ArrayRef} {content : Content}
    (found : heap.contentWithin? depth (.array ref) = some content) :
    ∃ items, content = .array items := by
  cases depth with
  | zero => cases found
  | succ depth =>
      obtain ⟨items, -, rfl⟩ := Option.map_eq_some_iff.mp found
      exact ⟨items, rfl⟩

/-- An array that does not lead to itself or to another array that does, and has no real anywhere in
it. -/
structure HasPlainArray (heap : Heap) (ref : ArrayRef) : Prop where
  present : ref < heap.size
  ending : ¬heap.Endless (.array ref)
  noReal : heap.LeadsToNoReal (.array ref)

theorem HasPlainArray.exists_content {heap : Heap} {ref : ArrayRef}
    (isPlain : heap.HasPlainArray ref) (wellFormed : heap.WellFormed) :
    ∃ items, heap.content? (.array ref) = some (.array items) ∧
      (Content.array items).IsRealFree := by
  have within : (Value.array ref).Within heap.size := isPlain.present
  obtain ⟨content, found⟩ :=
    Option.isSome_iff_exists.mp ((isSome_content?_iff wellFormed within).mpr isPlain.ending)
  have realFree := isRealFree_of_contentWithin? found ValueType.noConfusion isPlain.noReal
  obtain ⟨items, rfl⟩ := eq_array_of_contentWithin? found
  exact ⟨items, found, realFree⟩

end Heap

/-- Arrays are written alike exactly if they are equal, and exactly if they have the same content.
They may be nested in any way and lie on different machines, and they may be built from all values
but reals. The references of a machine that a run has reached are to arrays that are there
(`Machine.Sound`), so that its heap is well-formed. -/
theorem array_texts_eq_iff_same {machine machine' : Machine} {ref ref' : ArrayRef}
    (wellFormed : machine.heap.WellFormed) (wellFormed' : machine'.heap.WellFormed)
    (isPlain : machine.heap.HasPlainArray ref) (isPlain' : machine'.heap.HasPlainArray ref') :
    ∃ content content',
      machine.heap.content? (.array ref) = some content ∧
      machine'.heap.content? (.array ref') = some content' ∧
      Exec.textOf (.array ref) machine = .ok content.text machine ∧
      Exec.textOf (.array ref') machine' = .ok content'.text machine' ∧
      (content.text = content'.text ↔ content.same content' = true) ∧
      (content.text = content'.text ↔ content = content') := by
  obtain ⟨items, found, realFree⟩ := isPlain.exists_content wellFormed
  obtain ⟨items', found', realFree'⟩ := isPlain'.exists_content wellFormed'
  have told : (Content.array items).text = (Content.array items').text ↔
      Content.array items = Content.array items' := by
    constructor
    · exact fun sameText => congrArg _ (Content.text_injective realFree realFree' sameText)
    · exact congrArg Content.text
  refine ⟨_, _, found, found', ?_, ?_, told.trans (Content.same_iff_eq realFree _).symm, told⟩
  · rw [Exec.textOf_apply, found]
  · rw [Exec.textOf_apply, found']

/-- The second item of the inner array is nil in one case and its name in the other. -/
theorem array_texts_eq_iff_same_nil :
    let machine : Machine := { Machine.fresh (.ofInput [] none) 0 with
      heap := ⟨#[#[.string "1", .nil], #[.integer 1, .array 0],
        #[.string "1", .string "nil"], #[.integer 1, .array 2]]⟩ }
    machine.heap.HasPlainArray 1 ∧ machine.heap.HasPlainArray 3 ∧
    ∃ content content' : Content,
      Exec.textOf (.array 1) machine = .ok content.text machine ∧
      Exec.textOf (.array 3) machine = .ok content'.text machine ∧
      content.text = "[1, [\"1\", nil]]" ∧ content'.text = "[1, [\"1\", \"nil\"]]" ∧
      ¬content.same content' = true := by
  intro machine
  have wellFormed : machine.heap.WellFormed :=
    Heap.forall_mem_items (by simp [machine, Value.Within, Heap.size])
  have noReal : ∀ ref, ∀ item ∈ machine.heap.items ref, item.type ≠ .real :=
    Heap.forall_mem_items (by simp [machine, Value.type])
  have isPlain (ref : ArrayRef) (present : ref < machine.heap.size)
      (found : (machine.heap.content? (.array ref)).isSome) : machine.heap.HasPlainArray ref := by
    have within : (Value.array ref).Within machine.heap.size := present
    have notEndless := (Heap.isSome_content?_iff wellFormed within).mp found
    exact ⟨present, notEndless, fun inner _ => noReal inner⟩
  have isPlain₁ := isPlain 1 (by decide) rfl
  have isPlain₃ := isPlain 3 (by decide) rfl
  obtain ⟨content, content', found, found', isText, isText', told, -⟩ :=
    array_texts_eq_iff_same wellFormed wellFormed isPlain₁ isPlain₃
  cases found
  cases found'
  refine ⟨isPlain₁, isPlain₃, _, _, isText, isText', by decide, by decide, ?_⟩
  rw [← told]
  decide

end Mel

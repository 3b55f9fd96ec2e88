import Mathlib.Data.List.Forall2
import Mel.Scope

/-!
# Scopes

What is looked up after a name was rebound. Rebinding works on the highest frame that has the
name, which is the frame that looking it up finds: it succeeds exactly on names that are bound,
changes what this one name means, and changes nothing if the name meant the same before.

Scopes with the same names and related values stay such scopes whatever is done to both of them.
-/

namespace Mel

namespace Table

variable {α : Type}

theorem find?_append (name : String) (entries entries' : List (String × α)) :
    find? name (entries ++ entries') = (find? name entries).or (find? name entries') := by
  induction entries with
  | nil => rfl
  | cons entry entries ih =>
      rcases entry with ⟨known, value⟩
      by_cases found : known = name
      · simp [find?, found]
      · simp [find?, found, ih]

theorem insertEntry_of_find? {name : String} {value : α} {entries : List (String × α)}
    (found : find? name entries = some value) : insertEntry name value entries = entries := by
  induction entries with
  | nil => cases found
  | cons entry entries ih =>
      rcases entry with ⟨known, old⟩
      by_cases isHere : known = name
      · simp only [find?, if_pos isHere, Option.some.injEq] at found
        simp [insertEntry, isHere, found]
      · simp only [find?, if_neg isHere] at found
        simp [insertEntry, isHere, ih found]

/-- Binding a name to the value that it has changes nothing. -/
theorem insert_of_get? {table : Table α} {name : String} {value : α}
    (found : table.get? name = some value) : table.insert name value = table := by
  rw [insert, insertEntry_of_find? found]

theorem contains_of_get? {table : Table α} {name : String} {value : α}
    (found : table.get? name = some value) : table.contains name = true := by
  rw [contains, found, Option.isSome_some]

theorem get?_of_not_contains {table : Table α} {name : String}
    (unknown : ¬table.contains name = true) : table.get? name = none := by
  simpa [contains] using unknown

end Table

namespace Scope

variable {α : Type}

/-- What a name means in some frames, from the top downwards. -/
def find? (name : String) (frames : List (Table α)) : Option α :=
  frames.findSome? (·.get? name)

theorem find?_cons (name : String) (frame : Table α) (frames : List (Table α)) :
    find? name (frame :: frames) = (frame.get? name).or (find? name frames) := by
  simp only [find?, List.findSome?_cons]
  cases frame.get? name <;> rfl

theorem get?_eq_find? (scope : Scope α) (name : String) :
    scope.get? name = find? name scope.frames := rfl

theorem find?_singleton (name : String) (frame : Table α) :
    find? name [frame] = frame.get? name := by
  rw [find?_cons]
  exact Option.or_none

/-- Rebinding a name changes what this name means, and nothing else. -/
theorem find?_assignIn {name : String} {value : α} {frames later : List (Table α)}
    (assigned : assignIn name value frames = some later) (wanted : String) :
    find? wanted later = if name = wanted then some value else find? wanted frames := by
  induction frames generalizing later with
  | nil => cases assigned
  | cons frame frames ih =>
      simp only [assignIn] at assigned
      split at assigned
      · cases assigned
        rw [find?_cons, find?_cons, Table.get?_insert]
        split <;> rfl
      · rename_i unknown
        rcases Option.map_eq_some_iff.mp assigned with ⟨below, assignedBelow, rfl⟩
        rw [find?_cons, find?_cons, ih assignedBelow]
        split
        · rename_i same
          rw [← same, Table.get?_of_not_contains unknown]
          rfl
        · rfl

/-- A name can be rebound exactly if it means something. -/
theorem isSome_assignIn (name : String) (value : α) (frames : List (Table α)) :
    (assignIn name value frames).isSome = (find? name frames).isSome := by
  induction frames with
  | nil => rfl
  | cons frame frames ih =>
      rw [find?_cons, assignIn]
      split
      · rename_i known
        rw [Table.contains] at known
        rw [Option.isSome_or, known]
        rfl
      · rename_i unknown
        rw [Option.isSome_map, ih, Table.get?_of_not_contains unknown]
        rfl

/-- Rebinding a name to what it means changes nothing. -/
theorem assignIn_of_find? {name : String} {value : α} {frames : List (Table α)}
    (found : find? name frames = some value) : assignIn name value frames = some frames := by
  induction frames with
  | nil => cases found
  | cons frame frames ih =>
      rw [find?_cons] at found
      rw [assignIn]
      cases here : frame.get? name with
      | some old =>
          rw [here] at found
          cases found
          rw [if_pos (Table.contains_of_get? here), Table.insert_of_get? here]
      | none =>
          rw [here] at found
          have unknown : ¬frame.contains name = true := by simp [Table.contains, here]
          rw [if_neg unknown, ih found]
          rfl

theorem frames_assign? (scope : Scope α) (name : String) (value : α) :
    (scope.assign? name value).map frames = assignIn name value scope.frames := by
  simp only [assign?, frames, assignIn]
  split
  · rfl
  · cases assignIn name value scope.outer <;> rfl

theorem frames_injective {scope other : Scope α} (same : scope.frames = other.frames) :
    scope = other := by
  cases scope
  cases other
  cases same
  rfl

/-- Rebinding a name to what it means leaves the scope as it was. -/
theorem assign?_of_get? {scope : Scope α} {name : String} {value : α}
    (found : scope.get? name = some value) : scope.assign? name value = some scope := by
  have assigned := frames_assign? scope name value
  rw [assignIn_of_find? found, Option.map_eq_some_iff] at assigned
  rcases assigned with ⟨later, assigned, same⟩
  rw [assigned, frames_injective same]

theorem get?_assign? {scope later : Scope α} {name : String} {value : α}
    (assigned : scope.assign? name value = some later) (wanted : String) :
    later.get? wanted = if name = wanted then some value else scope.get? wanted := by
  have frames := frames_assign? scope name value
  rw [assigned] at frames
  exact find?_assignIn frames.symm wanted

/-- A name can be rebound exactly if it is bound. -/
theorem isSome_assign? (scope : Scope α) (name : String) (value : α) :
    (scope.assign? name value).isSome = (scope.get? name).isSome := by
  rw [get?_eq_find?, ← isSome_assignIn name value, ← frames_assign?, Option.isSome_map]

theorem get?_of_not_assign? {scope : Scope α} {name : String} {value : α}
    (unbound : scope.assign? name value = none) : scope.get? name = none := by
  rw [← Option.not_isSome_iff_eq_none, ← isSome_assign? scope name value, unbound]
  exact Bool.false_ne_true

theorem frames_pop {scope : Scope α} (isOpen : scope.outer ≠ []) :
    scope.pop.frames = scope.outer := by
  cases below : scope.outer with
  | nil => exact (isOpen below).elim
  | cons frame frames => rw [pop, below, Scope.frames]

end Scope

namespace Table

variable {α β : Type} {relation : α → β → Prop}

/-- Tables with related values under the same names in the same order. -/
def Matches (relation : α → β → Prop) (first : Table α) (second : Table β) : Prop :=
  List.Forall₂ (fun entry entry' => entry.1 = entry'.1 ∧ relation entry.2 entry'.2)
    first.entries second.entries

theorem Matches.mono {relation' : α → β → Prop} {first : Table α} {second : Table β}
    (matching : first.Matches relation second)
    (implies : ∀ {value value'}, relation value value' → relation' value value') :
    first.Matches relation' second :=
  List.Forall₂.imp (fun _ _ both => ⟨both.1, implies both.2⟩) matching

theorem Matches.get? {first : Table α} {second : Table β} (matching : first.Matches relation second)
    (name : String) : Option.Rel relation (first.get? name) (second.get? name) := by
  rcases first with ⟨entries⟩
  rcases second with ⟨entries'⟩
  simp only [Matches, Table.get?] at *
  induction matching with
  | nil => exact .none
  | @cons entry entry' entries entries' same _ ih =>
      rcases entry with ⟨known, value⟩
      rcases entry' with ⟨known', value'⟩
      obtain ⟨rfl, related⟩ := same
      simp only [find?]
      split
      · exact .some related
      · exact ih

theorem Matches.insert {first : Table α} {second : Table β}
    (matching : first.Matches relation second) (name : String) {value : α} {value' : β}
    (related : relation value value') :
    (first.insert name value).Matches relation (second.insert name value') := by
  rcases first with ⟨entries⟩
  rcases second with ⟨entries'⟩
  simp only [Matches, Table.insert] at *
  induction matching with
  | nil => exact .cons ⟨rfl, related⟩ .nil
  | @cons entry entry' entries entries' same later ih =>
      rcases entry with ⟨known, old⟩
      rcases entry' with ⟨known', old'⟩
      obtain ⟨rfl, relatedOld⟩ := same
      simp only [insertEntry]
      split
      · exact .cons ⟨rfl, related⟩ later
      · exact .cons ⟨rfl, relatedOld⟩ ih

theorem Matches.contains_eq {first : Table α} {second : Table β}
    (matching : first.Matches relation second) (name : String) :
    second.contains name = first.contains name := by
  have found := matching.get? name
  rw [contains, contains]
  generalize first.get? name = value, second.get? name = value' at found
  cases found <;> rfl

end Table

namespace Scope

variable {α β : Type} {relation : α → β → Prop} {first : Scope α} {second : Scope β}

/-- Scopes whose frames have related values under the same names. -/
def Matches (relation : α → β → Prop) (first : Scope α) (second : Scope β) : Prop :=
  List.Forall₂ (Table.Matches relation) first.frames second.frames

theorem matches_empty : (empty : Scope α).Matches relation (empty : Scope β) :=
  .cons .nil .nil

theorem Matches.mono {relation' : α → β → Prop} (matching : first.Matches relation second)
    (implies : ∀ {value value'}, relation value value' → relation' value value') :
    first.Matches relation' second :=
  List.Forall₂.imp (fun _ _ frames => frames.mono implies) matching

/-- A name is bound in both or in neither, and to related values. -/
theorem matches_find? (name : String) {frames : List (Table α)} {frames' : List (Table β)}
    (matching : List.Forall₂ (Table.Matches relation) frames frames') :
    Option.Rel relation (find? name frames) (find? name frames') := by
  induction matching with
  | nil => exact .none
  | @cons frame frame' frames frames' top _ ih =>
      have found := top.get? name
      rw [find?_cons, find?_cons]
      generalize frame.get? name = value, frame'.get? name = value' at found
      cases found with
      | none => exact ih
      | some related => exact .some related

theorem Matches.get? (matching : first.Matches relation second) (name : String) :
    Option.Rel relation (first.get? name) (second.get? name) :=
  matches_find? name matching

theorem Matches.define (matching : first.Matches relation second) (name : String) {value : α}
    {value' : β} (related : relation value value') :
    (first.define name value).Matches relation (second.define name value') := by
  rcases first with ⟨current, outer⟩
  rcases second with ⟨current', outer'⟩
  cases matching with
  | cons frames below => exact .cons (frames.insert name related) below

theorem matches_assignIn (name : String) {value : α} {value' : β} (related : relation value value')
    {frames : List (Table α)} {frames' : List (Table β)}
    (matching : List.Forall₂ (Table.Matches relation) frames frames') :
    Option.Rel (List.Forall₂ (Table.Matches relation)) (assignIn name value frames)
      (assignIn name value' frames') := by
  induction matching with
  | nil => exact .none
  | @cons frame frame' frames frames' top below ih =>
      rw [assignIn, assignIn, top.contains_eq]
      split
      · exact .some (.cons (top.insert name related) below)
      · generalize assignIn name value frames = assigned at ih
        generalize assignIn name value' frames' = assigned' at ih
        cases ih with
        | none => exact .none
        | some below => exact .some (.cons top below)

/-- A name can be rebound in both or in neither, and the frames still match. -/
theorem Matches.assign? (matching : first.Matches relation second) (name : String) {value : α}
    {value' : β} (related : relation value value') :
    Option.Rel (Matches relation) (first.assign? name value) (second.assign? name value') := by
  have assigned := matches_assignIn name related matching
  rw [← frames_assign?, ← frames_assign?] at assigned
  generalize first.assign? name value = later at assigned
  generalize second.assign? name value' = later' at assigned
  cases later <;> cases later' <;> cases assigned
  · exact .none
  · rename_i below
    exact .some below

theorem Matches.push (matching : first.Matches relation second) :
    first.push.Matches relation second.push :=
  .cons .nil matching

theorem Matches.pop (matching : first.Matches relation second) :
    first.pop.Matches relation second.pop := by
  rcases first with ⟨current, _ | ⟨frame, outer⟩⟩ <;>
    rcases second with ⟨current', _ | ⟨frame', outer'⟩⟩
  · exact matching
  · cases matching with
    | cons _ below => cases below
  · cases matching with
    | cons _ below => cases below
  · cases matching with
    | cons _ below => exact below

end Scope

end Mel

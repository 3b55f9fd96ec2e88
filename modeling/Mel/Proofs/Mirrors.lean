import Mel.Proofs.Placement

/-!
# Mirrored steps

Two runs of one program, on a heap that holds nothing else and on one that it shares with others.
Steps mirror each other if they end alike from machines whose arrays correspond: with results that
correspond, or with the same error, and on machines whose arrays correspond again.

Arrays that are made get places on the shared heap, and those that were there have the places they
had. So what corresponds once does so for good, and a list of places is carried along that only
grows.
-/

namespace Mel

/-- Machines in the same state, the second one on a heap with other arrays as well, where those of
the first one lie at these places. The arrays of the heap `outside` are there as they were. -/
structure Machine.Houses (outside : Heap) (places : List ArrayRef) (guest host : Machine) :
    Prop where
  scope : guest.scope.Matches (Value.LiesAt places) host.scope
  heap : outside.Houses places guest.heap host.heap
  functions : host.functions = guest.functions
  buffer : host.buffer = guest.buffer
  streams : host.streams = guest.streams
  depth : host.depth = guest.depth

/-- Completions with the same values, where arrays are known by their places. -/
inductive Completion.LiesAt (places : List ArrayRef) : Completion → Completion → Prop where
  | normal : LiesAt places .normal .normal
  | returned {value value' : Value} (lies : Value.LiesAt places value value') :
      LiesAt places (.returned value) (.returned value')

namespace Exec

variable {α β : Type}

/-- Ends of steps that correspond. -/
inductive Housed (outside : Heap) (places : List ArrayRef) (held : List ArrayRef → α → α → Prop) :
    EStateM.Result Stop Machine α → EStateM.Result Stop Machine α → Prop where
  | ok {places' : List ArrayRef} {result result' : α} {guest host : Machine}
      (grown : places <+: places') (houses : guest.Houses outside places' host)
      (holds : held places' result result') :
      Housed outside places held (.ok result guest) (.ok result' host)
  | error {places' : List ArrayRef} {stop : Stop} {guest host : Machine}
      (grown : places <+: places') (houses : guest.Houses outside places' host) :
      Housed outside places held (.error stop guest) (.error stop host)

/-- Steps that end alike from machines with their arrays at these places. What is held of the two
results is about the places that there are then. -/
def Mirrors (outside : Heap) (places : List ArrayRef) (held : List ArrayRef → α → α → Prop)
    (first second : Exec α) : Prop :=
  ∀ ⦃guest host : Machine⦄, guest.Houses outside places host →
    Housed outside places held (first guest) (second host)

/-- The results are the same. -/
abbrev Same : List ArrayRef → α → α → Prop := fun _ => Eq

/-- Lists of the same length with values that correspond one by one. -/
abbrev AllLieAt (places : List ArrayRef) (values values' : List Value) : Prop :=
  List.Forall₂ (Value.LiesAt places) values values'

theorem AllLieAt.mono {places places' : List ArrayRef} (grown : places <+: places')
    {values values' : List Value} (lie : AllLieAt places values values') :
    AllLieAt places' values values' :=
  lie.imp fun _ _ lies => lies.mono grown

variable {outside : Heap} {places : List ArrayRef} {held : List ArrayRef → α → α → Prop}
  {held' : List ArrayRef → β → β → Prop}

theorem Housed.weaken {places' : List ArrayRef} (grown : places <+: places')
    {ended ended' : EStateM.Result Stop Machine α}
    (housed : Housed outside places' held ended ended') :
    Housed outside places held ended ended' := by
  cases housed with
  | ok more houses holds => exact .ok (grown.trans more) houses holds
  | error more houses => exact .error (grown.trans more) houses

theorem mirrors_pure {result result' : α} (holds : held places result result') :
    Mirrors outside places held (pure result) (pure result') :=
  fun _ _ houses => .ok List.prefix_rfl houses holds

/-- An error or a halt says nothing about arrays, so it is the same in both runs. -/
theorem mirrors_stop (stop : Stop) : Mirrors outside places held (throw stop) (throw stop) :=
  fun _ _ houses => .error List.prefix_rfl houses

/-- A value that refers to no array corresponds to itself. -/
theorem mirrors_plain {value : Value} (noReference : value.Within 0) :
    Mirrors outside places Value.LiesAt (pure value) (pure value) :=
  mirrors_pure (Value.liesAt_self noReference)

theorem mirrors_ofExcept {result : Except RuntimeError Value}
    (noReference : ∀ {value}, result = .ok value → value.Within 0) :
    Mirrors outside places Value.LiesAt (ofExcept result) (ofExcept result) := by
  cases result with
  | ok value => exact mirrors_plain (noReference rfl)
  | error error => exact mirrors_stop _

theorem mirrors_lookup (name : String) :
    Mirrors outside places Value.LiesAt (lookup name) (lookup name) := by
  intro guest host houses
  have found := houses.scope.get? name
  rw [lookup_apply, lookup_apply]
  generalize guest.scope.get? name = value, host.scope.get? name = value' at found
  cases found with
  | none => exact .error List.prefix_rfl houses
  | some lies => exact .ok List.prefix_rfl houses lies

theorem mirrors_define (name : String) {value value' : Value}
    (lies : Value.LiesAt places value value') :
    Mirrors outside places Same (define name value) (define name value') :=
  fun _ _ houses => .ok List.prefix_rfl { houses with scope := houses.scope.define name lies } rfl

theorem mirrors_assign (name : String) {value value' : Value}
    (lies : Value.LiesAt places value value') :
    Mirrors outside places Same (assign name value) (assign name value') := by
  intro guest host houses
  have assigned := houses.scope.assign? name lies
  rw [assign_apply, assign_apply]
  generalize guest.scope.assign? name value = scope, host.scope.assign? name value' = scope'
    at assigned
  cases assigned with
  | none => exact .error List.prefix_rfl houses
  | some scope => exact .ok List.prefix_rfl { houses with scope } rfl

theorem mirrors_functionOf (name : String) :
    Mirrors outside places Same (functionOf name) (functionOf name) :=
  fun _ _ houses => .ok List.prefix_rfl houses (congrArg (Table.get? · name) houses.functions.symm)

theorem mirrors_defineFunction (name : String) (function : Function) :
    Mirrors outside places Same (defineFunction name function) (defineFunction name function) :=
  fun _ _ houses => .ok List.prefix_rfl
    { houses with functions := congrArg (Table.insert · name function) houses.functions } rfl

/-- The new array of the first run gets the place that is taken on the shared heap. -/
theorem mirrors_newArray {items items' : List Value} (lie : AllLieAt places items items') :
    Mirrors outside places Value.LiesAt (newArray items) (newArray items') := by
  intro guest host houses
  have grown : places <+: places ++ [host.heap.size] := List.prefix_append _ _
  have isPlace : (places ++ [host.heap.size])[guest.heap.size]? = some host.heap.size := by
    rw [← houses.heap.length]
    exact List.getElem?_concat_length
  have scope := houses.scope.mono fun lies => lies.mono grown
  exact .ok grown { houses with scope, heap := houses.heap.alloc lie } (.array isPlace)

theorem mirrors_itemsOf {ref place : ArrayRef} (isPlace : places[ref]? = some place) :
    Mirrors outside places AllLieAt (itemsOf ref) (itemsOf place) :=
  fun _ _ houses => .ok List.prefix_rfl houses (houses.heap.items isPlace)

/-- Items are added at the place of the array, and the arrays outside stay as they were. -/
theorem mirrors_extendArray {ref place : ArrayRef} (isPlace : places[ref]? = some place)
    {items items' : List Value} (lie : AllLieAt places items items') :
    Mirrors outside places Same (extendArray ref items) (extendArray place items') :=
  fun _ _ houses => .ok List.prefix_rfl { houses with heap := houses.heap.extend isPlace lie } rfl

theorem mirrors_isTruthy {value value' : Value} (lies : Value.LiesAt places value value') :
    Mirrors outside places Same (isTruthy value) (isTruthy value') :=
  fun _ _ houses => .ok List.prefix_rfl houses (houses.heap.isTruthy_eq lies).symm

/-- Texts show the items of arrays, and not where the arrays lie. -/
theorem mirrors_textOf {value value' : Value} (lies : Value.LiesAt places value value') :
    Mirrors outside places Same (textOf value) (textOf value') := by
  intro guest host houses
  rw [textOf_apply, textOf_apply, houses.heap.content?_eq lies]
  cases guest.heap.content? value with
  | none => exact .error List.prefix_rfl houses
  | some content => exact .ok List.prefix_rfl houses rfl

theorem mirrors_write (text : String) :
    Mirrors outside places Same (write text) (write text) := by
  intro guest host houses
  rw [write_apply, write_apply, houses.streams]
  have written : Machine.Houses outside places
      { guest with streams := guest.streams.write text.toUTF8.data }
      { host with streams := guest.streams.write text.toUTF8.data } :=
    { houses with streams := rfl }
  cases guest.streams.writeError? text.toUTF8.data.size with
  | none => exact .ok List.prefix_rfl written rfl
  | some reason => exact .error List.prefix_rfl written

theorem mirrors_readLine : Mirrors outside places Same readLine readLine := by
  intro guest host houses
  rw [readLine_apply, readLine_apply, houses.streams]
  have read : Machine.Houses outside places (behindRead guest) (behindRead host) :=
    { houses with streams := congrArg Streams.read houses.streams }
  cases textRead guest.streams.delivery with
  | error error => exact .error List.prefix_rfl read
  | ok text => exact .ok List.prefix_rfl read rfl

theorem mirrors_put (character : Char) :
    Mirrors outside places Same (put character) (put character) :=
  fun _ _ houses => .ok List.prefix_rfl
    { houses with buffer := congrArg (Array.push · character) houses.buffer } rfl

theorem mirrors_takeOut (direction : Direction) (count : Nat) :
    Mirrors outside places Same (takeOut direction count) (takeOut direction count) := by
  intro guest host houses
  rw [takeOut_apply, takeOut_apply, houses.buffer]
  split
  · exact .error List.prefix_rfl houses
  · exact mirrors_write _ { houses with buffer := congrArg (Array.drop · count) houses.buffer }

/-- The second steps may begin with more places, at which earlier results still lie. -/
theorem Mirrors.bind {first second : Exec α} {firstNext secondNext : α → Exec β}
    (mirrors : Mirrors outside places held first second)
    (mirrorsNext : ∀ places' result result', places <+: places' → held places' result result' →
      Mirrors outside places' held' (firstNext result) (secondNext result')) :
    Mirrors outside places held' (first >>= firstNext) (second >>= secondNext) := by
  intro guest host houses
  have housed := mirrors houses
  rw [bind_apply, bind_apply]
  generalize first guest = ended, second host = ended' at housed
  cases housed with
  | ok grown houses holds => exact (mirrorsNext _ _ _ grown holds houses).weaken grown
  | error grown houses => exact .error grown houses

theorem Mirrors.between {first second : Exec α} (mirrors : Mirrors outside places held first second)
    {enter leave : Machine → Machine}
    (enters : ∀ {places guest host}, guest.Houses outside places host →
      (enter guest).Houses outside places (enter host))
    (leaves : ∀ {places guest host}, guest.Houses outside places host →
      (leave guest).Houses outside places (leave host)) :
    Mirrors outside places held (between enter leave first) (between enter leave second) := by
  intro guest host houses
  have housed := mirrors (enters houses)
  simp only [Exec.between]
  generalize first (enter guest) = ended, second (enter host) = ended' at housed
  cases housed with
  | ok grown houses holds => exact .ok grown (leaves houses) holds
  | error grown houses => exact .error grown (leaves houses)

theorem Mirrors.inFrame {first second : Exec α}
    (mirrors : Mirrors outside places held first second) :
    Mirrors outside places held (inFrame first) (inFrame second) :=
  mirrors.between (fun houses => { houses with scope := houses.scope.push })
    fun houses => { houses with scope := houses.scope.pop }

theorem Mirrors.inCall {first second : Exec α}
    (mirrors : Mirrors outside places held first second) :
    Mirrors outside places held (inCall first) (inCall second) :=
  mirrors.between
    (fun houses => { houses with
      scope := houses.scope.push, depth := congrArg (· + 1) houses.depth })
    fun houses => { houses with scope := houses.scope.pop, depth := congrArg (· - 1) houses.depth }

theorem Mirrors.catching {first second handler handler' : Exec α}
    (mirrors : Mirrors outside places held first second)
    (mirrorsHandler : ∀ places', places <+: places' →
      Mirrors outside places' held handler handler') :
    Mirrors outside places held (catching first handler) (catching second handler') := by
  intro guest host houses
  have housed := mirrors houses
  rw [catching_apply, catching_apply]
  generalize first guest = ended, second host = ended' at housed
  cases housed with
  | ok grown houses holds => exact .ok grown houses holds
  | @error places' stop _ _ grown houses =>
      cases stop with
      | error error => exact (mirrorsHandler places' grown houses).weaken grown
      | halt reason => exact .error grown houses

theorem Mirrors.unlessLimited {first second : Exec α}
    (mirrors : Mirrors outside places held first second) (error : Nat → RuntimeError)
    (limit : Option Nat) :
    Mirrors outside places held (unlessLimited error limit first)
      (unlessLimited error limit second) := by
  cases limit with
  | none => exact mirrors
  | some limit => exact fun _ _ houses => .error List.prefix_rfl { houses with }

theorem Mirrors.unlessDeep {first second : Exec α}
    (mirrors : Mirrors outside places held first second) (options : Options)
    (error : Nat → RuntimeError) :
    Mirrors outside places held (unlessDeep options error first)
      (unlessDeep options error second) := by
  intro guest host houses
  rw [unlessDeep_apply, unlessDeep_apply, houses.depth]
  exact mirrors.unlessLimited error _ houses

theorem Mirrors.unlessReturned {first second : Exec Completion}
    (mirrors : Mirrors outside places Completion.LiesAt first second)
    {completion completion' : Completion} (lies : completion.LiesAt places completion') :
    Mirrors outside places Completion.LiesAt (unlessReturned first completion)
      (unlessReturned second completion') := by
  cases lies with
  | normal => exact mirrors
  | returned lies => exact mirrors_pure (.returned lies)

theorem mirrors_textOf_bind {value value' : Value} (lies : Value.LiesAt places value value')
    {next : String → Exec α}
    (mirrorsNext : ∀ places' text, Mirrors outside places' Same (next text) (next text)) :
    Mirrors outside places Same (textOf value >>= next) (textOf value' >>= next) := by
  apply (mirrors_textOf lies).bind
  rintro places' text _ _ rfl
  exact mirrorsNext places' text

theorem LooksAt.mirrors {value : Value} {step : Exec α} (looks : LooksAt value step)
    (noReference : value.Within 0) : Mirrors outside places Same step step := by
  induction looks generalizing places with
  | pure result => exact mirrors_pure rfl
  | fail _ _ => exact mirrors_stop _
  | textOf _ ih => exact mirrors_textOf_bind (Value.liesAt_self noReference) fun _ text => ih text

/-- An array is written by the first character of its text, which does not show where it lies. -/
theorem mirrors_characterOf? {value value' : Value} (lies : Value.LiesAt places value value') :
    Mirrors outside places Same (characterOf? value) (characterOf? value') := by
  cases lies with
  | array isPlace => exact mirrors_textOf_bind (.array isPlace) fun _ _ => mirrors_pure rfl
  | _ => exact (looksAt_characterOf? _).mirrors trivial

theorem mirrors_countOf {value value' : Value} (lies : Value.LiesAt places value value') :
    Mirrors outside places Same (countOf value) (countOf value') := by
  cases lies with
  | array isPlace => exact mirrors_textOf_bind (.array isPlace) fun _ _ => mirrors_stop _
  | _ => exact (looksAt_countOf _).mirrors trivial

theorem mirrors_output {value value' : Value} (lies : Value.LiesAt places value value') :
    Mirrors outside places Same (output value) (output value') := by
  apply (mirrors_characterOf? lies).bind
  rintro places' (_ | character) _ _ rfl
  · exact mirrors_pure rfl
  · apply (mirrors_put character).bind
    intro _ _ _ _ _
    exact mirrors_write _

theorem mirrors_outputMany (direction : Direction) {value value' : Value}
    (lies : Value.LiesAt places value value') :
    Mirrors outside places Same (outputMany direction value) (outputMany direction value') := by
  rw [outputMany_eq, outputMany_eq]
  apply (mirrors_countOf lies).bind
  rintro places' count _ _ rfl
  exact mirrors_takeOut direction count

theorem mirrors_appendTarget (variableName : Option String) {value value' : Value}
    (lies : Value.LiesAt places value value') :
    Mirrors outside places (fun places target target' =>
        places[target.1]? = some target'.1 ∧ target.2 = target'.2)
      (appendTarget variableName value) (appendTarget variableName value') := by
  cases lies with
  | array isPlace => exact mirrors_pure ⟨isPlace, rfl⟩
  | string name =>
      apply (mirrors_lookup name).bind
      intro places' found found' _ lies
      cases lies with
      | array isPlace => exact mirrors_pure ⟨isPlace, rfl⟩
      | _ => exact mirrors_stop _
  | _ => exact mirrors_stop _

/-- A target that was given by its name is bound once more, to the array that both runs have
found. -/
theorem mirrors_append (variableName : Option String) {values values' : List Value}
    (lie : AllLieAt places values values') :
    Mirrors outside places Value.LiesAt (append variableName values)
      (append variableName values') := by
  cases lie with
  | nil => exact mirrors_stop _
  | cons lies lie =>
      cases lie with
      | nil => exact mirrors_stop _
      | cons liesItem lie =>
          apply (mirrors_appendTarget variableName lies).bind
          rintro places' ⟨ref, name⟩ ⟨place, name'⟩ grown ⟨isPlace, sameName⟩
          dsimp only at isPlace sameName
          subst sameName
          have lieItems := AllLieAt.mono grown (.cons liesItem lie)
          apply (mirrors_extendArray isPlace lieItems).bind
          intro places'' _ _ more _
          cases name with
          | none => exact mirrors_plain trivial
          | some name =>
              have isArray : Value.LiesAt places'' (.array ref) (.array place) :=
                .array (Value.getElem?_of_isPrefix more isPlace)
              exact (mirrors_assign name isArray).bind fun _ _ _ _ _ => mirrors_plain trivial

theorem mirrors_length {values values' : List Value} (lie : AllLieAt places values values') :
    Mirrors outside places Value.LiesAt (length values) (length values') := by
  rcases lie with _ | ⟨lies, _ | ⟨_, _⟩⟩
  · exact mirrors_stop _
  · cases lies with
    | array isPlace =>
        apply (mirrors_itemsOf isPlace).bind
        intro _ items items' _ lie
        simp only [lie.length_eq]
        exact mirrors_plain trivial
    | string text => exact mirrors_plain trivial
    | _ => exact mirrors_stop _
  · cases lies <;> exact mirrors_stop _

theorem AllLieAt.itemAt? {items items' : List Value} (lie : AllLieAt places items items')
    (position : Nat) : Option.Rel (Value.LiesAt places) (itemAt? items position)
      (itemAt? items' position) := by
  rw [Exec.itemAt?, Exec.itemAt?]
  generalize position - 1 = index
  induction lie generalizing index with
  | nil => exact .none
  | cons lies _ ih =>
      cases index with
      | zero => exact .some lies
      | succ index => exact ih index

theorem mirrors_getItem {values values' : List Value} (lie : AllLieAt places values values') :
    Mirrors outside places Value.LiesAt (getItem values) (getItem values') := by
  rcases lie with _ | ⟨lies, _ | ⟨liesIndex, _ | ⟨_, _⟩⟩⟩
  · exact mirrors_stop _
  · exact mirrors_stop _
  · cases liesIndex with
    | integer index =>
        simp only [getItem]
        split
        · exact mirrors_stop _
        · cases lies with
          | string text =>
              dsimp only
              split
              · exact mirrors_plain trivial
              · exact mirrors_stop _
          | array isPlace =>
              apply (mirrors_itemsOf isPlace).bind
              intro _ items items' _ lie
              have found := lie.itemAt? index.toInt.toNat
              generalize itemAt? items _ = item, itemAt? items' _ = item' at found ⊢
              cases found with
              | none => exact mirrors_stop _
              | some lies => exact mirrors_pure lies
          | _ => exact mirrors_stop _
    | _ => exact mirrors_stop _
  · cases liesIndex <;> exact mirrors_stop _

theorem mirrors_list {values values' : List Value} (lie : AllLieAt places values values') :
    Mirrors outside places Value.LiesAt (list values) (list values') := by
  have written {value value' : Value} (lies : Value.LiesAt places value value') :
      Mirrors outside places Value.LiesAt
        (textOf value >>= fun text => write text >>= fun _ => pure .nil)
        (textOf value' >>= fun text => write text >>= fun _ => pure .nil) := by
    apply (mirrors_textOf lies).bind
    rintro _ text _ _ rfl
    exact (mirrors_write text).bind fun _ _ _ _ _ => mirrors_plain trivial
  rcases lie with _ | ⟨lies, _ | ⟨_, _⟩⟩
  · exact mirrors_stop _
  · cases lies with
    | array isPlace => exact written (.array isPlace)
    | string text => exact written (.string text)
    | _ => exact mirrors_stop _
  · exact mirrors_stop _

theorem mirrors_reverse {values values' : List Value} (lie : AllLieAt places values values') :
    Mirrors outside places Value.LiesAt (reverse values) (reverse values') := by
  rcases lie with _ | ⟨lies, _ | ⟨_, _⟩⟩
  · exact mirrors_stop _
  · cases lies with
    | array isPlace =>
        apply (mirrors_itemsOf isPlace).bind
        intro _ items items' _ lie
        exact mirrors_newArray (List.rel_reverse lie)
    | string text => exact mirrors_plain trivial
    | _ => exact mirrors_stop _
  · cases lies <;> exact mirrors_stop _

/-- Builtin functions do not tell a heap of their own from a shared one. -/
theorem mirrors_builtin (builtin : Builtin) (variableName : Option String)
    {values values' : List Value} (lie : AllLieAt places values values') :
    Mirrors outside places Value.LiesAt (builtin.call variableName values)
      (builtin.call variableName values') := by
  cases builtin with
  | append => exact mirrors_append variableName lie
  | length => exact mirrors_length lie
  | getItem => exact mirrors_getItem lie
  | list => exact mirrors_list lie
  | reverse => exact mirrors_reverse lie

end Exec

end Mel

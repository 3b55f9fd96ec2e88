import Mel.Diagnostic
import Mel.Program.Parser

/-!
# How far parsers look

Parsers look at most two tokens ahead of the one that they take next, and take no end mark
of a program other than the one that closes it. So they see nothing of what stands behind
such a mark. This is proved of two parsers that go side by side through the same tokens, in
front of two tails that begin with the same end mark. They may have different amounts of
fuel, since both have enough: each unit is paid for by a token that has been taken.
-/

namespace Mel

namespace Parser

/-- Two lists of tokens that are both empty, or begin with the same end of a program. -/
inductive EndsAlike : List Token → List Token → Prop where
  | nowhere : EndsAlike [] []
  | atMark {mark : Token} (isEnd : mark.kind = .programEnd) (rest rest' : List Token) :
      EndsAlike (mark :: rest) (mark :: rest')

/-- Two parsers in front of `later` and `later'` have left the same last tokens of `front`, and have
taken at least so many. -/
inductive SameOutcome (later later' front : List Token) (least : Nat) {α : Type} :
    Except Refusal (α × List Token) → Except Refusal (α × List Token) → Prop where
  | ok (result : α) {left : List Token} (suffix : left <:+ front)
      (taken : left.length + least ≤ front.length) :
      SameOutcome later later' front least (.ok (result, left ++ later))
        (.ok (result, left ++ later'))
  | refused (expectation : Expectation) {left : List Token} (suffix : left <:+ front) :
      SameOutcome later later' front least (.error (.expected expectation (left ++ later)))
        (.error (.expected expectation (left ++ later')))

/-- Two parsers do the same on fewer than `size` tokens with either tail behind them. -/
def Agree (later later' : List Token) (size least : Nat) {α : Type} (first second : Parser α) :
    Prop :=
  ∀ front, front.length < size →
    SameOutcome later later' front least (first (front ++ later)) (second (front ++ later'))

variable {later later' front : List Token} {size least : Nat} {α β : Type}

section

variable {outcome outcome' : Except Refusal (α × List Token)}

theorem SameOutcome.lax (same : SameOutcome later later' front least outcome outcome') :
    SameOutcome later later' front 0 outcome outcome' := by
  cases same with
  | ok result suffix taken => exact .ok result suffix suffix.length_le
  | refused expectation suffix => exact .refused expectation suffix

/-- With nothing behind the front, both do the same. -/
theorem SameOutcome.eq (same : SameOutcome [] [] front least outcome outcome') :
    outcome = outcome' := by
  cases same <;> rfl

/-- What is done behind some tokens of the front, which have been taken. -/
theorem SameOutcome.behind {left : List Token} (suffix : left <:+ front)
    (taken : left.length + least ≤ front.length)
    (same : SameOutcome later later' left 0 outcome outcome') :
    SameOutcome later later' front least outcome outcome' := by
  cases same with
  | ok result suffixNext _ =>
      refine .ok result (suffixNext.trans suffix) ?_
      have fewer := suffixNext.length_le
      omega
  | refused expectation suffixNext => exact .refused expectation (suffixNext.trans suffix)

theorem SameOutcome.cons (token : Token)
    (same : SameOutcome later later' front 0 outcome outcome') :
    SameOutcome later later' (token :: front) 1 outcome outcome' :=
  same.behind (List.suffix_cons token front) (Nat.le_refl _)

end

section

variable {first second : Parser α}

theorem agree_zero : Agree later later' 0 least first second :=
  fun _ short => (Nat.not_lt_zero _ short).elim

theorem agree_return (result : α) :
    Agree later later' size 0 (return result : Parser α) (return result) :=
  fun front _ => .ok result (List.suffix_refl front) (Nat.le_refl _)

theorem Agree.lax (agree : Agree later later' size least first second) :
    Agree later later' size 0 first second :=
  fun front short => (agree front short).lax

theorem Agree.narrow {smaller : Nat} (agree : Agree later later' size least first second)
    (le : smaller ≤ size) : Agree later later' smaller least first second :=
  fun front short => agree front (Nat.lt_of_lt_of_le short le)

/-- What comes behind a parser that takes some tokens needs to agree on fewer tokens. -/
theorem Agree.andThen {next next' : α → Parser β}
    (agree : Agree later later' (size + least) least first second)
    (agreeNext : ∀ result, Agree later later' size 0 (next result) (next' result)) :
    Agree later later' (size + least) least (first >>= next) (second >>= next') := by
  intro front short
  have same := agree front short
  rw [bind_apply, bind_apply]
  generalize first (front ++ later) = outcome, second (front ++ later') = outcome' at same
  cases same with
  | @ok result left suffix taken =>
      have sameNext := agreeNext result left (by omega)
      exact sameNext.behind suffix taken
  | refused expectation suffix => exact .refused expectation suffix

theorem Agree.bind {next next' : α → Parser β} (agree : Agree later later' size 0 first second)
    (agreeNext : ∀ result, Agree later later' size 0 (next result) (next' result)) :
    Agree later later' size 0 (first >>= next) (second >>= next') :=
  (Agree.andThen agree agreeNext : Agree later later' (size + 0) 0 _ _)

theorem Agree.map {map : α → β} (agree : Agree later later' size least first second) :
    Agree later later' size least (map <$> first) (map <$> second) := by
  intro front short
  have same := agree front short
  rw [map_eq_pure_bind, map_eq_pure_bind, bind_apply, bind_apply]
  generalize first (front ++ later) = outcome, second (front ++ later') = outcome' at same
  cases same with
  | ok result suffix taken => exact .ok (map result) suffix taken
  | refused expectation suffix => exact .refused expectation suffix

/-- Parsers that look at their first token. -/
theorem agree_of_cases
    (atEnd : SameOutcome later later' [] least (first later) (second later'))
    (behind : ∀ token rest, rest.length < size →
      SameOutcome later later' (token :: rest) least (first (token :: (rest ++ later)))
        (second (token :: (rest ++ later')))) :
    Agree later later' (size + 1) least first second := by
  intro front short
  cases front with
  | nil => exact atEnd
  | cons token rest => exact behind token rest (Nat.lt_of_succ_lt_succ short)

end

section

variable (ends : EndsAlike later later')
include ends

theorem startsWith_append (kind : Kind) (front : List Token) :
    startsWith kind (front ++ later) = startsWith kind (front ++ later') := by
  cases front with
  | nil => cases ends <;> rfl
  | cons token rest => rfl

theorem exists_of_startsWith {kind : Kind} (noEnd : kind ≠ .programEnd) {front : List Token}
    (starts : startsWith kind (front ++ later)) :
    ∃ token rest, front = token :: rest ∧ token.kind = kind := by
  cases front with
  | nil =>
      cases ends with
      | nowhere => cases starts
      | @atMark mark isEnd rest rest' =>
          have isKind : mark.kind = kind := by simpa [startsWith] using starts
          exact (noEnd (isKind.symm.trans isEnd)).elim
  | cons token rest => exact ⟨token, rest, rfl, by simpa [startsWith] using starts⟩

/-- Whether an expression ends is seen from the front, and the mark behind it ends every one. -/
theorem endsExpression_append (front : List Token) :
    endsExpression (front ++ later) = endsExpression (front ++ later') := by
  cases front with
  | nil => cases ends <;> simp_all [endsExpression]
  | cons token rest => simp only [List.cons_append, endsExpression, startsWith_append ends]

theorem startsWithOperator_append (front : List Token) :
    startsWithOperator (front ++ later) = startsWithOperator (front ++ later') := by
  cases front with
  | nil => cases ends <;> rfl
  | cons token rest => rfl

end

/-- What is split off the front, if anything is, is the same in front of either tail. -/
inductive SameSplit (later later' front : List Token) {α : Type} :
    Option (α × List Token) → Option (α × List Token) → Prop where
  | none : SameSplit later later' front none none
  | some (part : α) {left : List Token} (suffix : left <:+ front)
      (taken : left.length < front.length) :
      SameSplit later later' front (some (part, left ++ later)) (some (part, left ++ later'))

section

variable (ends : EndsAlike later later')
include ends

theorem exception?_append (front : List Token) :
    SameSplit later later' front (exception? (front ++ later)) (exception? (front ++ later')) := by
  rcases front with _ | ⟨first, _ | ⟨name, _ | ⟨last, rest⟩⟩⟩
  · cases ends with
    | nowhere => exact .none
    | atMark isEnd rest rest' =>
        rcases rest with _ | ⟨_, _ | _⟩ <;> rcases rest' with _ | ⟨_, _ | _⟩ <;>
          simp [exception?, isEnd] <;> exact .none
  · cases ends with
    | nowhere => exact .none
    | atMark isEnd rest rest' =>
        cases rest <;> cases rest' <;> simp [exception?, isEnd] <;> exact .none
  · cases ends with
    | nowhere => exact .none
    | atMark isEnd rest rest' => simp [exception?, isEnd]; exact .none
  · simp only [List.cons_append, exception?]
    have suffix : rest <:+ first :: name :: last :: rest := List.suffix_append [_, _, _] _
    have taken : rest.length < (first :: name :: last :: rest).length := by
      simp only [List.length_cons]; omega
    split
    · split
      · exact .some name.text suffix taken
      · exact .some _ suffix taken
      · exact .none
    · exact .none

theorem operator?_append (tier : Tier) (front : List Token) :
    SameSplit later later' front (operator? tier (front ++ later))
      (operator? tier (front ++ later')) := by
  cases front with
  | nil => cases ends <;> simp_all [operator?] <;> exact .none
  | cons token rest =>
      simp only [List.cons_append, operator?]
      split
      · split
        · exact .some _ (List.suffix_cons token rest) (by simp)
        · exact .none
      · exact .none

/-- The digits of a bit literal end in front of the mark, which is none of them. -/
theorem bits_append (afterBit : Bool) (front : List Token) :
    ∃ digits left, left <:+ front ∧
      bits afterBit (front ++ later) = (digits, left ++ later) ∧
      bits afterBit (front ++ later') = (digits, left ++ later') := by
  induction front generalizing afterBit with
  | nil => cases ends <;> simp_all [bits]
  | cons token rest ih =>
      simp only [List.cons_append, bits]
      split
      · obtain ⟨digits, left, suffix, eq, eq'⟩ := ih true
        have suffix := suffix.trans (List.suffix_cons token rest)
        exact ⟨true :: digits, left, suffix, by rw [eq], by rw [eq']⟩
      · obtain ⟨digits, left, suffix, eq, eq'⟩ := ih true
        have suffix := suffix.trans (List.suffix_cons token rest)
        exact ⟨false :: digits, left, suffix, by rw [eq], by rw [eq']⟩
      · obtain ⟨digits, left, suffix, eq, eq'⟩ := ih false
        exact ⟨digits, left, suffix.trans (List.suffix_cons token rest), eq, eq'⟩
      · exact ⟨[], token :: rest, List.suffix_refl _, rfl, rfl⟩

theorem parameters_append (front : List Token) :
    ∃ names left, left <:+ front ∧ parameters (front ++ later) = (names, left ++ later) ∧
      parameters (front ++ later') = (names, left ++ later') := by
  induction front with
  | nil => cases ends <;> simp_all [parameters]
  | cons token rest ih =>
      obtain ⟨names, left, suffix, eq, eq'⟩ := ih
      simp only [List.cons_append, parameters, startsWith_append ends, eq, eq']
      split
      · exact ⟨token.text :: names, left, suffix.trans (List.suffix_cons token rest), rfl, rfl⟩
      · exact ⟨[], token :: rest, List.suffix_refl _, rfl, rfl⟩

theorem agree_expect {kind : Kind} (noEnd : kind ≠ .programEnd) (expectation : Expectation) :
    Agree later later' size 1 (expect kind expectation) (expect kind expectation) := by
  intro front _
  cases front with
  | nil =>
      cases ends with
      | nowhere => exact .refused expectation (List.suffix_refl [])
      | @atMark mark isEnd rest rest' =>
          have other : mark.kind ≠ kind := fun isKind => noEnd (isKind.symm.trans isEnd)
          simp only [List.nil_append, expect, if_neg other]
          exact .refused expectation (List.suffix_refl [])
  | cons token rest =>
      simp only [List.cons_append, expect]
      split
      · exact .ok token (List.suffix_cons token rest) (Nat.le_refl _)
      · exact .refused expectation (List.suffix_refl _)

theorem agree_discard_expect (kind : Kind) (noEnd : kind ≠ .programEnd)
    (expectation : Expectation) :
    Agree later later' size 0 (discard (expect kind expectation))
      (discard (expect kind expectation)) :=
  (agree_expect ends noEnd expectation).lax.map

omit ends in
/-- Parsers with a unit of fuel for every token agree, if they still do with one more of both. -/
theorem agree_of_fuel {first second : Nat → Parser α}
    (round : ∀ {count fuel fuel'}, count + 1 ≤ size → count ≤ fuel → count ≤ fuel' →
      Agree later later' count least (first fuel) (second fuel') →
        Agree later later' (count + 1) least (first (fuel + 1)) (second (fuel' + 1)))
    {count fuel fuel' : Nat} (inside : count ≤ size) (enough : count ≤ fuel)
    (enough' : count ≤ fuel') : Agree later later' count least (first fuel) (second fuel') := by
  -- The induction is on the tokens, since the amounts of fuel may differ.
  induction count generalizing fuel fuel' with
  | zero => exact agree_zero
  | succ count ih =>
      rcases fuel with _ | fuel
      · omega
      rcases fuel' with _ | fuel'
      · omega
      have enough := Nat.le_of_succ_le_succ enough
      have enough' := Nat.le_of_succ_le_succ enough'
      exact round inside enough enough' (ih (Nat.le_of_lt inside) enough enough')

section

variable {expression expression' : Parser Expr} {fuel fuel' count : Nat}

theorem agree_arguments (agree : Agree later later' size 1 expression expression')
    (inside : count ≤ size) (enough : count ≤ fuel) (enough' : count ≤ fuel') :
    Agree later later' count 0 (arguments expression fuel) (arguments expression' fuel') := by
  refine agree_of_fuel (fun inside _ _ agreeLater => ?_) inside enough enough'
  intro front short
  simp only [arguments, endsExpression_append ends]
  split
  · exact .ok [] (List.suffix_refl front) (Nat.le_refl _)
  · exact ((agree.narrow inside).andThen
      fun first => agreeLater.bind fun later => agree_return _).lax front short

theorem agree_elements (agree : Agree later later' size 1 expression expression')
    (inside : count ≤ size) (enough : count ≤ fuel) (enough' : count ≤ fuel') :
    Agree later later' count 0 (elements expression fuel) (elements expression' fuel') := by
  refine agree_of_fuel (fun inside _ _ agreeLater => ?_) inside enough enough'
  refine agree_of_cases ?_ fun token rest short => ?_
  · cases ends with
    | nowhere => exact .ok [] (List.suffix_refl []) (Nat.le_refl _)
    | atMark isEnd rest rest' =>
        simp only [elements, isEnd, reduceCtorEq, if_false]
        exact .ok [] (List.suffix_refl []) (Nat.le_refl _)
  · simp only [elements]
    split
    · have agreeBehind := (agree.lax.narrow (Nat.le_of_lt inside)).bind
        fun first => agreeLater.bind fun later => agree_return (first :: later)
      exact (agreeBehind rest short).cons token |>.lax
    · exact .ok [] (List.suffix_refl _) (Nat.le_refl _)

theorem agree_afterOperator (agree : Agree later later' size 1 expression expression')
    (left : Expr) (operator : Operator) :
    Agree later later' size 0 (afterOperator expression left operator)
      (afterOperator expression' left operator) := by
  intro front short
  simp only [afterOperator, endsExpression_append ends, startsWithOperator_append ends]
  split
  · split
    · exact .ok _ (List.suffix_refl front) (Nat.le_refl _)
    · exact agree.lax.map front short
  · exact agree.lax.map front short

/-- Each operand of a chain takes a token, so fewer are left for the rest of it. -/
theorem agree_chain (tier : Tier) (agree : Agree later later' size 1 expression expression')
    (inside : count ≤ size) (enough : count ≤ fuel) (enough' : count ≤ fuel') (left : Expr) :
    Agree later later' count 0 (chain tier expression fuel left)
      (chain tier expression' fuel' left) := by
  induction count generalizing fuel fuel' left with
  | zero => exact agree_zero
  | succ count ih =>
      rcases fuel with _ | fuel
      · omega
      rcases fuel' with _ | fuel'
      · omega
      intro front short
      simp only [chain]
      have split := operator?_append ends tier front
      generalize operator? tier (front ++ later) = ahead,
        operator? tier (front ++ later') = ahead' at split
      cases split with
      | none => exact .ok left (List.suffix_refl front) (Nat.le_refl _)
      | @some operator rest suffix taken =>
          have agreeBehind := (agree_afterOperator ends (agree.narrow (by omega : count ≤ size))
            left operator).bind fun combined => ih (by omega) (Nat.le_of_succ_le_succ enough)
              (Nat.le_of_succ_le_succ enough') combined
          exact (agreeBehind rest (by omega)).behind suffix (Nat.le_of_lt taken)

end

section

variable {expression expression' : Parser Expr} {fuel fuel' : Nat}

theorem agree_tiered (tier : Tier) (agree : Agree later later' (size + 1) 1 expression expression')
    (enough : size ≤ fuel) (enough' : size ≤ fuel') :
    Agree later later' (size + 1) 1 (tiered tier expression fuel)
      (tiered tier expression' fuel') :=
  agree.andThen fun left => agree_chain ends tier agree (Nat.le_succ size) enough enough' left

theorem agree_unary (agree : Agree later later' (size + 1) 1 expression expression') :
    Agree later later' (size + 1) 1 (unary expression) (unary expression') := by
  refine agree_of_cases ?_ fun token rest short => ?_
  · have same := agree [] (Nat.succ_pos size)
    cases ends with
    | nowhere => exact same
    | atMark isEnd rest rest' =>
        simpa only [List.nil_append, unary, isEnd, reduceCtorEq, if_false] using same
  · simp only [unary]
    split
    · exact (agree.lax.map rest (by omega)).cons token
    · exact agree (token :: rest) (Nat.succ_lt_succ short)

variable (agree : Agree later later' size 1 expression expression')
  (enough : size ≤ fuel) (enough' : size ≤ fuel')
include agree enough enough'

theorem agree_call :
    Agree later later' size 0 (call expression fuel) (call expression' fuel') := by
  rcases size with _ | size
  · exact agree_zero
  refine agree_of_cases ?_ fun token rest short => ?_
  · cases ends with
    | nowhere => exact .refused .callee (List.suffix_refl [])
    | atMark isEnd rest rest' =>
        simp only [call, isEnd]
        exact .refused .callee (List.suffix_refl [])
  · have agreeItems := agree_arguments ends agree (Nat.le_refl _) enough enough'
    simp only [call]
    split
    · exact (agreeItems.map rest (by omega)).cons token |>.lax
    · exact (agreeItems.map rest (by omega)).cons token |>.lax
    · exact .refused .callee (List.suffix_refl (token :: rest))

theorem agree_array :
    Agree later later' size 0 (array expression fuel) (array expression' fuel') := by
  intro front short
  simp only [array, ← startsWith_append ends]
  split
  · rename_i starts
    obtain ⟨token, rest, rfl, -⟩ := exists_of_startsWith ends Kind.noConfusion starts
    exact (SameOutcome.ok (Expr.array []) (List.suffix_refl rest) (Nat.le_refl _)).cons token |>.lax
  · have agreeItems := agree_elements ends agree (Nat.le_refl _) enough enough'
    exact (agree.lax.bind fun first => agreeItems.bind fun items =>
      (agree_discard_expect ends .arrayEnd Kind.noConfusion .arrayEnd).bind fun _ =>
        agree_return _) front short

omit enough enough' in
theorem agree_grouped : Agree later later' size 0 (grouped expression) (grouped expression') :=
  agree.lax.bind fun inner =>
    (agree_discard_expect ends .rightParen Kind.noConfusion .closingParen).bind fun _ =>
      agree_return inner

theorem agree_primary :
    Agree later later' (size + 1) 1 (primary expression fuel) (primary expression' fuel') := by
  refine agree_of_cases ?_ fun token rest short => ?_
  · cases ends with
    | nowhere => exact .refused .expression (List.suffix_refl [])
    | atMark isEnd rest rest' =>
        simp only [primary, isEnd]
        exact .refused .expression (List.suffix_refl [])
  · have behind (result : Expr) : SameOutcome later later' (token :: rest) 1
        (.ok (result, rest ++ later)) (.ok (result, rest ++ later')) :=
      .ok result (List.suffix_cons token rest) (Nat.le_refl _)
    have refused (expectation : Expectation) :
        SameOutcome later later' (token :: rest) 1 (α := Expr)
          (refuse expectation (token :: (rest ++ later)))
          (refuse expectation (token :: (rest ++ later'))) :=
      .refused expectation (List.suffix_refl (token :: rest))
    simp only [primary]
    split
    · exact behind _
    · exact behind _
    · split
      · exact behind _
      · exact refused _
    · obtain ⟨digits, left, suffix, eq, eq'⟩ := bits_append ends false rest
      simp only [eq, eq']
      exact (SameOutcome.ok (Expr.bits digits) suffix suffix.length_le).cons token
    · exact behind _
    · exact (agree_array ends agree enough enough' rest short).cons token
    · have ahead := exception?_append ends (token :: rest)
      rw [List.cons_append, List.cons_append] at ahead
      generalize exception? (token :: (rest ++ later)) = split,
        exception? (token :: (rest ++ later')) = split' at ahead
      cases ahead with
      | none => exact (agree_grouped ends agree rest short).cons token
      | some message suffix taken => exact .ok (Expr.raise message) suffix taken
    · exact ((agree_call ends agree enough enough').map rest short).cons token
    · exact refused _

omit agree enough enough' in
/-- With a unit of fuel for every token, expressions are read alike in front of both tails. -/
theorem agree_expression (enough : size ≤ fuel) (enough' : size ≤ fuel') :
    Agree later later' size 1 (Parser.expression fuel) (Parser.expression fuel') := by
  refine agree_of_fuel (fun _ enough enough' inner => ?_) (Nat.le_refl size) enough enough'
  have single := agree_unary ends (agree_primary ends inner enough enough')
  have term := agree_tiered ends .term single enough enough'
  have sum := agree_tiered ends .additive term enough enough'
  exact agree_tiered ends .comparison sum enough enough'

end

section

variable {expression expression' : Parser Expr} {statement statement' : Parser Statement}
  {body body' : BlockOwner → Parser Block} {fuel fuel' count : Nat}

theorem agree_block (owner : BlockOwner) (agree : Agree later later' size 1 statement statement')
    (inside : count ≤ size) (enough : count ≤ fuel) (enough' : count ≤ fuel') :
    Agree later later' count 0 (block statement owner fuel) (block statement' owner fuel') := by
  refine agree_of_fuel (fun inside _ _ agreeLater => ?_) inside enough enough'
  refine agree_of_cases ?_ fun token rest short => ?_
  · cases ends with
    | nowhere => exact .refused _ (List.suffix_refl [])
    | atMark isEnd rest rest' =>
        simp only [block, isEnd, if_true]
        split
        · exact .ok [] (List.suffix_refl []) (Nat.le_refl _)
        · exact .refused _ (List.suffix_refl [])
  · simp only [block]
    split
    · exact .ok [] (List.suffix_refl (token :: rest)) (Nat.le_refl _)
    · split
      · exact .refused _ (List.suffix_refl (token :: rest))
      · have agreeRound := (agree.narrow inside).andThen fun first => agreeLater.bind fun later =>
          agree_return (first :: later)
        exact agreeRound.lax (token :: rest) (Nat.succ_lt_succ short)

variable (agree : Agree later later' size 1 expression expression')
  (agreeBody : ∀ owner, Agree later later' size 0 (body owner) (body' owner))
  (enough : size ≤ fuel) (enough' : size ≤ fuel')

include agree in
theorem agree_giveBack :
    Agree later later' size 0 (giveBack expression) (giveBack expression') := by
  intro front short
  simp only [giveBack, endsExpression_append ends]
  split
  · exact .ok _ (List.suffix_refl front) (Nat.le_refl _)
  · exact agree.lax.map front short

include agree in
theorem agree_finalReturn :
    Agree later later' size 0 (finalReturn expression) (finalReturn expression') := by
  rcases size with _ | size
  · exact agree_zero
  refine agree_of_cases ?_ fun token rest short => ?_
  · cases ends with
    | nowhere => exact .ok [] (List.suffix_refl []) (Nat.le_refl _)
    | atMark isEnd rest rest' =>
        simp only [finalReturn, isEnd, reduceCtorEq, if_false]
        exact .ok [] (List.suffix_refl []) (Nat.le_refl _)
  · simp only [finalReturn]
    split
    · exact ((agree_giveBack ends agree).map rest (by omega)).cons token |>.lax
    · exact .ok [] (List.suffix_refl (token :: rest)) (Nat.le_refl _)

include agree agreeBody in
theorem agree_define :
    Agree later later' size 0 (define expression body) (define expression' body') := by
  have agreeNames : Agree later later' size 0 (fun tokens => .ok (parameters tokens) : Parser _)
      (fun tokens => .ok (parameters tokens)) := by
    intro front short
    obtain ⟨names, left, suffix, eq, eq'⟩ := parameters_append ends front
    simp only [eq, eq']
    exact .ok names suffix suffix.length_le
  exact (agree_expect ends Kind.noConfusion .functionName).lax.bind fun name =>
    agreeNames.bind fun names => (agreeBody .function).bind fun statements =>
      (agree_finalReturn ends agree).bind fun final => agree_return _

include agree agreeBody in
theorem agree_fallback (inside : count ≤ size) (enough : count ≤ fuel) (enough' : count ≤ fuel') :
    Agree later later' count 0 (fallback expression body fuel)
      (fallback expression' body' fuel') := by
  refine agree_of_fuel (fun {count _ _} inside _ _ agreeLater => ?_) inside enough enough'
  have narrow : count ≤ size := Nat.le_of_lt inside
  intro front short
  simp only [fallback, ← startsWith_append ends]
  split
  · rename_i starts
    obtain ⟨token, rest, rfl, -⟩ := exists_of_startsWith ends Kind.noConfusion starts
    have agreeBehind := (agree.lax.narrow narrow).bind fun condition =>
      ((agreeBody .branch).narrow narrow).bind fun statements => agreeLater.bind fun later =>
        agree_return (Fallback.elseIf condition statements later)
    exact (agreeBehind rest (Nat.lt_of_succ_lt_succ short)).cons token |>.lax
  · split
    · rename_i starts
      obtain ⟨token, rest, rfl, -⟩ := exists_of_startsWith ends Kind.noConfusion starts
      have agreeBehind := ((agreeBody .lastBranch).narrow narrow).bind fun statements =>
        (agree_discard_expect ends .endIf Kind.noConfusion .conditionalEnd).bind fun _ =>
          agree_return (Fallback.otherwise statements)
      exact (agreeBehind rest (Nat.lt_of_succ_lt_succ short)).cons token |>.lax
    · have agreeEnd : Agree later later' (count + 1) 0 (discard (expect .endIf .conditionalEnd))
          (discard (expect .endIf .conditionalEnd)) :=
        agree_discard_expect ends .endIf Kind.noConfusion .conditionalEnd
      exact (agreeEnd.bind fun _ => agree_return Fallback.nothing) front short

include agree agreeBody enough enough' in
theorem agree_conditional :
    Agree later later' size 0 (conditional expression body fuel)
      (conditional expression' body' fuel') :=
  agree.lax.bind fun _ => (agreeBody .branch).bind fun _ =>
    (agree_fallback ends agree agreeBody (Nat.le_refl _) enough enough').bind fun _ =>
      agree_return _

include agreeBody in
theorem agree_loopBody : Agree later later' size 0 (loopBody body) (loopBody body') :=
  (agreeBody .loop).bind fun statements =>
    (agree_discard_expect ends .endLoop Kind.noConfusion .loopEnd).bind fun _ =>
      agree_return statements

include agree agreeBody in
theorem agree_whileLoop :
    Agree later later' size 0 (whileLoop expression body) (whileLoop expression' body') :=
  agree.lax.bind fun _ => (agree_loopBody ends agreeBody).bind fun _ => agree_return _

include agree agreeBody in
theorem agree_forLoop :
    Agree later later' size 0 (forLoop expression body) (forLoop expression' body') :=
  (agree_expect ends Kind.noConfusion .loopVariable).lax.bind fun _ =>
    agree.lax.bind fun _ => (agree_loopBody ends agreeBody).bind fun _ => agree_return _

include agreeBody in
theorem agree_attempt : Agree later later' size 0 (attempt body) (attempt body') :=
  (agreeBody .attempt).bind fun _ =>
    (agree_discard_expect ends .catchMark Kind.noConfusion .catchMark).bind fun _ =>
      (agreeBody .handler).bind fun _ => agree_return _

include agree agreeBody enough enough' in
theorem agree_statementWith :
    Agree later later' (size + 1) 1 (statementWith expression body fuel)
      (statementWith expression' body' fuel') := by
  refine agree_of_cases ?_ fun token rest short => ?_
  · cases ends with
    | nowhere => exact .refused .statement (List.suffix_refl [])
    | atMark isEnd rest rest' =>
        simp only [statementWith, isEnd]
        exact .refused .statement (List.suffix_refl [])
  · have refused : SameOutcome later later' (token :: rest) 1 (α := Statement)
        (refuse .statement (token :: (rest ++ later)))
        (refuse .statement (token :: (rest ++ later'))) :=
      .refused .statement (List.suffix_refl (token :: rest))
    simp only [statementWith, ← startsWith_append ends]
    split
    · split
      · rename_i starts
        obtain ⟨mark, behind, rfl, -⟩ := exists_of_startsWith ends Kind.noConfusion starts
        have same : SameOutcome later later' behind 0
            ((Statement.assign token.text <$> expression) (behind ++ later))
            ((Statement.assign token.text <$> expression') (behind ++ later')) :=
          agree.lax.map behind (Nat.lt_of_succ_lt short)
        exact same.behind (List.suffix_append [token, mark] behind) (Nat.le_succ _)
      · exact refused
    · exact (agree_define ends agree agreeBody rest short).cons token
    · exact ((agree_call ends agree enough enough').map rest short).cons token
    · exact (agree.lax.map rest short).cons token
    · exact (agree.lax.map rest short).cons token
    · exact ((agree_expect ends Kind.noConfusion .variableName).lax.map rest short).cons token
    · exact (agree_conditional ends agree agreeBody enough enough' rest short).cons token
    · exact (agree_whileLoop ends agree agreeBody rest short).cons token
    · exact (agree_forLoop ends agree agreeBody rest short).cons token
    · exact (agree_attempt ends agreeBody rest short).cons token
    · exact (agree_giveBack ends agree rest short).cons token
    · have ahead := exception?_append ends (token :: rest)
      rw [List.cons_append, List.cons_append] at ahead
      generalize exception? (token :: (rest ++ later)) = split,
        exception? (token :: (rest ++ later')) = split' at ahead
      cases ahead with
      | none => exact refused
      | some message suffix taken => exact .ok (Statement.raise message) suffix taken
    · exact refused

/-- With a unit of fuel for every token, statements are read alike in front of both tails. -/
theorem agree_statement (enough : size ≤ fuel) (enough' : size ≤ fuel') :
    Agree later later' size 1 (Parser.statement fuel) (Parser.statement fuel') := by
  refine agree_of_fuel (fun _ enough enough' inner => ?_) (Nat.le_refl size) enough enough'
  have agreeBody owner := agree_block ends owner inner (Nat.le_refl _) enough enough'
  exact agree_statementWith ends (agree_expression ends enough enough') agreeBody enough enough'

end

end

section

variable {left behind behind' : List Token} {mark : Token}

/-- Two parsers have read the same, or were refused at the same one of `tokens`. -/
inductive SameAnswer (tokens : List Token) {α : Type} :
    Except Refusal (α × List Token) → Except Refusal (α × List Token) → Prop where
  | ok (result : α) (rest rest' : List Token) :
      SameAnswer tokens (.ok (result, rest)) (.ok (result, rest'))
  | refused (expectation : Expectation) {token : Token} (isThere : token ∈ tokens)
      (rest rest' : List Token) :
      SameAnswer tokens (.error (.expected expectation (token :: rest)))
        (.error (.expected expectation (token :: rest')))

/-- What stands first behind a part of the front is in the front, or is the mark. -/
theorem exists_head (suffix : left <:+ front) (mark : Token) (behind behind' : List Token) :
    ∃ token ∈ front ++ [mark], ∃ rest rest',
      left ++ mark :: behind = token :: rest ∧ left ++ mark :: behind' = token :: rest' := by
  cases left with
  | nil => exact ⟨mark, by simp, behind, behind', rfl, rfl⟩
  | cons token left =>
      have isThere : token ∈ front ++ [mark] :=
        List.mem_append_left _ (suffix.subset List.mem_cons_self)
      exact ⟨token, isThere, _, _, rfl, rfl⟩

theorem SameOutcome.answer_bind {first second : Parser α} {next next' : α → Parser β}
    (same : SameOutcome (mark :: behind) (mark :: behind') front least
      (first (front ++ mark :: behind)) (second (front ++ mark :: behind')))
    (answer : ∀ result left, left <:+ front →
      SameAnswer (front ++ [mark]) (next result (left ++ mark :: behind))
        (next' result (left ++ mark :: behind'))) :
    SameAnswer (front ++ [mark]) ((first >>= next) (front ++ mark :: behind))
      ((second >>= next') (front ++ mark :: behind')) := by
  rw [bind_apply, bind_apply]
  generalize first (front ++ mark :: behind) = outcome,
    second (front ++ mark :: behind') = outcome' at same
  cases same with
  | ok result suffix _ => exact answer result _ suffix
  | refused expectation suffix =>
      obtain ⟨token, isThere, rest, rest', eq, eq'⟩ := exists_head suffix mark behind behind'
      rw [eq, eq']
      exact .refused expectation isThere rest rest'

/-- What is read behind the statements of a program. -/
theorem closing_cons (statements : Block) (token : Token) (rest : List Token) :
    (do
      discard (expect .programEnd .programEnd)
      return statements : Parser Block) (token :: rest) =
      if token.kind = .programEnd then .ok (statements, rest)
      else .error (.expected .programEnd (token :: rest)) := by
  change ((fun _ => PUnit.unit) <$> expect .programEnd .programEnd >>= fun _ => pure statements)
    (token :: rest) = _
  rw [map_eq_pure_bind, bind_assoc, bind_apply, expect]
  by_cases isEnd : token.kind = .programEnd
  · simp only [isEnd, if_true]; rfl
  · simp only [isEnd, if_false]; rfl

theorem sameAnswer_closing (statements : Block) (suffix : left <:+ front) :
    SameAnswer (front ++ [mark])
      ((do
        discard (expect .programEnd .programEnd)
        return statements : Parser Block) (left ++ mark :: behind))
      ((do
        discard (expect .programEnd .programEnd)
        return statements : Parser Block) (left ++ mark :: behind')) := by
  obtain ⟨token, isThere, rest, rest', eq, eq'⟩ := exists_head suffix mark behind behind'
  rw [eq, eq', closing_cons, closing_cons]
  split
  · exact .ok statements rest rest'
  · exact .refused .programEnd isThere rest rest'

/-- A program is read alike up to the end mark, and what stands behind it is not looked at. -/
theorem sameAnswer_program (isEnd : mark.kind = .programEnd) {fuel fuel' : Nat}
    (enough : front.length < fuel) (enough' : front.length < fuel') :
    SameAnswer (front ++ [mark]) (program fuel (front ++ mark :: behind))
      (program fuel' (front ++ mark :: behind')) := by
  have ends : EndsAlike (mark :: behind) (mark :: behind') := .atMark isEnd behind behind'
  have agreeBlock := agree_block ends .program (agree_statement ends enough enough')
    (Nat.le_refl _) enough enough'
  have agreeStart : Agree (mark :: behind) (mark :: behind') (front.length + 1) 0
      (discard (expect .programStart .programStart))
      (discard (expect .programStart .programStart)) :=
    agree_discard_expect ends .programStart Kind.noConfusion .programStart
  have same := (agreeStart.bind fun _ => agreeBlock) front (Nat.lt_succ_self front.length)
  have opening (fuel : Nat) : program fuel =
      (do
        discard (expect .programStart .programStart)
        block (Parser.statement fuel) .program fuel) >>= fun statements => do
          discard (expect .programEnd .programEnd)
          return statements := by
    simp only [program, bind_assoc]
  rw [opening, opening]
  exact same.answer_bind fun statements left suffix => sameAnswer_closing statements suffix

end

section

variable {tokens tokens' answered : List Token} {parser parser' : Parser α}

theorem SameAnswer.run (same : SameAnswer answered (parser tokens) (parser' tokens')) :
    run parser tokens = run parser' tokens' := by
  rw [Parser.run, Parser.run]
  generalize parser tokens = outcome, parser' tokens' = outcome' at same
  cases same with
  | ok result rest rest' => rfl
  | refused expectation isThere rest rest' => rfl

theorem SameAnswer.found (same : SameAnswer answered (parser tokens) (parser' tokens'))
    {error : ParseError} (refused : Parser.run parser tokens = .error error) :
    ∃ token ∈ answered,
      error = ⟨error.expected, some token, token.position.line, token.position.column⟩ := by
  rw [Parser.run] at refused
  generalize parser tokens = outcome, parser' tokens' = outcome' at same refused
  cases same with
  | ok result rest rest' => cases refused
  | @refused expectation token isThere rest rest' =>
      cases refused
      exact ⟨token, isThere, rfl⟩

end

end Parser

/-- Nothing behind the first token that ends a program is looked at: what is read is the same
whatever stands there, and a refusal is at a token up to it. -/
theorem parseProgram_append_mark (front : List Token) {mark : Token}
    (isEnd : mark.kind = .programEnd) (behind behind' : List Token) :
    parseProgram (front ++ mark :: behind) = parseProgram (front ++ mark :: behind') ∧
      ∀ error, parseProgram (front ++ mark :: behind) = .error error →
        ∃ token ∈ front ++ [mark], error.found = some token ∧
          error.line = token.position.line ∧ error.column = token.position.column ∧
          ∀ size, error.span size = ⟨token.position.offset, token.text.utf8ByteSize⟩ := by
  have enough (tail : List Token) :
      front.length < Parser.enoughFuel (front ++ mark :: tail) := by
    simp only [Parser.enoughFuel, List.length_append, List.length_cons]; omega
  have same : Parser.SameAnswer (front ++ [mark])
      (Parser.program (Parser.enoughFuel (front ++ mark :: behind)) (front ++ mark :: behind))
      (Parser.program (Parser.enoughFuel (front ++ mark :: behind')) (front ++ mark :: behind')) :=
    Parser.sameAnswer_program isEnd (enough behind) (enough behind')
  refine ⟨same.run, fun error refused => ?_⟩
  obtain ⟨token, isThere, eq⟩ := same.found refused
  exact ⟨token, isThere, by rw [eq], by rw [eq], by rw [eq], fun size => by rw [eq]; rfl⟩

/-- A program that ends where something should be put out. -/
def unfinishedOutput : List Token :=
  [⟨.programStart, ":::", .start⟩, ⟨.output, ">", ⟨4, 1, 5⟩⟩]

def endMark : Token := ⟨.programEnd, ";;;", ⟨6, 1, 7⟩⟩

/-- The refusal is at the end mark, also where an expression stands behind it. -/
theorem parseProgram_append_mark_unfinishedOutput :
    endMark.kind = .programEnd ∧
      parseProgram (unfinishedOutput ++ [endMark]) = .error ⟨.expression, some endMark, 1, 7⟩ ∧
      parseProgram (unfinishedOutput ++ [endMark]) =
        parseProgram (unfinishedOutput ++ endMark :: [⟨.string, "a", ⟨10, 1, 11⟩⟩]) :=
  ⟨rfl, rfl, (parseProgram_append_mark unfinishedOutput rfl [] _).1⟩

end Mel

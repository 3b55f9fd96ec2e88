import Mel.Proofs.BlockStructure
import Mel.Proofs.Lookahead
import Mel.Proofs.Parsing
import Mel.Proofs.Reading

/-!
# Redundant parentheses

No expression goes on with a closing parenthesis. Parsers of expressions decide nothing differently
in front of one than at the end of all tokens, so what they read of some tokens alone they also read
where a closing parenthesis and anything else stand behind. Hence parentheses around an expression
are transparent. Only around a single name or string they are not, since that is how an exception is
written.
-/

namespace Mel

namespace Parser

variable {α β : Type} {tail : List Token}

/-- What a parser reads of some tokens alone, it also reads with a tail behind them, and leaves the
same of them. -/
def Persists (tail : List Token) (parser : Parser α) : Prop :=
  ∀ front left result, parser front = .ok (result, left) →
    parser (front ++ tail) = .ok (result, left ++ tail)

theorem persists_outOfFuel : Persists tail (outOfFuel : Parser α) := by
  intro front left result read
  cases read

theorem persists_return (result : α) : Persists tail (return result : Parser α) := by
  intro front left _ read
  cases read
  rfl

theorem Persists.bind {first : Parser α} {next : α → Parser β} (persists : Persists tail first)
    (persistsNext : ∀ result, Persists tail (next result)) : Persists tail (first >>= next) := by
  intro front left result read
  rcases ok_of_bind read with ⟨middle, later, readFirst, readNext⟩
  rw [bind_of_ok (persists front later middle readFirst)]
  exact persistsNext middle later left result readNext

theorem Persists.map {parser : Parser α} (map : α → β) (persists : Persists tail parser) :
    Persists tail (map <$> parser) := by
  intro front left result read
  rcases ok_of_map read with ⟨taken, readTaken, rfl⟩
  exact map_of_ok map (persists front left taken readTaken)

theorem persists_expect (kind : Kind) (expectation : Expectation) :
    Persists tail (expect kind expectation) := by
  intro front left result
  rcases front with _ | ⟨token, rest⟩
  · rintro ⟨⟩
  simp only [List.cons_append, expect]
  split
  · rintro ⟨⟩
    rfl
  · rintro ⟨⟩

theorem persists_discard_expect (kind : Kind) (expectation : Expectation) :
    Persists tail (discard (expect kind expectation)) :=
  Persists.map _ (persists_expect kind expectation)

/-- A name or a string alone. In parentheses it is an exception. -/
def IsMessage (tokens : List Token) : Prop :=
  ∃ token, tokens = [token] ∧ (token.kind = .identifier ∨ token.kind = .string)

section

variable {closing : Token} (isClosing : closing.kind = .rightParen) (behind front : List Token)
include isClosing

theorem endsExpression_closing :
    endsExpression (front ++ closing :: behind) = endsExpression front := by
  rcases front with _ | ⟨token, _ | ⟨next, rest⟩⟩
  · simp [endsExpression, isClosing, Kind.endsExpression]
  · simp only [List.cons_append, List.nil_append, endsExpression, startsWith, isClosing]
    rfl
  · rfl

theorem startsWith_closing (kind : Kind) (other : kind ≠ .rightParen) :
    startsWith kind (front ++ closing :: behind) = startsWith kind front := by
  cases front with
  | nil => simp [startsWith, isClosing, other.symm]
  | cons token rest => rfl

theorem startsWithOperator_closing :
    startsWithOperator (front ++ closing :: behind) = startsWithOperator front := by
  cases front with
  | nil => simp [startsWithOperator, isClosing]
  | cons token rest => rfl

theorem operator?_closing (tier : Tier) :
    operator? tier (front ++ closing :: behind) =
      (operator? tier front).map fun (operator, rest) => (operator, rest ++ closing :: behind) := by
  cases front with
  | nil => simp [operator?, isClosing]
  | cons token rest =>
      simp only [List.cons_append, operator?]
      split
      · split <;> rfl
      · rfl

theorem bits_closing (afterBit : Bool) :
    bits afterBit (front ++ closing :: behind) =
      ((bits afterBit front).1, (bits afterBit front).2 ++ closing :: behind) := by
  induction front generalizing afterBit with
  | nil => simp [bits, isClosing]
  | cons token rest ih =>
      simp only [List.cons_append, bits]
      split
      · rw [ih true]
      · rw [ih true]
      · rw [ih false]
      · rfl

/-- No exception is made by closing a parenthesis, but around a message. -/
theorem exception?_closing (token : Token) (noMessage : ¬ IsMessage front) :
    exception? (token :: (front ++ closing :: behind)) =
      (exception? (token :: front)).map fun (message, rest) =>
        (message, rest ++ closing :: behind) := by
  rcases front with _ | ⟨name, _ | ⟨last, rest⟩⟩
  · cases behind with
    | nil => rfl
    | cons next behind => simp [exception?, isClosing]
  · simp only [IsMessage, List.cons.injEq, and_true, exists_eq_left', not_or] at noMessage
    simp only [List.cons_append, List.nil_append, exception?]
    split
    · split
      · exact (noMessage.1 ‹_›).elim
      · exact (noMessage.2 ‹_›).elim
      · rfl
    · rfl
  · simp only [List.cons_append, exception?]
    split
    · split <;> rfl
    · rfl

end

section

variable {closing : Token} (isClosing : closing.kind = .rightParen) {behind : List Token}
  {expression : Parser Expr} (persists : Persists (closing :: behind) expression)
include isClosing persists

theorem persists_arguments (fuel : Nat) :
    Persists (closing :: behind) (arguments expression fuel) := by
  induction fuel with
  | zero => exact persists_outOfFuel
  | succ fuel ih =>
      intro front left result
      simp only [arguments, endsExpression_closing isClosing]
      split
      · rintro ⟨⟩
        rfl
      · have persistsRound := persists.bind fun first => ih.bind fun later =>
          persists_return (first :: later)
        exact persistsRound front left result

theorem persists_elements (fuel : Nat) :
    Persists (closing :: behind) (elements expression fuel) := by
  induction fuel with
  | zero => exact persists_outOfFuel
  | succ fuel ih =>
      intro front left result
      rcases front with _ | ⟨token, rest⟩
      · rintro ⟨⟩
        simp [elements, isClosing]
      simp only [List.cons_append, elements]
      split
      · have persistsRound := persists.bind fun first => ih.bind fun later =>
          persists_return (first :: later)
        exact persistsRound rest left result
      · rintro ⟨⟩
        rfl

theorem persists_afterOperator (operand : Expr) (operator : Operator) :
    Persists (closing :: behind) (afterOperator expression operand operator) := by
  intro front left result
  simp only [afterOperator, endsExpression_closing isClosing, startsWithOperator_closing isClosing]
  split
  · split
    · rintro ⟨⟩
      rfl
    · exact persists.map _ front left result
  · exact persists.map _ front left result

theorem persists_chain (tier : Tier) (fuel : Nat) (operand : Expr) :
    Persists (closing :: behind) (chain tier expression fuel operand) := by
  induction fuel generalizing operand with
  | zero => exact persists_outOfFuel
  | succ fuel ih =>
      intro front left result
      simp only [chain, operator?_closing isClosing]
      cases operator? tier front with
      | none =>
          rintro ⟨⟩
          rfl
      | some ahead =>
          rcases ahead with ⟨operator, rest⟩
          have persistsOperand := persists_afterOperator isClosing persists operand operator
          have persistsBehind := persistsOperand.bind ih
          exact persistsBehind rest left result

theorem persists_tiered (tier : Tier) (fuel : Nat) :
    Persists (closing :: behind) (tiered tier expression fuel) :=
  persists.bind fun operand => persists_chain isClosing persists tier fuel operand

theorem persists_unary : Persists (closing :: behind) (unary expression) := by
  intro front left result
  rcases front with _ | ⟨token, rest⟩
  · simpa [unary, isClosing] using persists [] left result
  simp only [List.cons_append, unary]
  split
  · exact persists.map _ rest left result
  · exact persists (token :: rest) left result

theorem persists_call (fuel : Nat) : Persists (closing :: behind) (call expression fuel) := by
  intro front left result
  have persistsItems := persists_arguments isClosing persists fuel
  rcases front with _ | ⟨token, rest⟩
  · rintro ⟨⟩
  simp only [List.cons_append, call]
  split
  · exact persistsItems.map _ rest left result
  · exact persistsItems.map _ rest left result
  · rintro ⟨⟩

theorem persists_array (fuel : Nat) : Persists (closing :: behind) (array expression fuel) := by
  intro front left result
  have sameStart := startsWith_closing isClosing behind front .arrayEnd Kind.noConfusion
  simp only [array, sameStart]
  split
  · rename_i starts
    rintro ⟨⟩
    cases front with
    | nil => cases starts
    | cons token rest => rfl
  · have persistsItems := persists_elements isClosing persists fuel
    have persistsAll := persists.bind fun first => persistsItems.bind fun later =>
      (persists_discard_expect .arrayEnd .arrayEnd).bind fun _ =>
        persists_return (Expr.array (first :: later))
    exact persistsAll front left result

omit isClosing in
theorem persists_grouped : Persists (closing :: behind) (grouped expression) :=
  persists.bind fun inner =>
    (persists_discard_expect .rightParen .closingParen).bind fun _ => persists_return inner

end

/-- The parenthesis that closes a group is one of the tokens. -/
theorem staysIn_grouped {all : List Token} {expression : Parser Expr}
    (takes : Takes all expression) :
    StaysIn all (fun _ => ∃ token ∈ all, token.kind = .rightParen) (grouped expression) := by
  refine StaysIn.bind takes fun inner _ => ?_
  refine StaysIn.bind ((staysIn_expect .closingParen).map fun token closes => ?_) fun _ closed =>
    staysIn_return closed
  exact ⟨token, closes⟩

/-- A name or a string does not close a group. -/
theorem not_isMessage_of_grouped {expression : Parser Expr} (takes : ∀ all, Takes all expression)
    {tokens left : List Token} {result : Expr}
    (read : grouped expression tokens = .ok (result, left)) :
    ¬ IsMessage tokens := by
  rintro ⟨token, rfl, isName⟩
  have stays := staysIn_grouped (takes [token]) [token] (List.suffix_refl _)
  rw [read] at stays
  rcases stays.1 with ⟨_, member, closes⟩
  rw [List.mem_singleton.mp member] at closes
  rcases isName with isName | isName <;> cases isName.symm.trans closes

section

variable {closing : Token} (isClosing : closing.kind = .rightParen) {behind : List Token}
include isClosing

theorem persists_primary {expression : Parser Expr} (takes : ∀ all, Takes all expression)
    (persists : Persists (closing :: behind) expression) (fuel : Nat) :
    Persists (closing :: behind) (primary expression fuel) := by
  intro front left result
  rcases front with _ | ⟨token, rest⟩
  · rintro ⟨⟩
  simp only [List.cons_append, primary, bits_closing isClosing]
  split
  · rintro ⟨⟩
    rfl
  · rintro ⟨⟩
    rfl
  · split
    · rintro ⟨⟩
      rfl
    · rintro ⟨⟩
  · rintro ⟨⟩
    rfl
  · rintro ⟨⟩
    rfl
  · exact persists_array isClosing persists fuel rest left result
  · intro read
    have noMessage : ¬ IsMessage rest := by
      cases ahead : exception? (token :: rest) with
      | none =>
          rw [ahead] at read
          exact not_isMessage_of_grouped takes read
      | some split =>
          rintro ⟨name, rfl, -⟩
          cases ahead
    rw [exception?_closing isClosing behind rest token noMessage]
    cases ahead : exception? (token :: rest) with
    | none =>
        rw [ahead] at read
        exact persists_grouped persists rest left result read
    | some split =>
        rw [ahead] at read
        cases read
        rfl
  · exact (persists_call isClosing persists fuel).map _ rest left result
  · rintro ⟨⟩

theorem persists_expression (fuel : Nat) :
    Persists (closing :: behind) (Parser.expression fuel) := by
  induction fuel with
  | zero => exact persists_outOfFuel
  | succ fuel ih =>
      have single := persists_unary isClosing
        (persists_primary isClosing (fun _ => takes_expression fuel) ih fuel)
      have term := persists_tiered isClosing single .term fuel
      have sum := persists_tiered isClosing term .additive fuel
      exact persists_tiered isClosing sum .comparison fuel

/-- A name or a string in front of a closing parenthesis is all that is read. -/
theorem expression_of_name {name : Token} (isName : name.kind = .identifier ∨ name.kind = .string)
    (fuel : Nat) :
    ∃ result,
      expression (fuel + 2) (name :: closing :: behind) = .ok (result, closing :: behind) := by
  have breaks : Breaks (closing :: behind) :=
    (ends_of_kind (by rw [isClosing]; rfl) (by rw [isClosing]; exact Kind.noConfusion)).breaks
  have notNegate : name.kind ≠ .negate := by
    rcases isName with isName | isName <;> simp [isName]
  rcases isName with isName | isName
  · exact ⟨.variable name.text, expression_of_primary (by rw [primary, isName]) notNegate breaks⟩
  · exact ⟨.string (Text.ofStringToken name.text),
      expression_of_primary (by rw [primary, isName]) notNegate breaks⟩

end

/-- No exception stands in parentheses around what is read completely, but around a message. -/
theorem exception?_of_read {tokens : List Token} {result : Expr} (opening : Token)
    (read : expression (enoughFuel tokens) tokens = .ok (result, [])) :
    exception? (opening :: tokens) = none := by
  rcases tokens with _ | ⟨name, _ | ⟨last, rest⟩⟩
  · rfl
  · rfl
  have readsAll (isLast : last.kind = .rightParen) :
      ¬ (name.kind = .identifier ∨ name.kind = .string) := by
    intro isName
    obtain ⟨other, stops⟩ := expression_of_name isLast isName (rest.length + 1)
    cases stops.symm.trans read
  rw [exception?]
  split
  · rename_i both
    split
    · exact (readsAll both.2 (.inl ‹_›)).elim
    · exact (readsAll both.2 (.inr ‹_›)).elim
    · rfl
  · rfl

/-- Parentheses around all that is read as an expression change nothing, unless it is a name or a
string alone: the parser of what has no operators outside parentheses takes them with what they
enclose, and stops behind them, whatever stands there. -/
theorem parentheses_are_transparent {tokens : List Token} {result : Expr}
    (read : expression (enoughFuel tokens) tokens = .ok (result, []))
    (noMessage : ¬ IsMessage tokens)
    {opening closing : Token} (isOpening : opening.kind = .leftParen)
    (isClosing : closing.kind = .rightParen) (behind : List Token) {fuel : Nat}
    (enough : tokens.length < fuel) :
    primary (expression fuel) fuel (opening :: (tokens ++ closing :: behind)) =
      .ok (result, behind) := by
  have noException : exception? (opening :: (tokens ++ closing :: behind)) = none := by
    rw [exception?_closing isClosing behind tokens opening noMessage,
      exception?_of_read opening read]
    rfl
  have inside :
      expression fuel (tokens ++ closing :: behind) = .ok (result, closing :: behind) := by
    refine persists_expression isClosing fuel tokens [] result ?_
    have agree := agree_expression .nowhere (Nat.le_refl (enoughFuel tokens)) enough
    have same := agree tokens (Nat.lt_succ_self tokens.length)
    simp only [List.append_nil] at same
    rw [← same.eq, read]
  have closes : discard (expect .rightParen .closingParen) (closing :: behind) =
      .ok ((), behind) := by
    apply map_of_ok
    rw [expect, if_pos isClosing]
  rw [primary, isOpening]
  simp only [noException]
  rw [grouped, bind_of_ok inside, bind_of_ok closes]
  rfl

/-- A sum that ends in the arguments of a call, with an operator that another operand could
follow. -/
def openSum : List Token :=
  [⟨.identifier, "n", ⟨1, 1, 2⟩⟩, ⟨.operator ⟨.real, .add⟩, "#+", ⟨2, 1, 3⟩⟩,
    ⟨.callMark, "->>", ⟨4, 1, 5⟩⟩, ⟨.identifier, "f", ⟨7, 1, 8⟩⟩, ⟨.identifier, "m", ⟨9, 1, 10⟩⟩,
    ⟨.operator ⟨.real, .factorial⟩, "#!", ⟨10, 1, 11⟩⟩]

/-- The name behind the parentheses goes neither with the operator nor with the call. -/
theorem parentheses_are_transparent_openSum :
    let opening : Token := ⟨.leftParen, "(", ⟨0, 1, 1⟩⟩
    let closing : Token := ⟨.rightParen, ")", ⟨12, 1, 13⟩⟩
    let name : Token := ⟨.identifier, "k", ⟨14, 1, 15⟩⟩
    let factorial : Expr := .suffix ⟨.real, .factorial⟩ (.variable "m") none
    let sum : Expr := .binary ⟨.real, .add⟩ (.variable "n") (.call (.named "f") [factorial])
    expression (enoughFuel openSum) openSum = .ok (sum, []) ∧ ¬ IsMessage openSum ∧
      openSum.length < 9 ∧
      primary (expression 9) 9 (opening :: (openSum ++ [closing, name])) = .ok (sum, [name]) := by
  have read : expression (enoughFuel openSum) openSum =
      .ok (.binary ⟨.real, .add⟩ (.variable "n")
        (.call (.named "f") [.suffix ⟨.real, .factorial⟩ (.variable "m") none]), []) := rfl
  have noMessage : ¬ IsMessage openSum := by
    rintro ⟨token, single, -⟩
    cases single
  have short : openSum.length < 9 := by decide
  exact ⟨read, noMessage, short, parentheses_are_transparent read noMessage rfl rfl _ short⟩

end Parser

end Mel

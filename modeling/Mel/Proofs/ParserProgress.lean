import Mel.Proofs.Lookahead

/-!
# Progress of the parsers

A parser stands somewhere in a list of tokens. Wherever it is started, it stops there or further on
and never behind the last token, whether it has read something or was refused, and one unit of fuel
more than there are tokens left makes it stop for good: with more fuel it does the same. Expressions
and statements take a token at least, so that no repetition of them goes on for ever.

This is what is left of two parsers that go side by side if both stand in the same tokens.
-/

namespace Mel

namespace Parser

variable {α : Type}

/-- A parser that was started behind `start` of the tokens stands behind `stop` of them. If it has
read something, it has taken at least so many. -/
inductive Moved (tokens : List Token) (start : Fin (tokens.length + 1)) (least : Nat) :
    Except Refusal (α × List Token) → Prop where
  | read (result : α) (stop : Fin (tokens.length + 1)) (forward : start + least ≤ stop.val) :
      Moved tokens start least (.ok (result, tokens.drop stop))
  | refused (expectation : Expectation) (stop : Fin (tokens.length + 1)) (forward : start ≤ stop) :
      Moved tokens start least (.error (.expected expectation (tokens.drop stop)))

/-- Wherever the parser is started, it moves forward to one place, given more fuel than there are
tokens left. -/
def Advances (least : Nat) (parser : Nat → Parser α) : Prop :=
  ∀ (tokens : List Token) (start : Fin (tokens.length + 1)), ∃ outcome,
    Moved tokens start least outcome ∧
      ∀ fuel, tokens.length - start < fuel → parser fuel (tokens.drop start) = outcome

/-- The last tokens of a list stand behind some of the others. -/
theorem exists_stop {tokens left : List Token} (suffix : left <:+ tokens) :
    ∃ stop : Fin (tokens.length + 1), left = tokens.drop stop :=
  ⟨⟨tokens.length - left.length, by omega⟩, List.suffix_iff_eq_drop.mp suffix⟩

theorem moved_of_sameOutcome {least : Nat} {tokens : List Token} {start : Fin (tokens.length + 1)}
    {outcome outcome' : Except Refusal (α × List Token)}
    (same : SameOutcome [] [] (tokens.drop start) least outcome outcome') :
    Moved tokens start least outcome := by
  have stays {left : List Token} (suffix : left <:+ tokens.drop start) : left <:+ tokens :=
    suffix.trans (List.drop_suffix start tokens)
  cases same with
  | ok result suffix taken =>
      obtain ⟨stop, rfl⟩ := exists_stop (stays suffix)
      simp only [List.length_drop, List.append_nil] at taken ⊢
      exact .read result stop (by omega)
  | refused expectation suffix =>
      have fewer := suffix.length_le
      obtain ⟨stop, rfl⟩ := exists_stop (stays suffix)
      simp only [List.length_drop, List.append_nil] at fewer ⊢
      exact .refused expectation stop (Fin.le_def.mpr (by omega))

/-- A parser advances if it goes along with itself, also with different amounts of fuel. -/
theorem advances_of_agree {least : Nat} {parser : Nat → Parser α}
    (agree : ∀ {size fuel fuel' : Nat}, size ≤ fuel → size ≤ fuel' →
      Agree [] [] size least (parser fuel) (parser fuel')) : Advances least parser := by
  intro tokens start
  have same {fuel : Nat} (enough : tokens.length - start < fuel) :
      SameOutcome [] [] (tokens.drop start) least
        (parser (tokens.length - start + 1) (tokens.drop start))
        (parser fuel (tokens.drop start)) := by
    have short : (tokens.drop start).length < tokens.length - start + 1 := by
      rw [List.length_drop]
      exact Nat.lt_succ_self _
    simpa only [List.append_nil] using agree (Nat.le_refl _) enough _ short
  exact ⟨_, moved_of_sameOutcome (same (Nat.lt_succ_self _)),
    fun fuel enough => (same enough).eq.symm⟩

/-- The block of an owner, as it is read inside statements. -/
def bodyOf (owner : BlockOwner) (fuel : Nat) : Parser Block :=
  block (statement fuel) owner fuel

/-- All parsers advance, and those of programs, statements and expressions by a token at least. A
parser of what follows a mark is started behind it. -/
structure AllAdvance : Prop where
  program : Advances 1 program
  block : ∀ owner, Advances 0 (bodyOf owner)
  statement : Advances 1 statement
  define : Advances 0 fun fuel => define (Parser.expression fuel) (bodyOf · fuel)
  giveBack : Advances 0 fun fuel => giveBack (Parser.expression fuel)
  conditional : Advances 0 fun fuel => conditional (Parser.expression fuel) (bodyOf · fuel) fuel
  whileLoop : Advances 0 fun fuel => whileLoop (Parser.expression fuel) (bodyOf · fuel)
  forLoop : Advances 0 fun fuel => forLoop (Parser.expression fuel) (bodyOf · fuel)
  attempt : Advances 0 fun fuel => attempt (bodyOf · fuel)
  call : Advances 0 fun fuel => call (Parser.expression fuel) fuel
  expression : Advances 1 expression
  sum : Advances 1 fun fuel =>
    tiered .additive (tiered .term (unary (primary (Parser.expression fuel) fuel)) fuel) fuel
  term : Advances 1 fun fuel =>
    tiered .term (unary (primary (Parser.expression fuel) fuel)) fuel
  unary : Advances 1 fun fuel => unary (primary (Parser.expression fuel) fuel)
  primary : Advances 1 fun fuel => primary (Parser.expression fuel) fuel

section

variable {size fuel fuel' : Nat}

/-- At the end of all tokens, an end mark can be expected like any other token. -/
theorem agree_expect_nowhere (kind : Kind) (expectation : Expectation) :
    Agree [] [] size 1 (expect kind expectation) (expect kind expectation) := by
  intro front _
  cases front with
  | nil => exact .refused expectation (List.suffix_refl [])
  | cons token rest =>
      simp only [List.cons_append, expect]
      split
      · exact .ok token (List.suffix_cons token rest) (Nat.le_refl _)
      · exact .refused expectation (List.suffix_refl _)

variable (enough : size ≤ fuel) (enough' : size ≤ fuel')
include enough enough'

theorem agree_bodyOf (owner : BlockOwner) :
    Agree [] [] size 0 (bodyOf owner fuel) (bodyOf owner fuel') :=
  agree_block .nowhere owner (agree_statement .nowhere enough enough') (Nat.le_refl size) enough
    enough'

theorem agree_program : Agree [] [] size 1 (program fuel) (program fuel') := by
  rcases size with _ | size
  · exact agree_zero
  have opening : Agree [] [] (size + 1) 1 (discard (expect .programStart .programStart))
      (discard (expect .programStart .programStart)) :=
    (agree_expect_nowhere _ _).map
  have closing : Agree [] [] size 0 (discard (expect .programEnd .programEnd))
      (discard (expect .programEnd .programEnd)) :=
    (agree_expect_nowhere _ _).lax.map
  have inside := agree_bodyOf (Nat.le_of_succ_le enough) (Nat.le_of_succ_le enough') .program
  exact opening.andThen fun _ => inside.bind fun statements =>
    closing.bind fun _ => agree_return statements

/-- The parsers that an expression is made of, from the tightest to the loosest. -/
theorem agree_tiers :
    let single fuel := primary (expression fuel) fuel
    let term fuel := tiered .term (unary (single fuel)) fuel
    Agree [] [] size 1 (single fuel) (single fuel') ∧
      Agree [] [] size 1 (unary (single fuel)) (unary (single fuel')) ∧
      Agree [] [] size 1 (term fuel) (term fuel') ∧
      Agree [] [] size 1 (tiered .additive (term fuel) fuel)
        (tiered .additive (term fuel') fuel') := by
  have agree := agree_expression .nowhere enough enough'
  have single := agree_primary .nowhere agree enough enough'
  have signed := agree_unary .nowhere single
  have term := agree_tiered .nowhere .term signed enough enough'
  have sum := agree_tiered .nowhere .additive term enough enough'
  have le := Nat.le_succ size
  exact ⟨single.narrow le, signed.narrow le, term.narrow le, sum.narrow le⟩

end

/-- Whatever the tokens are and wherever a parser is started in them, it stops for good with as many
units of fuel as there are tokens left and one more, and has moved forward to a place in the tokens,
also if it was refused. What it reads as a program, a statement or an expression has a token at
least. -/
theorem parsers_advance : AllAdvance where
  program := advances_of_agree agree_program
  block owner := advances_of_agree fun enough enough' => agree_bodyOf enough enough' owner
  statement := advances_of_agree (agree_statement .nowhere)
  define := advances_of_agree fun enough enough' =>
    agree_define .nowhere (agree_expression .nowhere enough enough') (agree_bodyOf enough enough')
  giveBack := advances_of_agree fun enough enough' =>
    agree_giveBack .nowhere (agree_expression .nowhere enough enough')
  conditional := advances_of_agree fun enough enough' =>
    agree_conditional .nowhere (agree_expression .nowhere enough enough')
      (agree_bodyOf enough enough') enough enough'
  whileLoop := advances_of_agree fun enough enough' =>
    agree_whileLoop .nowhere (agree_expression .nowhere enough enough')
      (agree_bodyOf enough enough')
  forLoop := advances_of_agree fun enough enough' =>
    agree_forLoop .nowhere (agree_expression .nowhere enough enough') (agree_bodyOf enough enough')
  attempt := advances_of_agree fun enough enough' =>
    agree_attempt .nowhere (agree_bodyOf enough enough')
  call := advances_of_agree fun enough enough' =>
    agree_call .nowhere (agree_expression .nowhere enough enough') enough enough'
  expression := advances_of_agree (agree_expression .nowhere)
  sum := advances_of_agree fun enough enough' => (agree_tiers enough enough').2.2.2
  term := advances_of_agree fun enough enough' => (agree_tiers enough enough').2.2.1
  unary := advances_of_agree fun enough enough' => (agree_tiers enough enough').2.1
  primary := advances_of_agree fun enough enough' => (agree_tiers enough enough').1

end Parser

end Mel

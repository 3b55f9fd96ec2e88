import Mel.Program.Parser
import Mel.Proofs.Canonical
import Mel.Proofs.Writing

/-!
# Reading what is written

A parser reads some words if it takes every spelling of them off the front of the
tokens, as long as the tokens behind them may follow. This file puts such facts
together along the parser and proves them of simple expressions and calls.

Where an expression or a call ends is for the tokens behind it to say: they must not
go on with it, and must not make an assignment of a name at its end.
-/

namespace Mel

namespace Parser

variable {α β : Type}

theorem bind_of_ok {first : Parser α} {next : α → Parser β} {tokens rest : List Token}
    {result : α} (read : first tokens = .ok (result, rest)) :
    (first >>= next) tokens = next result rest := by
  rw [bind_apply, read]

theorem map_of_ok {parser : Parser α} {tokens rest : List Token} {result : α} (map : α → β)
    (read : parser tokens = .ok (result, rest)) :
    (map <$> parser) tokens = .ok (map result, rest) := by
  rw [map_eq_pure_bind, bind_of_ok read]
  rfl

/-- A parser takes all spellings of some words and leaves what may follow them. -/
def Reads (parser : Parser α) (words : List Word) (result : α) (follow : List Token → Prop) :
    Prop :=
  ∀ written rest, Spelled words written → follow rest →
    parser (written ++ rest) = .ok (result, rest)

/-- A parser is followed by another one that reads the words behind it. -/
theorem Reads.bind {first : Parser α} {next : α → Parser β} {words later : List Word} {result : α}
    {value : β} {follow followNext : List Token → Prop} (reads : Reads first words result follow)
    (readsNext : Reads (next result) later value followNext)
    (meet : ∀ written rest, Spelled later written → followNext rest → follow (written ++ rest)) :
    Reads (first >>= next) (words ++ later) value followNext := by
  intro written rest spelled follows
  rcases spelled.split with ⟨firstTokens, laterTokens, rfl, spelledFirst, spelledLater⟩
  have read := reads firstTokens (laterTokens ++ rest) spelledFirst
    (meet laterTokens rest spelledLater follows)
  rw [List.append_assoc, bind_of_ok read]
  exact readsNext laterTokens rest spelledLater follows

theorem Reads.map {parser : Parser α} {words : List Word} {result : α}
    {follow : List Token → Prop} (map : α → β) (reads : Reads parser words result follow) :
    Reads (map <$> parser) words (map result) follow :=
  fun written rest spelled follows => map_of_ok map (reads written rest spelled follows)

theorem Reads.bind_return {parser : Parser α} {words : List Word} {result : α}
    {follow : List Token → Prop} (map : α → β) (reads : Reads parser words result follow) :
    Reads (parser >>= fun result => return map result) words (map result) follow := by
  intro written rest spelled follows
  rw [bind_of_ok (reads written rest spelled follows)]
  rfl

theorem Reads.weaken {parser : Parser α} {words : List Word} {result : α}
    {follow stricter : List Token → Prop} (reads : Reads parser words result follow)
    (implies : ∀ rest, stricter rest → follow rest) : Reads parser words result stricter :=
  fun written rest spelled follows => reads written rest spelled (implies rest follows)

theorem reads_return (result : α) (follow : List Token → Prop) :
    Reads (return result) [] result follow := by
  intro written rest spelled follows
  cases spelled
  rfl

/-- A parser that does something behind a mark reads the mark as well. -/
theorem Reads.marked {parser inner : Parser α} {kind : Kind} {words : List Word} {result : α}
    {follow : List Token → Prop} (reads : Reads inner words result follow)
    (dispatch : ∀ token rest, token.kind = kind → parser (token :: rest) = inner rest) :
    Reads parser (.mark kind :: words) result follow := by
  intro written rest spelled follows
  rcases spelled with _ | ⟨isKind, tail⟩
  rename_i token tokens
  rw [List.cons_append, dispatch token (tokens ++ rest) isKind]
  exact reads tokens rest tail follows

/-- Reading a mark and going on. -/
theorem Reads.expect_bind {kind : Kind} {expectation : Expectation} {next : Unit → Parser β}
    {words : List Word} {value : β} {follow : List Token → Prop}
    (reads : Reads (next ()) words value follow) :
    Reads (discard (expect kind expectation) >>= next) (.mark kind :: words) value follow := by
  intro written rest spelled follows
  rcases spelled with _ | ⟨isKind, tail⟩
  rename_i token tokens
  have taken : discard (expect kind expectation) (token :: (tokens ++ rest)) =
      .ok ((), tokens ++ rest) := by
    have sameKind : token.kind = kind := isKind
    apply map_of_ok
    rw [expect, if_pos sameKind]
  rw [List.cons_append, bind_of_ok taken]
  exact reads tokens rest tail follows

theorem reads_expect_return {kind : Kind} {expectation : Expectation} (value : β)
    (follow : List Token → Prop) :
    Reads (discard (expect kind expectation) >>= fun _ => return value) [.mark kind] value
      follow := by
  apply Reads.expect_bind
  exact reads_return value follow

/-- Reading a name and going on with its token. -/
theorem Reads.name_bind {expectation : Expectation} {next : Token → Parser β} {name : String}
    {words : List Word} {value : β} {follow : List Token → Prop}
    (reads : ∀ token, token.text = name → Reads (next token) words value follow) :
    Reads (expect .identifier expectation >>= next) (.name name :: words) value follow := by
  intro written rest spelled follows
  rcases spelled with _ | ⟨⟨isName, named⟩, tail⟩
  rename_i token tokens
  have taken : expect .identifier expectation (token :: (tokens ++ rest)) =
      .ok (token, tokens ++ rest) := by
    rw [expect, if_pos isName]
  rw [List.cons_append, bind_of_ok taken]
  exact reads token named tokens rest tail follows

/-- Tokens that end an expression or a call in front of them. -/
structure Ends (rest : List Token) : Prop where
  endsExpression : endsExpression rest
  noAssign : startsWith .assign rest = false

/-- Tokens with which a single token does not go on. -/
structure Breaks (rest : List Token) : Prop where
  noOperator : startsWithOperator rest = false
  noAssign : startsWith .assign rest = false

theorem Ends.breaks {rest : List Token} (ends : Ends rest) : Breaks rest := by
  rcases ends with ⟨endsExpression, noAssign⟩
  refine ⟨?_, noAssign⟩
  cases rest with
  | nil => rfl
  | cons token rest =>
      simp only [Parser.endsExpression, startsWithOperator] at *
      cases isKind : token.kind <;> simp_all [Kind.endsExpression]

/-- A mark that ends expressions does so as the first token. -/
theorem ends_of_kind {token : Token} {rest : List Token} (ends : token.kind.endsExpression)
    (noAssign : token.kind ≠ .assign) : Ends (token :: rest) := by
  refine ⟨?_, by simpa [startsWith] using noAssign⟩
  simp only [Parser.endsExpression]
  split
  · rename_i isKind
    rw [isKind] at ends
    cases ends
  · exact ends

theorem chain_of_breaks {tier : Tier} {operand : Parser Expr} {left : Expr} {rest : List Token}
    {fuel : Nat} (breaks : Breaks rest) :
    chain tier operand (fuel + 1) left rest = .ok (left, rest) := by
  have stops : operator? tier rest = none := by
    cases rest with
    | nil => rfl
    | cons token rest =>
        have noOperator := breaks.noOperator
        simp only [startsWithOperator, operator?] at *
        cases isKind : token.kind <;> simp_all
  simp only [chain, stops]

theorem tiered_of_breaks {tier : Tier} {operand : Parser Expr} {result : Expr}
    {tokens rest : List Token} {fuel : Nat} (read : operand tokens = .ok (result, rest))
    (breaks : Breaks rest) : tiered tier operand (fuel + 1) tokens = .ok (result, rest) := by
  rw [tiered, bind_of_ok read, chain_of_breaks breaks]

theorem expression_of_primary {result : Expr} {token : Token} {tokens rest : List Token}
    {fuel : Nat}
    (read : primary (expression (fuel + 1)) (fuel + 1) (token :: tokens) = .ok (result, rest))
    (notNegate : token.kind ≠ .negate) (breaks : Breaks rest) :
    expression (fuel + 2) (token :: tokens) = .ok (result, rest) := by
  have single : unary (primary (expression (fuel + 1)) (fuel + 1)) (token :: tokens) =
      .ok (result, rest) := by
    rw [unary, if_neg notNegate, read]
  rw [expression]
  exact tiered_of_breaks (tiered_of_breaks (tiered_of_breaks single breaks) breaks) breaks

theorem primary_of_word {expr : Expr} {word : Word} (single : expr.word? = some word)
    {token : Token} (spelled : word.SpelledBy token) (expression : Parser Expr) (fuel : Nat)
    (rest : List Token) : primary expression fuel (token :: rest) = .ok (expr, rest) := by
  simp only [Expr.word?] at single
  split at single
  · cases single
    rcases spelled with ⟨isKind, rfl⟩
    rw [primary, isKind]
  · cases single
    rcases spelled with ⟨isKind, rfl⟩
    rw [primary, isKind]
  · cases single
    rcases spelled with ⟨isKind, number⟩
    rw [primary, isKind, number]
  · cases single
    have isKind : token.kind = .sentinel _ := spelled
    rw [primary, isKind]
  · cases single

theorem kind_of_word {expr : Expr} {word : Word} (single : expr.word? = some word) {token : Token}
    (spelled : word.SpelledBy token) :
    token.kind = .identifier ∨ token.kind = .string ∨ token.kind = .realNumber ∨
      ∃ constant, token.kind = .sentinel constant := by
  simp only [Expr.word?] at single
  split at single
  · cases single
    exact .inl spelled.1
  · cases single
    exact .inr (.inl spelled.1)
  · cases single
    exact .inr (.inr (.inl spelled.1))
  · cases single
    exact .inr (.inr (.inr ⟨_, spelled⟩))
  · cases single

theorem reads_token {expr : Expr} {word : Word} (single : expr.word? = some word) (fuel : Nat) :
    Reads (expression (fuel + 2)) [word] expr Breaks := by
  intro written rest spelled breaks
  rcases spelled with _ | ⟨head, _ | _⟩
  refine expression_of_primary (primary_of_word single head _ _ _) ?_ breaks
  rcases kind_of_word single head with isKind | isKind | isKind | ⟨constant, isKind⟩ <;>
    simp [isKind]

/-- A single token goes on with a run of expressions, unless an assignment begins with it. -/
theorem not_endsExpression_of_word {expr : Expr} {word : Word} (single : expr.word? = some word)
    {token : Token} (spelled : word.SpelledBy token) {rest : List Token} (breaks : Breaks rest) :
    endsExpression (token :: rest) = false := by
  have noAssign := breaks.noAssign
  rcases kind_of_word single spelled with isKind | isKind | isKind | ⟨constant, isKind⟩ <;>
    simp [endsExpression, isKind, noAssign, Kind.endsExpression]

theorem breaks_of_words {arguments : List Expr} (tokens : arguments.all Expr.isToken)
    {written rest : List Token} (spelled : Spelled (arguments.filterMap Expr.word?) written)
    (ends : Ends rest) : Breaks (written ++ rest) := by
  cases arguments with
  | nil =>
      cases spelled
      exact ends.breaks
  | cons first arguments =>
      rw [List.all_cons, Bool.and_eq_true] at tokens
      rcases Option.isSome_iff_exists.mp tokens.1 with ⟨word, single⟩
      rw [List.filterMap_cons_some single] at spelled
      rcases spelled with _ | ⟨head, tail⟩
      constructor <;>
        rcases kind_of_word single head with isKind | isKind | isKind | ⟨constant, isKind⟩ <;>
          simp [startsWithOperator, startsWith, isKind]

/-- The arguments of a call are single tokens, and end where an expression does. -/
theorem reads_arguments {arguments : List Expr} (tokens : arguments.all Expr.isToken)
    (fuel : Nat) {rounds : Nat} (enough : arguments.length < rounds) :
    Reads (Parser.arguments (expression (fuel + 2)) rounds) (arguments.filterMap Expr.word?)
      arguments Ends := by
  induction arguments generalizing rounds with
  | nil =>
      intro written rest spelled ends
      cases spelled
      cases rounds with
      | zero => cases enough
      | succ rounds => simp only [List.nil_append, Parser.arguments, ends.endsExpression, if_true]
  | cons first arguments ih =>
      intro written rest spelled ends
      cases rounds with
      | zero => cases enough
      | succ rounds =>
          rw [List.all_cons, Bool.and_eq_true] at tokens
          rcases tokens with ⟨isToken, areTokens⟩
          rcases Option.isSome_iff_exists.mp isToken with ⟨word, single⟩
          rw [List.filterMap_cons_some single] at spelled
          have readsLater := ih areTokens (Nat.lt_of_succ_lt_succ enough)
          have reads : Reads
              (expression (fuel + 2) >>= fun first =>
                Parser.arguments (expression (fuel + 2)) rounds >>= fun later =>
                  return first :: later)
              (word :: arguments.filterMap Expr.word?) (first :: arguments) Ends := by
            refine (reads_token single fuel).bind (readsLater.bind_return (first :: ·)) ?_
            intro written rest spelled ends
            exact breaks_of_words areTokens spelled ends
          have read := reads written rest spelled ends
          rcases spelled with _ | ⟨head, tail⟩
          have breaks := breaks_of_words areTokens tail ends
          have goesOn := not_endsExpression_of_word single head breaks
          simp only [List.cons_append, Parser.arguments, goesOn]
          exact read

theorem reads_call (callee : Callee) {arguments : List Expr}
    (tokens : arguments.all Expr.isToken) (fuel : Nat) {rounds : Nat}
    (enough : arguments.length < rounds) :
    Reads (call (expression (fuel + 2)) rounds)
      (callee.word :: arguments.filterMap Expr.word?) (callee, arguments) Ends := by
  intro written rest spelled ends
  rcases spelled with _ | ⟨head, tail⟩
  have run := (reads_arguments tokens fuel enough).map (Prod.mk callee) _ _ tail ends
  cases callee with
  | named name =>
      rcases head with ⟨isKind, rfl⟩
      rw [List.cons_append, call, isKind]
      exact run
  | embedded =>
      have isKind : Token.kind _ = .colon := head
      rw [List.cons_append, call, isKind]
      exact run

theorem length_filterMap_word {arguments : List Expr} (tokens : arguments.all Expr.isToken) :
    (arguments.filterMap Expr.word?).length = arguments.length := by
  rw [List.filterMap_length_eq_length]
  intro argument member
  exact List.all_eq_true.mp tokens argument member

theorem length_callWords {callee : Callee} {arguments : List Expr}
    (tokens : arguments.all Expr.isToken) :
    (callWords callee arguments).length = arguments.length + 2 := by
  simp only [callWords, List.length_cons, length_filterMap_word tokens]

theorem words_of_word {expr : Expr} {word : Word} (single : expr.word? = some word) :
    expr.words = [word] := by
  cases expr <;> simp_all [Expr.word?, Expr.words]

theorem word_or_call_of_isSimple {expr : Expr} (simple : expr.isSimple) :
    (∃ word, expr.word? = some word) ∨
      ∃ callee arguments, expr = .call callee arguments ∧ arguments.all Expr.isToken := by
  cases expr with
  | call callee arguments => exact .inr ⟨callee, arguments, rfl, simple⟩
  | _ =>
      simp only [Expr.isSimple, Expr.isToken] at simple
      exact .inl (Option.isSome_iff_exists.mp simple)

/-- A simple expression is read off any spelling of its words. -/
theorem reads_expression {expr : Expr} (simple : expr.isSimple) {fuel : Nat}
    (enough : expr.words.length < fuel) : Reads (expression fuel) expr.words expr Ends := by
  rcases word_or_call_of_isSimple simple with
    ⟨word, single⟩ | ⟨callee, arguments, rfl, tokens⟩
  · rw [words_of_word single] at enough ⊢
    rw [List.length_singleton] at enough
    rcases Nat.exists_eq_add_of_le' enough with ⟨fuel, rfl⟩
    exact (reads_token single fuel).weaken fun _ ends => ends.breaks
  · have length : arguments.length + 3 ≤ fuel := by
      rw [Expr.words, length_callWords tokens] at enough
      exact enough
    rcases Nat.exists_eq_add_of_le' length with ⟨more, rfl⟩
    intro written rest spelled ends
    rcases spelled with _ | ⟨isKind, tail⟩
    rename_i token written
    have isCallMark : token.kind = .callMark := isKind
    have rounds : arguments.length < more + arguments.length + 2 := by omega
    have read := reads_call callee tokens (more + arguments.length) rounds written rest tail ends
    have called : primary (expression (more + arguments.length + 2))
        (more + arguments.length + 2) (token :: (written ++ rest)) =
          .ok (.call callee arguments, rest) := by
      rw [primary, isCallMark]
      exact map_of_ok _ read
    refine expression_of_primary called ?_ ends.breaks
    rw [isCallMark]
    exact Kind.noConfusion

end Parser

end Mel

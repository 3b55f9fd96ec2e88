import Mel.Program.Parser

/-!
# What parsers take from their tokens

A parser leaves some last tokens of those it was given, and where it refuses it stands in
front of some last tokens too. The names and numbers of what it reads are taken from the
tokens. Both are proved of every parser here, from the parts of it, and in the end of whole
programs and expressions.
-/

namespace Mel

/-- What a program has from the texts of its tokens, strings apart. -/
inductive Atom where
  /-- A name that stands for a value. -/
  | variable (name : String)
  /-- A name that is bound, or called. -/
  | symbol (name : String)
  | number (literal : RealLiteral)
deriving DecidableEq, Repr

/-- Is a token the place that a name or a number is written at? -/
def Atom.IsOf : Atom → Token → Prop
  | .variable name, token | .symbol name, token => token.kind = .identifier ∧ token.text = name
  | .number literal, token =>
      token.kind = .realNumber ∧ RealLiteral.ofText? token.text = some literal

def Callee.atoms : Callee → List Atom
  | .named name => [.symbol name]
  | .embedded => []

namespace Expr

mutual

/-- The names and numbers of an expression. An operand that plays no part has none. -/
def atoms : Expr → List Atom
  | .variable name => [.variable name]
  | .real literal => [.number literal]
  | .string _ | .sentinel _ | .bits _ | .raise _ => []
  | .array elements => atomsOfAll elements
  | .negate operand => atoms operand
  | .binary _ left right => atoms left ++ atoms right
  | .suffix _ operand _ => atoms operand
  | .call callee arguments => callee.atoms ++ atomsOfAll arguments

def atomsOfAll : List Expr → List Atom
  | [] => []
  | expression :: expressions => atoms expression ++ atomsOfAll expressions

end

end Expr

mutual

/-- The names and numbers of a statement. -/
def Statement.atoms : Statement → List Atom
  | .assign name value => .symbol name :: value.atoms
  | .input name => [.symbol name]
  | .output value | .outputMany _ value | .giveBack (some value) => value.atoms
  | .call callee arguments => callee.atoms ++ Expr.atomsOfAll arguments
  | .define name parameters body => .symbol name :: parameters.map .symbol ++ blockAtoms body
  | .giveBack none | .raise _ => []
  | .conditional condition body fallback => condition.atoms ++ blockAtoms body ++ fallback.atoms
  | .whileLoop condition body => condition.atoms ++ blockAtoms body
  | .forLoop name range body => .symbol name :: range.atoms ++ blockAtoms body
  | .attempt body handler => blockAtoms body ++ blockAtoms handler

def blockAtoms : List Statement → List Atom
  | [] => []
  | statement :: statements => statement.atoms ++ blockAtoms statements

def Fallback.atoms : Fallback → List Atom
  | .nothing => []
  | .otherwise body => blockAtoms body
  | .elseIf condition body fallback => condition.atoms ++ blockAtoms body ++ fallback.atoms

end

theorem blockAtoms_append (first later : Block) :
    blockAtoms (first ++ later) = blockAtoms first ++ blockAtoms later := by
  induction first with
  | nil => rfl
  | cons statement statements ih => simp only [List.cons_append, blockAtoms, ih, List.append_assoc]

/-- All of the names and numbers are written at some of the tokens. -/
def TakenFrom (all : List Token) (atoms : List Atom) : Prop :=
  ∀ atom ∈ atoms, ∃ token ∈ all, atom.IsOf token

section

variable {all : List Token}

theorem takenFrom_nil : TakenFrom all [] := by
  intro atom member
  cases member

theorem takenFrom_cons {atom : Atom} {atoms : List Atom} :
    TakenFrom all (atom :: atoms) ↔ (∃ token ∈ all, atom.IsOf token) ∧ TakenFrom all atoms :=
  List.forall_mem_cons

theorem takenFrom_append {first later : List Atom} :
    TakenFrom all (first ++ later) ↔ TakenFrom all first ∧ TakenFrom all later :=
  List.forall_mem_append

theorem TakenFrom.append {first later : List Atom} (taken : TakenFrom all first)
    (takenLater : TakenFrom all later) : TakenFrom all (first ++ later) :=
  takenFrom_append.mpr ⟨taken, takenLater⟩

end

namespace Parser

variable {α β : Type} {all : List Token}

/-- The result is good, and what is left are some last ones of all tokens. -/
def Within (all : List Token) (good : α → Prop) : Except Refusal (α × List Token) → Prop
  | .ok (result, rest) => good result ∧ rest <:+ all
  | .error (.expected _ rest) => rest <:+ all
  | .error .outOfFuel => True

/-- Started anywhere in the tokens, the parser stays in them. -/
def StaysIn (all : List Token) (good : α → Prop) (parser : Parser α) : Prop :=
  ∀ tokens, tokens <:+ all → Within all good (parser tokens)

theorem staysIn_outOfFuel {good : α → Prop} : StaysIn all good (outOfFuel : Parser α) :=
  fun _ _ => trivial

theorem staysIn_return {good : α → Prop} {result : α} (isGood : good result) :
    StaysIn all good (return result : Parser α) :=
  fun _ within => ⟨isGood, within⟩

/-- What the first parser was found to give is known to the second one. -/
theorem StaysIn.bind {first : Parser α} {next : α → Parser β} {good : α → Prop}
    {goodNext : β → Prop} (stays : StaysIn all good first)
    (staysNext : ∀ result, good result → StaysIn all goodNext (next result)) :
    StaysIn all goodNext (first >>= next) := by
  intro tokens within
  have outcome := stays tokens within
  rw [bind_apply]
  cases isOutcome : first tokens with
  | error refusal =>
      rw [isOutcome] at outcome
      cases refusal <;> exact outcome
  | ok read =>
      rw [isOutcome] at outcome
      exact staysNext read.1 outcome.1 read.2 outcome.2

theorem StaysIn.map {parser : Parser α} {good : α → Prop} {goodMapped : β → Prop} {map : α → β}
    (stays : StaysIn all good parser) (isGood : ∀ result, good result → goodMapped (map result)) :
    StaysIn all goodMapped (map <$> parser) := by
  rw [map_eq_pure_bind]
  exact stays.bind fun result isResult => staysIn_return (isGood result isResult)

theorem staysIn_expect {kind : Kind} (expectation : Expectation) :
    StaysIn all (fun token => token ∈ all ∧ token.kind = kind) (expect kind expectation) := by
  intro tokens within
  cases tokens with
  | nil => exact within
  | cons token rest =>
      rw [expect]
      split
      · rename_i isKind
        exact ⟨⟨within.subset List.mem_cons_self, isKind⟩,
          (List.suffix_cons token rest).trans within⟩
      · exact within

theorem staysIn_discard {kind : Kind} (expectation : Expectation) :
    StaysIn all (fun _ => True) (discard (expect kind expectation)) :=
  (staysIn_expect expectation).map fun _ _ => trivial

/-- A parser that looks at its tokens first. -/
theorem staysIn_of_cases {parser : Parser α} {good : α → Prop}
    (ofNil : Within all good (parser []))
    (ofCons : ∀ token rest, token ∈ all → rest <:+ all → token :: rest <:+ all →
      Within all good (parser (token :: rest))) : StaysIn all good parser := by
  intro tokens within
  cases tokens with
  | nil => exact ofNil
  | cons token rest =>
      exact ofCons token rest (within.subset List.mem_cons_self)
        ((List.suffix_cons token rest).trans within) within

theorem exception?_suffix {tokens rest : List Token} {message : String}
    (split : exception? tokens = some (message, rest)) : rest <:+ tokens := by
  unfold exception? at split
  split at split
  · split at split
    · split at split <;> cases split <;> exact (List.suffix_append [_, _, _] _)
    · cases split
  · cases split

/-- Digits and the separators between them are taken one by one. -/
theorem bits_suffix (afterBit : Bool) (tokens : List Token) :
    (bits afterBit tokens).2 <:+ tokens := by
  induction tokens generalizing afterBit with
  | nil => exact List.suffix_refl []
  | cons token rest ih =>
      have laterBits (afterBit : Bool) : (bits afterBit rest).2 <:+ token :: rest :=
        (ih afterBit).trans (List.suffix_cons token rest)
      unfold bits
      split
      · exact laterBits true
      · exact laterBits true
      · exact laterBits false
      · exact List.suffix_refl _

theorem staysIn_parameters : StaysIn all (fun names => TakenFrom all (names.map .symbol))
    (fun tokens => .ok (parameters tokens)) := by
  intro tokens within
  change TakenFrom all ((parameters tokens).1.map .symbol) ∧ (parameters tokens).2 <:+ all
  induction tokens with
  | nil => exact ⟨takenFrom_nil, within⟩
  | cons token rest ih =>
      unfold parameters
      split
      · rename_i isName
        obtain ⟨taken, left⟩ := ih ((List.suffix_cons token rest).trans within)
        refine ⟨takenFrom_cons.mpr ⟨⟨token, within.subset List.mem_cons_self, isName.1, rfl⟩, ?_⟩,
          left⟩
        exact taken
      · exact ⟨takenFrom_nil, within⟩

/-- The parser takes expressions from the tokens. -/
abbrev Takes (all : List Token) (parser : Parser Expr) : Prop :=
  StaysIn all (fun expression => TakenFrom all expression.atoms) parser

theorem staysIn_arguments {expression : Parser Expr} (takes : Takes all expression) (fuel : Nat) :
    StaysIn all (fun items => TakenFrom all (Expr.atomsOfAll items))
      (arguments expression fuel) := by
  induction fuel with
  | zero => exact staysIn_outOfFuel
  | succ fuel ih =>
      intro tokens within
      simp only [arguments]
      split
      · exact ⟨takenFrom_nil, within⟩
      · refine StaysIn.bind takes (fun first isFirst => ?_) tokens within
        exact ih.bind fun later areLater => staysIn_return (isFirst.append areLater)

theorem staysIn_call {expression : Parser Expr} (takes : Takes all expression) (fuel : Nat) :
    StaysIn all (fun (callee, items) =>
      TakenFrom all (callee.atoms ++ Expr.atomsOfAll items)) (call expression fuel) := by
  refine staysIn_of_cases List.nil_suffix fun token rest member left within => ?_
  have takesItems := staysIn_arguments takes fuel
  rw [call]
  split
  · refine takesItems.map ?_ rest left
    exact fun items areItems => areItems
  · rename_i isName
    refine takesItems.map (fun items areItems => ?_) rest left
    exact takenFrom_cons.mpr ⟨⟨token, member, isName, rfl⟩, areItems⟩
  · exact within

theorem staysIn_elements {expression : Parser Expr} (takes : Takes all expression) (fuel : Nat) :
    StaysIn all (fun items => TakenFrom all (Expr.atomsOfAll items))
      (elements expression fuel) := by
  induction fuel with
  | zero => exact staysIn_outOfFuel
  | succ fuel ih =>
      refine staysIn_of_cases ⟨takenFrom_nil, List.nil_suffix⟩ fun token rest _ left within => ?_
      simp only [elements]
      split
      · refine StaysIn.bind takes (fun first isFirst => ?_) rest left
        exact ih.bind fun later areLater => staysIn_return (isFirst.append areLater)
      · exact ⟨takenFrom_nil, within⟩

theorem takes_array {expression : Parser Expr} (takes : Takes all expression) (fuel : Nat) :
    Takes all (array expression fuel) := by
  intro tokens within
  rw [array]
  split
  · exact ⟨takenFrom_nil, (List.drop_suffix 1 tokens).trans within⟩
  · refine StaysIn.bind takes (fun first isFirst => ?_) tokens within
    refine (staysIn_elements takes fuel).bind fun later areLater => ?_
    refine (staysIn_discard .arrayEnd).bind fun _ _ => ?_
    exact staysIn_return (isFirst.append areLater)

theorem takes_grouped {expression : Parser Expr} (takes : Takes all expression) :
    Takes all (grouped expression) := by
  refine StaysIn.bind takes fun inner isInner => ?_
  exact (staysIn_discard .closingParen).bind fun _ _ => staysIn_return isInner

/-- A primary is one token with what it opens, and its name or number is written there. -/
theorem takes_primary {expression : Parser Expr} (takes : Takes all expression) (fuel : Nat) :
    Takes all (primary expression fuel) := by
  refine staysIn_of_cases List.nil_suffix fun token rest member left within => ?_
  rw [primary]
  split
  · exact ⟨takenFrom_nil, left⟩
  · exact ⟨takenFrom_nil, left⟩
  · rename_i isNumber
    split
    · rename_i literal isLiteral
      exact ⟨takenFrom_cons.mpr ⟨⟨token, member, isNumber, isLiteral⟩, takenFrom_nil⟩, left⟩
    · exact within
  · exact ⟨takenFrom_nil, (bits_suffix false rest).trans left⟩
  · rename_i isName
    exact ⟨takenFrom_cons.mpr ⟨⟨token, member, isName, rfl⟩, takenFrom_nil⟩, left⟩
  · exact takes_array takes fuel rest left
  · split
    · rename_i isException
      exact ⟨takenFrom_nil, (exception?_suffix isException).trans within⟩
    · exact takes_grouped takes rest left
  · refine (staysIn_call takes fuel).map ?_ rest left
    exact fun callee isCall => isCall
  · exact within

theorem takes_unary {single : Parser Expr} (takes : Takes all single) :
    Takes all (unary single) := by
  refine staysIn_of_cases (takes [] List.nil_suffix) fun token rest _ left within => ?_
  rw [unary]
  split
  · refine StaysIn.map takes ?_ rest left
    exact fun operand isOperand => isOperand
  · exact takes _ within

theorem operator?_suffix {tier : Tier} {tokens rest : List Token} {operator : Operator}
    (split : operator? tier tokens = some (operator, rest)) : rest <:+ tokens := by
  cases tokens with
  | nil => cases split
  | cons token later =>
      simp only [operator?] at split
      split at split
      · split at split <;> cases split
        exact List.suffix_cons token rest
      · cases split

theorem takes_afterOperator {operand : Parser Expr} (takes : Takes all operand) {left : Expr}
    (isLeft : TakenFrom all left.atoms) (operator : Operator) :
    Takes all (afterOperator operand left operator) := by
  intro tokens within
  rw [afterOperator]
  split
  · split
    · exact ⟨isLeft, within⟩
    · refine StaysIn.map takes ?_ tokens within
      exact fun trailing _ => isLeft
  · refine StaysIn.map takes ?_ tokens within
    exact fun right isRight => isLeft.append isRight

/-- A chain gathers operands that were all taken from the tokens. -/
theorem takes_chain (tier : Tier) {operand : Parser Expr} (takes : Takes all operand)
    (fuel : Nat) {left : Expr} (isLeft : TakenFrom all left.atoms) :
    Takes all (chain tier operand fuel left) := by
  induction fuel generalizing left with
  | zero => exact staysIn_outOfFuel
  | succ fuel ih =>
      intro tokens within
      simp only [chain]
      split
      · exact ⟨isLeft, within⟩
      · rename_i operator rest isOperator
        refine StaysIn.bind (takes_afterOperator takes isLeft operator)
          (fun combined isCombined => ih isCombined) rest ?_
        exact (operator?_suffix isOperator).trans within

theorem takes_tiered (tier : Tier) {operand : Parser Expr} (takes : Takes all operand)
    (fuel : Nat) : Takes all (tiered tier operand fuel) :=
  StaysIn.bind takes fun _ isFirst => takes_chain tier takes fuel isFirst

/-- Every expression that is read has its names and numbers from the tokens. -/
theorem takes_expression (fuel : Nat) : Takes all (expression fuel) := by
  induction fuel with
  | zero => exact staysIn_outOfFuel
  | succ fuel ih =>
      have single := takes_unary (takes_primary ih fuel)
      have term := takes_tiered .term single fuel
      have sum := takes_tiered .additive term fuel
      exact takes_tiered .comparison sum fuel

/-- The parser takes statements from the tokens. -/
abbrev TakesStatement (all : List Token) (parser : Parser Statement) : Prop :=
  StaysIn all (fun statement => TakenFrom all statement.atoms) parser

abbrev TakesBlock (all : List Token) (parser : Parser Block) : Prop :=
  StaysIn all (fun statements => TakenFrom all (blockAtoms statements)) parser

theorem takes_block {statement : Parser Statement} (takes : TakesStatement all statement)
    (owner : BlockOwner) (fuel : Nat) : TakesBlock all (block statement owner fuel) := by
  induction fuel with
  | zero => exact staysIn_outOfFuel
  | succ fuel ih =>
      refine staysIn_of_cases List.nil_suffix fun token rest _ _ within => ?_
      simp only [block]
      split
      · exact ⟨takenFrom_nil, within⟩
      · split
        · exact within
        · refine StaysIn.bind takes (fun first isFirst => ?_) _ within
          exact ih.bind fun later areLater => staysIn_return (isFirst.append areLater)

theorem takes_giveBack {expression : Parser Expr} (takes : Takes all expression) :
    TakesStatement all (giveBack expression) := by
  intro tokens within
  rw [giveBack]
  split
  · exact ⟨takenFrom_nil, within⟩
  · refine StaysIn.map takes ?_ tokens within
    exact fun value isValue => isValue

theorem takes_finalReturn {expression : Parser Expr} (takes : Takes all expression) :
    TakesBlock all (finalReturn expression) := by
  refine staysIn_of_cases ⟨takenFrom_nil, List.nil_suffix⟩ fun token rest _ left within => ?_
  rw [finalReturn]
  split
  · refine StaysIn.map (takes_giveBack takes) ?_ rest left
    exact fun statement isStatement => isStatement.append takenFrom_nil
  · exact ⟨takenFrom_nil, within⟩

section

variable {expression : Parser Expr} {body : BlockOwner → Parser Block}

theorem takesName_expect (expectation : Expectation) :
    StaysIn all (fun name => TakenFrom all [.symbol name.text])
      (expect .identifier expectation) := by
  intro tokens within
  have stays : Within all (fun token => token ∈ all ∧ token.kind = .identifier)
      (expect .identifier expectation tokens) := staysIn_expect expectation tokens within
  cases outcome : expect .identifier expectation tokens with
  | error refusal =>
      rw [outcome] at stays
      cases refusal <;> exact stays
  | ok read =>
      rw [outcome] at stays
      obtain ⟨⟨member, isName⟩, left⟩ := stays
      exact ⟨takenFrom_cons.mpr ⟨⟨read.1, member, isName, rfl⟩, takenFrom_nil⟩, left⟩

theorem takes_define (takes : Takes all expression)
    (takesBody : ∀ owner, TakesBlock all (body owner)) :
    TakesStatement all (define expression body) := by
  refine (takesName_expect .functionName).bind fun name isName => ?_
  refine StaysIn.bind staysIn_parameters fun names areNames => ?_
  refine (takesBody .function).bind fun statements areStatements => ?_
  refine (takes_finalReturn takes).bind fun final isFinal => staysIn_return ?_
  have whole := (isName.append areNames).append (areStatements.append isFinal)
  rwa [← blockAtoms_append] at whole

theorem takes_fallback (takes : Takes all expression)
    (takesBody : ∀ owner, TakesBlock all (body owner)) (fuel : Nat) :
    StaysIn all (fun fallback => TakenFrom all fallback.atoms)
      (fallback expression body fuel) := by
  induction fuel with
  | zero => exact staysIn_outOfFuel
  | succ fuel ih =>
      intro tokens within
      have left : tokens.drop 1 <:+ all := (List.drop_suffix 1 tokens).trans within
      simp only [fallback]
      split
      · refine StaysIn.bind takes (fun condition isCondition => ?_) _ left
        refine (takesBody .branch).bind fun statements areStatements => ?_
        refine ih.bind fun later isLater => ?_
        exact staysIn_return ((isCondition.append areStatements).append isLater)
      · split
        · refine StaysIn.bind (takesBody .lastBranch) (fun statements areStatements => ?_) _ left
          exact (staysIn_discard .conditionalEnd).bind fun _ _ => staysIn_return areStatements
        · refine StaysIn.bind (staysIn_discard .conditionalEnd) (fun _ _ => ?_) _ within
          exact staysIn_return takenFrom_nil

theorem takes_conditional (takes : Takes all expression)
    (takesBody : ∀ owner, TakesBlock all (body owner)) (fuel : Nat) :
    TakesStatement all (conditional expression body fuel) := by
  refine StaysIn.bind takes fun condition isCondition => ?_
  refine (takesBody .branch).bind fun statements areStatements => ?_
  refine (takes_fallback takes takesBody fuel).bind fun later isLater => ?_
  exact staysIn_return ((isCondition.append areStatements).append isLater)

theorem takes_loopBody (takesBody : ∀ owner, TakesBlock all (body owner)) :
    TakesBlock all (loopBody body) := by
  refine (takesBody .loop).bind fun statements areStatements => ?_
  exact (staysIn_discard .loopEnd).bind fun _ _ => staysIn_return areStatements

theorem takes_whileLoop (takes : Takes all expression)
    (takesBody : ∀ owner, TakesBlock all (body owner)) :
    TakesStatement all (whileLoop expression body) := by
  refine StaysIn.bind takes fun condition isCondition => ?_
  refine (takes_loopBody takesBody).bind fun statements areStatements => ?_
  exact staysIn_return (isCondition.append areStatements)

theorem takes_forLoop (takes : Takes all expression)
    (takesBody : ∀ owner, TakesBlock all (body owner)) :
    TakesStatement all (forLoop expression body) := by
  refine (takesName_expect .loopVariable).bind fun name isName => ?_
  refine StaysIn.bind takes fun range isRange => ?_
  refine (takes_loopBody takesBody).bind fun statements areStatements => ?_
  exact staysIn_return ((isName.append isRange).append areStatements)

theorem takes_attempt (takesBody : ∀ owner, TakesBlock all (body owner)) :
    TakesStatement all (attempt body) := by
  refine (takesBody .attempt).bind fun statements areStatements => ?_
  refine (staysIn_discard .catchMark).bind fun _ _ => ?_
  refine (takesBody .handler).bind fun handler isHandler => ?_
  exact staysIn_return (areStatements.append isHandler)

/-- A statement is read by its first token, so there is one case for each kind of statement. -/
theorem takes_statementWith (takes : Takes all expression)
    (takesBody : ∀ owner, TakesBlock all (body owner)) (fuel : Nat) :
    TakesStatement all (statementWith expression body fuel) := by
  refine staysIn_of_cases List.nil_suffix fun token rest member left within => ?_
  rw [statementWith]
  split
  · rename_i isName
    split
    · refine StaysIn.map takes ?_ _ ((List.drop_suffix 1 rest).trans left)
      exact fun value isValue => takenFrom_cons.mpr ⟨⟨token, member, isName, rfl⟩, isValue⟩
    · exact within
  · exact takes_define takes takesBody rest left
  · refine (staysIn_call takes fuel).map ?_ rest left
    exact fun callee isCall => isCall
  · refine StaysIn.map takes ?_ rest left
    exact fun value isValue => isValue
  · refine StaysIn.map takes ?_ rest left
    exact fun count isCount => isCount
  · refine (takesName_expect .variableName).map ?_ rest left
    exact fun name isName => isName
  · exact takes_conditional takes takesBody fuel rest left
  · exact takes_whileLoop takes takesBody rest left
  · exact takes_forLoop takes takesBody rest left
  · exact takes_attempt takesBody rest left
  · exact takes_giveBack takes rest left
  · split
    · rename_i isException
      exact ⟨takenFrom_nil, (exception?_suffix isException).trans within⟩
    · exact within
  · exact within

end

theorem takes_statement (fuel : Nat) : TakesStatement all (statement fuel) := by
  induction fuel with
  | zero => exact staysIn_outOfFuel
  | succ fuel ih =>
      exact takes_statementWith (takes_expression fuel)
        (fun owner => takes_block ih owner fuel) fuel

theorem takes_program (fuel : Nat) : TakesBlock all (program fuel) := by
  refine (staysIn_discard .programStart).bind fun _ _ => ?_
  refine (takes_block (takes_statement fuel) .program fuel).bind fun statements areStatements => ?_
  exact (staysIn_discard .programEnd).bind fun _ _ => staysIn_return areStatements

theorem run_eq_ok {parser : Parser α} {good : α → Prop} {tokens : List Token}
    (stays : StaysIn tokens good parser) {result : α} (read : parser.run tokens = .ok result) :
    good result := by
  have outcome := stays tokens (List.suffix_refl tokens)
  unfold run at read
  split at read <;> cases read
  rename_i isOutcome
  rw [isOutcome] at outcome
  exact outcome.1

/-- A refusal is located in front of some last tokens of all. -/
theorem run_eq_error {parser : Parser α} {good : α → Prop} {tokens : List Token}
    (stays : StaysIn tokens good parser) {error : ParseError}
    (read : parser.run tokens = .error error) :
    ∃ expectation rest, rest <:+ tokens ∧ error = .locate tokens rest expectation := by
  have outcome := stays tokens (List.suffix_refl tokens)
  unfold run at read
  split at read
  · cases read
  · rename_i expectation rest isOutcome
    cases read
    rw [isOutcome] at outcome
    exact ⟨expectation, rest, outcome, rfl⟩
  · cases read
    exact ⟨_, tokens, List.suffix_refl tokens, rfl⟩

end Parser

theorem takenFrom_parseProgram {tokens : List Token} {program : Block}
    (read : parseProgram tokens = .ok program) : TakenFrom tokens (blockAtoms program) :=
  Parser.run_eq_ok (Parser.takes_program _) read

end Mel

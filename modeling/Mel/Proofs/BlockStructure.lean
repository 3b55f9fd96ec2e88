import Mel.Proofs.RoundTrip

/-!
# The structure of what is read

Whatever is read as a program has the canonical block structure. A block is read up to
a token that closes it, so none of its statements begins with such a token, and the token
that ends a function or a handler is the one that begins the next statement or closes the
block around it. Both are carried through the nesting: of every statement that is read,
its first token and the token behind it are known.
-/

namespace Mel

namespace Statement

theorem mayPrecede_of_tolerates_head {statement next : Statement} (outermost : Bool)
    (tolerates : statement.tolerates next.head) : statement.mayPrecede outermost (some next) := by
  cases statement with
  | define name parameters body =>
      simp only [Statement.tolerates, Bool.or_eq_true, beq_iff_eq] at tolerates
      simp only [mayPrecede, Option.elim_some, Bool.or_eq_true]
      rcases tolerates with (returns | isDefine) | isEnd
      · exact .inl returns
      · right
        cases next <;> simp_all [head, isDefinition]
      · exact (Parser.head_ne_programEnd next isEnd).elim
  | attempt body handler =>
      simp only [Statement.tolerates, decide_eq_true_eq] at tolerates
      simp only [mayPrecede, Option.all_some, Bool.not_eq_true']
      by_contra plain
      exact head_not_mem_closing_of_isPlain (by simpa using plain) tolerates
  | _ => rfl

/-- What closes a block and does not begin its last statement lets that statement be the last. An
open function is the last statement of a whole program only. -/
theorem mayPrecede_of_tolerates_closer {statement : Statement} {owner : BlockOwner} {closer : Kind}
    (closes : closer ∈ owner.closing) (inside : statement.head ∉ owner.closing)
    (tolerates : statement.tolerates closer) : statement.mayPrecede (owner = .program) none := by
  cases statement with
  | define name parameters body =>
      simp only [Statement.tolerates, Bool.or_eq_true, beq_iff_eq] at tolerates
      simp only [mayPrecede, Option.elim_none, Bool.or_eq_true, decide_eq_true_eq]
      rcases tolerates with (returns | rfl) | rfl
      · exact .inl returns
      · exact (inside closes).elim
      · right
        cases owner <;> simp_all [BlockOwner.closing, head]
  | _ => rfl

theorem inside_function {statement : Statement}
    (inside : statement.head ∉ BlockOwner.function.closing) :
    (!statement.isDefinition) ∧ !statement.isReturn := by
  cases statement <;> simp_all [isDefinition, isReturn, head, BlockOwner.closing]

end Statement

theorem isCanonicalBlock_of_chained {outermost : Bool} {closer : Kind} {block : Block}
    (canonical : ∀ statement ∈ block, statement.isCanonical) (chained : Chained [closer] block)
    (last : ∀ statement ∈ block.getLast?,
      statement.tolerates closer → statement.mayPrecede outermost none) :
    isCanonicalBlock outermost block := by
  induction block with
  | nil => rfl
  | cons statement statements ih =>
      rcases chained with ⟨tolerated, chainedRest⟩
      simp only [isCanonicalBlock, Bool.and_eq_true]
      refine ⟨⟨?_, canonical statement List.mem_cons_self⟩, ?_⟩
      · cases statements with
        | nil => exact last statement rfl (tolerated closer List.mem_cons_self)
        | cons next statements =>
            exact statement.mayPrecede_of_tolerates_head outermost
              (tolerated next.head List.mem_cons_self)
      · apply ih (fun member isMember => canonical member (List.mem_cons_of_mem _ isMember))
          chainedRest
        intro other isLast
        apply last other
        cases statements with
        | nil => cases isLast
        | cons next statements => simpa using isLast

/-- A statement that tolerates everything can be put behind a block in front of the token that
begins it. -/
theorem chained_append {closer : Kind} {statements : Block} {last : Statement}
    (chained : Chained [last.head] statements) (tolerates : ∀ kind, last.tolerates kind) :
    Chained [closer] (statements ++ [last]) := by
  induction statements with
  | nil => exact ⟨fun kind _ => tolerates kind, trivial⟩
  | cons statement statements ih =>
      rcases chained with ⟨tolerated, chainedRest⟩
      refine ⟨?_, ih chainedRest⟩
      cases statements with
      | nil => exact tolerated
      | cons next statements => exact tolerated

namespace Parser

variable {α β : Type}

theorem ok_of_bind {first : Parser α} {next : α → Parser β} {tokens rest : List Token} {result : β}
    (read : (first >>= next) tokens = .ok (result, rest)) :
    ∃ middle later, first tokens = .ok (middle, later) ∧
      next middle later = .ok (result, rest) := by
  rw [bind_apply] at read
  cases outcome : first tokens with
  | error refusal =>
      rw [outcome] at read
      cases read
  | ok taken =>
      rw [outcome] at read
      exact ⟨taken.1, taken.2, rfl, read⟩

theorem ok_of_map {parser : Parser α} {map : α → β} {tokens rest : List Token} {result : β}
    (read : (map <$> parser) tokens = .ok (result, rest)) :
    ∃ taken, parser tokens = .ok (taken, rest) ∧ result = map taken := by
  rw [map_eq_pure_bind] at read
  rcases ok_of_bind read with ⟨taken, later, isTaken, returned⟩
  cases returned
  exact ⟨taken, isTaken, rfl⟩

/-- A statement as it is read off some tokens: of canonical structure, begun by the first token and
ended by the token behind it. -/
structure Stands (tokens rest : List Token) (statement : Statement) : Prop where
  canonical : statement.isCanonical
  starts : StartsIn [statement.head] tokens
  tolerated : ∀ token later, rest = token :: later → statement.tolerates token.kind

/-- A statement of canonical structure that begins with a token of some kind and has an end of its
own, so that anything can stand behind it. -/
structure Settled (kind : Kind) (statement : Statement) : Prop where
  canonical : statement.isCanonical
  head : statement.head = kind
  tolerates : ∀ other, statement.tolerates other

theorem Settled.stands {token : Token} {statement : Statement}
    (settled : Settled token.kind statement) (later rest : List Token) :
    Stands (token :: later) rest statement :=
  ⟨settled.canonical, ⟨token, later, rfl, by simp [settled.head]⟩,
    fun other _ _ => settled.tolerates other.kind⟩

/-- A block as it is read off some tokens, up to a token of the kind `closer`. -/
structure ClosedBy (closer : Kind) (owner : BlockOwner) (tokens rest : List Token)
    (statements : Block) : Prop where
  canonical : ∀ statement ∈ statements, statement.isCanonical
  inside : ∀ statement ∈ statements, statement.head ∉ owner.closing
  closes : closer ∈ owner.closing
  chained : Chained [closer] statements
  starts : StartsIn (followers [closer] statements) tokens
  stops : StartsIn [closer] rest

theorem ClosedBy.isCanonicalBlock {closer : Kind} {owner : BlockOwner} {tokens rest : List Token}
    {statements : Block} (closed : ClosedBy closer owner tokens rest statements) :
    isCanonicalBlock (owner = .program) statements := by
  apply isCanonicalBlock_of_chained closed.canonical closed.chained
  intro statement isLast
  exact Statement.mayPrecede_of_tolerates_closer closed.closes
    (closed.inside statement (List.mem_of_getLast? isLast))

theorem ClosedBy.cons {closer : Kind} {owner : BlockOwner} {tokens middle rest : List Token}
    {statement : Statement} {statements : Block} (stands : Stands tokens middle statement)
    (inside : statement.head ∉ owner.closing)
    (closed : ClosedBy closer owner middle rest statements) :
    ClosedBy closer owner tokens rest (statement :: statements) := by
  refine ⟨?_, ?_, closed.closes, ⟨?_, closed.chained⟩, stands.starts, closed.stops⟩
  · exact List.forall_mem_cons.mpr ⟨stands.canonical, closed.canonical⟩
  · exact List.forall_mem_cons.mpr ⟨inside, closed.inside⟩
  · -- The token behind the statement is the only one that can follow it.
    rcases closed.starts with ⟨token, later, rfl, follows⟩
    have tolerated := stands.tolerated token later rfl
    intro kind isFollower
    cases statements with
    | nil => simp_all [followers]
    | cons next statements => simp_all [followers]

/-- A block is read statement by statement, each of which ends where the next one begins. -/
theorem closedBy_block {statement : Parser Statement} {owner : BlockOwner} {fuel : Nat}
    (reads : ∀ tokens rest result, statement tokens = .ok (result, rest) →
      Stands tokens rest result)
    {tokens rest : List Token} {statements : Block}
    (read : block statement owner fuel tokens = .ok (statements, rest)) :
    ∃ closer, ClosedBy closer owner tokens rest statements := by
  induction fuel generalizing tokens statements with
  | zero => cases read
  | succ fuel ih =>
      rcases tokens with _ | ⟨token, later⟩
      · cases read
      · simp only [block] at read
        split at read
        · rename_i closes
          cases read
          have starts : StartsIn [token.kind] (token :: later) :=
            ⟨token, later, rfl, List.mem_cons_self⟩
          exact ⟨token.kind, by simp, by simp, closes, trivial, starts, starts⟩
        · rename_i isOpen
          split at read
          · cases read
          · rcases ok_of_bind read with ⟨first, middle, readFirst, readLater⟩
            rcases ok_of_bind readLater with ⟨others, _, readOthers, returned⟩
            cases returned
            have stands := reads _ _ _ readFirst
            rcases ih readOthers with ⟨closer, closed⟩
            refine ⟨closer, closed.cons stands ?_⟩
            rcases stands.starts with ⟨_, _, isFirst, isHead⟩
            cases isFirst
            rwa [← List.mem_singleton.mp isHead]

section

variable {expression : Parser Expr} {body : BlockOwner → Parser Block}
  (closed : ∀ owner tokens rest statements, body owner tokens = .ok (statements, rest) →
    ∃ closer, ClosedBy closer owner tokens rest statements)
  {tokens rest : List Token}

include closed in
theorem canonical_of_body {owner : BlockOwner} (inner : owner ≠ .program) {statements : Block}
    (read : body owner tokens = .ok (statements, rest)) : isCanonicalBlock false statements := by
  rcases closed owner tokens rest statements read with ⟨closer, isClosed⟩
  simpa [inner] using isClosed.isCanonicalBlock

theorem cases_of_finalReturn {final : Block}
    (read : finalReturn expression tokens = .ok (final, rest)) :
    (∃ value, final = [.giveBack value] ∧ StartsIn [.returnMark] tokens) ∨
      (final = [] ∧ rest = tokens ∧ ¬StartsIn [.returnMark] tokens) := by
  rcases tokens with _ | ⟨token, later⟩
  · cases read
    refine .inr ⟨rfl, rfl, ?_⟩
    rintro ⟨_, _, isEmpty, _⟩
    cases isEmpty
  · rw [finalReturn] at read
    split at read
    · rename_i isReturn
      have starts : StartsIn [.returnMark] (token :: later) :=
        ⟨token, later, rfl, List.mem_singleton.mpr isReturn⟩
      rcases ok_of_map read with ⟨statement, returned, rfl⟩
      left
      rw [giveBack] at returned
      split at returned
      · cases returned
        exact ⟨none, rfl, starts⟩
      · rcases ok_of_map returned with ⟨value, _, rfl⟩
        exact ⟨some value, rfl, starts⟩
    · rename_i noReturn
      cases read
      refine .inr ⟨rfl, rfl, ?_⟩
      rintro ⟨_, _, isFirst, isReturn⟩
      cases isFirst
      exact noReturn (List.mem_singleton.mp isReturn)

theorem StartsIn.unique {kind other : Kind} (starts : StartsIn [kind] tokens)
    (startsToo : StartsIn [other] tokens) : kind = other := by
  rcases starts with ⟨token, later, rfl, isKind⟩
  rcases startsToo with ⟨_, _, isFirst, isOther⟩
  cases isFirst
  rw [← List.mem_singleton.mp isKind, List.mem_singleton.mp isOther]

/-- The body of a function with the return behind it, if there is one. -/
theorem canonical_of_functionBody {closer : Kind} {middle : List Token} {statements final : Block}
    (isClosed : ClosedBy closer .function tokens middle statements)
    (readFinal : finalReturn expression middle = .ok (final, rest)) :
    isFunctionBody (statements ++ final) ∧ isCanonicalBlock false (statements ++ final) := by
  have inside := fun statement isMember =>
    Statement.inside_function (isClosed.inside statement isMember)
  rcases cases_of_finalReturn readFinal with ⟨value, rfl, isReturn⟩ | ⟨rfl, -, -⟩
  · constructor
    · simp only [isFunctionBody, List.dropLast_concat, Bool.and_eq_true, List.all_eq_true]
      refine ⟨?_, fun statement isMember => (inside statement isMember).2⟩
      intro statement isMember
      rcases List.mem_append.mp isMember with isInner | isFinal
      · exact (inside statement isInner).1
      · rw [List.mem_singleton.mp isFinal]
        rfl
    · have chained := isClosed.chained
      rw [isClosed.stops.unique isReturn] at chained
      have whole : Chained [closer] (statements ++ [.giveBack value]) :=
        chained_append chained fun _ => rfl
      apply isCanonicalBlock_of_chained ?_ whole
      · intro statement isLast _
        rw [List.getLast?_concat] at isLast
        cases isLast
        rfl
      · intro statement isMember
        rcases List.mem_append.mp isMember with isInner | isFinal
        · exact isClosed.canonical statement isInner
        · rw [List.mem_singleton.mp isFinal]
          rfl
  · rw [List.append_nil]
    constructor
    · simp only [isFunctionBody, Bool.and_eq_true, List.all_eq_true]
      refine ⟨fun statement isMember => (inside statement isMember).1, ?_⟩
      intro statement isMember
      exact (inside statement ((List.dropLast_sublist statements).subset isMember)).2
    · exact isClosed.isCanonicalBlock

/-- A function without a return ends in front of another function or of the end of the program. -/
theorem tolerates_of_functionBody {closer : Kind} {middle : List Token} {statements final : Block}
    (isClosed : ClosedBy closer .function tokens middle statements)
    (readFinal : finalReturn expression middle = .ok (final, rest)) (name : String)
    (parameters : List String) (token : Token) (later : List Token)
    (isRest : rest = token :: later) :
    (Statement.define name parameters (statements ++ final)).tolerates token.kind := by
  rcases cases_of_finalReturn readFinal with ⟨value, rfl, -⟩ | ⟨rfl, rfl, noReturn⟩
  · simp [Statement.tolerates, endsInReturn, Statement.isReturn]
  · rcases isClosed.stops with ⟨_, _, isFirst, isCloser⟩
    rw [isRest] at isFirst noReturn
    cases isFirst
    rw [List.mem_singleton] at isCloser
    have closes := isClosed.closes
    rw [← isCloser] at closes
    simp only [BlockOwner.closing, List.mem_cons, List.not_mem_nil, or_false] at closes
    rcases closes with isReturn | isDefine | isEnd
    · exact (noReturn ⟨token, later, rfl, List.mem_singleton.mpr isReturn⟩).elim
    · simp [Statement.tolerates, isDefine]
    · simp [Statement.tolerates, isEnd]

include closed in
/-- A function with a return has an end of its own, and one without tolerates what closed it. -/
theorem stands_define {first : Token} {statement : Statement} (isDefine : first.kind = .defineMark)
    (read : define expression body tokens = .ok (statement, rest)) :
    Stands (first :: tokens) rest statement := by
  rcases ok_of_bind read with ⟨name, afterName, _, read⟩
  rcases ok_of_bind read with ⟨names, afterNames, _, read⟩
  rcases ok_of_bind read with ⟨statements, middle, readBody, read⟩
  rcases ok_of_bind read with ⟨final, _, readFinal, returned⟩
  cases returned
  rcases closed _ _ _ _ readBody with ⟨closer, isClosed⟩
  have canonical := canonical_of_functionBody isClosed readFinal
  refine ⟨?_, ⟨first, tokens, rfl, List.mem_singleton.mpr isDefine⟩, ?_⟩
  · simpa [Statement.isCanonical] using canonical
  · exact tolerates_of_functionBody isClosed readFinal name.text names

include closed in
theorem stands_attempt {first : Token} {statement : Statement} (isTry : first.kind = .tryMark)
    (read : attempt body tokens = .ok (statement, rest)) :
    Stands (first :: tokens) rest statement := by
  rcases ok_of_bind read with ⟨statements, middle, readBody, read⟩
  rcases ok_of_bind read with ⟨_, afterCatch, _, read⟩
  rcases ok_of_bind read with ⟨handler, _, readHandler, returned⟩
  cases returned
  rcases closed _ _ _ _ readHandler with ⟨closer, isClosed⟩
  have plain : handler.all Statement.isPlain := by
    rw [List.all_eq_true]
    intro statement isMember
    by_contra notPlain
    exact isClosed.inside statement isMember
      (head_mem_closing_of_not_isPlain (by simpa using notPlain))
  refine ⟨?_, ⟨first, tokens, rfl, List.mem_singleton.mpr isTry⟩, ?_⟩
  · simp only [Statement.isCanonical, Bool.and_eq_true]
    exact ⟨⟨canonical_of_body closed BlockOwner.noConfusion readBody, plain⟩,
      canonical_of_body closed BlockOwner.noConfusion readHandler⟩
  · rintro token later rfl
    rcases isClosed.stops with ⟨_, _, isFirst, isCloser⟩
    cases isFirst
    simpa [Statement.tolerates, List.mem_singleton.mp isCloser] using isClosed.closes

include closed in
theorem canonical_of_loopBody {statements : Block}
    (read : loopBody body tokens = .ok (statements, rest)) : isCanonicalBlock false statements := by
  rcases ok_of_bind read with ⟨_, middle, readBody, read⟩
  rcases ok_of_bind read with ⟨_, _, _, returned⟩
  cases returned
  exact canonical_of_body closed BlockOwner.noConfusion readBody

include closed in
theorem canonical_of_fallback {fuel : Nat} {later : Fallback}
    (read : fallback expression body fuel tokens = .ok (later, rest)) : later.isCanonical := by
  induction fuel generalizing tokens later with
  | zero => cases read
  | succ fuel ih =>
      simp only [fallback] at read
      split at read
      · rcases ok_of_bind read with ⟨condition, afterCondition, _, read⟩
        rcases ok_of_bind read with ⟨statements, middle, readBody, read⟩
        rcases ok_of_bind read with ⟨others, _, readLater, returned⟩
        cases returned
        simp only [Fallback.isCanonical, Bool.and_eq_true]
        exact ⟨canonical_of_body closed BlockOwner.noConfusion readBody, ih readLater⟩
      · split at read
        · rcases ok_of_bind read with ⟨statements, middle, readBody, read⟩
          rcases ok_of_bind read with ⟨_, _, _, returned⟩
          cases returned
          exact canonical_of_body closed BlockOwner.noConfusion readBody
        · rcases ok_of_bind read with ⟨_, _, _, returned⟩
          cases returned
          rfl

include closed in
theorem settled_conditional {fuel : Nat} {statement : Statement}
    (read : conditional expression body fuel tokens = .ok (statement, rest)) :
    Settled .ifMark statement := by
  rcases ok_of_bind read with ⟨condition, afterCondition, _, read⟩
  rcases ok_of_bind read with ⟨statements, middle, readBody, read⟩
  rcases ok_of_bind read with ⟨later, _, readLater, returned⟩
  cases returned
  refine ⟨?_, rfl, fun _ => rfl⟩
  simp only [Statement.isCanonical, Bool.and_eq_true]
  exact ⟨canonical_of_body closed BlockOwner.noConfusion readBody,
    canonical_of_fallback closed readLater⟩

include closed in
theorem settled_whileLoop {statement : Statement}
    (read : whileLoop expression body tokens = .ok (statement, rest)) :
    Settled .whileMark statement := by
  rcases ok_of_bind read with ⟨condition, afterCondition, _, read⟩
  rcases ok_of_bind read with ⟨statements, _, readBody, returned⟩
  cases returned
  exact ⟨canonical_of_loopBody closed readBody, rfl, fun _ => rfl⟩

include closed in
theorem settled_forLoop {statement : Statement}
    (read : forLoop expression body tokens = .ok (statement, rest)) :
    Settled .forMark statement := by
  rcases ok_of_bind read with ⟨name, afterName, _, read⟩
  rcases ok_of_bind read with ⟨range, afterRange, _, read⟩
  rcases ok_of_bind read with ⟨statements, _, readBody, returned⟩
  cases returned
  exact ⟨canonical_of_loopBody closed readBody, rfl, fun _ => rfl⟩

theorem settled_giveBack {statement : Statement}
    (read : giveBack expression tokens = .ok (statement, rest)) :
    Settled .returnMark statement := by
  rw [giveBack] at read
  split at read
  · cases read
    exact ⟨rfl, rfl, fun _ => rfl⟩
  · rcases ok_of_map read with ⟨value, _, rfl⟩
    exact ⟨rfl, rfl, fun _ => rfl⟩

include closed in
/-- Each kind of statement is of canonical structure if what is inside it was read so. -/
theorem stands_statementWith {fuel : Nat} {statement : Statement}
    (read : statementWith expression body fuel tokens = .ok (statement, rest)) :
    Stands tokens rest statement := by
  rcases tokens with _ | ⟨token, later⟩
  · cases read
  · rw [statementWith] at read
    -- Only functions and attempts depend on what stands behind them.
    have settle {kind : Kind} (isKind : token.kind = kind) (settled : Settled kind statement) :
        Stands (token :: later) rest statement := by
      subst kind
      exact settled.stands later rest
    split at read
    · rename_i isName
      split at read
      · rcases ok_of_map read with ⟨value, _, rfl⟩
        exact settle isName ⟨rfl, rfl, fun _ => rfl⟩
      · cases read
    · rename_i isDefine
      exact stands_define closed isDefine read
    · rename_i isCall
      rcases ok_of_map read with ⟨callee, _, rfl⟩
      exact settle isCall ⟨rfl, rfl, fun _ => rfl⟩
    · rename_i isOutput
      rcases ok_of_map read with ⟨value, _, rfl⟩
      exact settle isOutput ⟨rfl, rfl, fun _ => rfl⟩
    · rename_i isOutput
      rcases ok_of_map read with ⟨count, _, rfl⟩
      exact settle isOutput ⟨rfl, rfl, fun _ => rfl⟩
    · rename_i isInput
      rcases ok_of_map read with ⟨name, _, rfl⟩
      exact settle isInput ⟨rfl, rfl, fun _ => rfl⟩
    · rename_i isIf
      exact settle isIf (settled_conditional closed read)
    · rename_i isWhile
      exact settle isWhile (settled_whileLoop closed read)
    · rename_i isFor
      exact settle isFor (settled_forLoop closed read)
    · rename_i isTry
      exact stands_attempt closed isTry read
    · rename_i isReturn
      exact settle isReturn (settled_giveBack read)
    · rename_i isParen
      split at read
      · cases read
        exact settle isParen ⟨rfl, rfl, fun _ => rfl⟩
      · cases read
    · cases read

end

/-- Every statement that is read is of canonical structure. -/
theorem stands_statement {fuel : Nat} {tokens rest : List Token} {result : Statement}
    (read : statement fuel tokens = .ok (result, rest)) : Stands tokens rest result := by
  induction fuel generalizing tokens rest result with
  | zero => cases read
  | succ fuel ih =>
      apply stands_statementWith ?_ read
      intro owner tokens rest statements readBody
      exact closedBy_block (fun _ _ _ => ih) readBody

theorem canonical_of_program {fuel : Nat} {tokens rest : List Token} {result : Block}
    (read : program fuel tokens = .ok (result, rest)) : isCanonicalProgram result := by
  rcases ok_of_bind read with ⟨_, afterStart, _, read⟩
  rcases ok_of_bind read with ⟨statements, middle, readBody, read⟩
  rcases ok_of_bind read with ⟨_, _, _, returned⟩
  cases returned
  rcases closedBy_block (fun _ _ _ => stands_statement) readBody with ⟨closer, isClosed⟩
  exact isClosed.isCanonicalBlock

end Parser

/-- Every program that is read off a list of tokens has the canonical block structure: whatever the
nesting, functions hold definitions of no functions and return at their end only, an open function
is followed by another one or ends the program, a handler holds plain statements, and what follows
an attempt ends its handler. -/
theorem isCanonicalProgram_of_parseProgram {tokens : List Token} {program : Block}
    (read : parseProgram tokens = .ok program) : isCanonicalProgram program := by
  rw [parseProgram, Parser.run] at read
  split at read
  · rename_i isRead
    cases read
    exact Parser.canonical_of_program isRead
  · cases read
  · cases read

theorem isCanonicalProgram_of_parseProgram_nestedProgram :
    parseProgram ((programWords nestedProgram).map (Word.token .start)) = .ok nestedProgram ∧
      isCanonicalProgram nestedProgram := by
  have read : parseProgram ((programWords nestedProgram).map (Word.token .start)) =
      .ok nestedProgram := rfl
  exact ⟨read, isCanonicalProgram_of_parseProgram read⟩

end Mel

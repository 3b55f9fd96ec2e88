import Mel.Program.Refusal

/-!
# Canonical block structure

Statements are not separated, and neither functions nor handlers have a mark at their
end. So not every tree can be written down: what stands behind a function or a handler
must end it. This file says which trees can, block by block, and what each statement
asks of the token behind it.

A function without a return at its end is open: only another function or the end of
the program ends it. A handler ends at the first statement that is not plain.
-/

namespace Mel

namespace Statement

/-- Statements that can stand in a handler. All others end it. -/
def isPlain : Statement → Bool
  | .assign _ _ | .input _ | .output _ | .outputMany _ _ | .call _ _ | .raise _ => true
  | .define _ _ _ | .giveBack _ | .conditional _ _ _ | .whileLoop _ _ | .forLoop _ _ _
  | .attempt _ _ => false

def isDefinition : Statement → Bool
  | .define _ _ _ => true
  | _ => false

def isReturn : Statement → Bool
  | .giveBack _ => true
  | _ => false

/-- The kind of the first token of a statement. -/
def head : Statement → Kind
  | .assign _ _ => .identifier
  | .input _ => .input
  | .output _ => .output
  | .outputMany direction _ => .outputMany direction
  | .call _ _ => .callMark
  | .define _ _ _ => .defineMark
  | .giveBack _ => .returnMark
  | .conditional _ _ _ => .ifMark
  | .whileLoop _ _ => .whileMark
  | .forLoop _ _ _ => .forMark
  | .attempt _ _ => .tryMark
  | .raise _ => .leftParen

end Statement

/-- Does a block end in a return? -/
def endsInReturn (block : Block) : Bool :=
  block.getLast?.any Statement.isReturn

/-- Is a block the body of a function: without definitions, and with a return at its end only? -/
def isFunctionBody (body : Block) : Bool :=
  body.all (!·.isDefinition) && body.dropLast.all (!·.isReturn)

/-- May a statement stand in front of the next one of its block, or at the end of it? The outermost
block is the one of a program. -/
def Statement.mayPrecede (outermost : Bool) (next : Option Statement) : Statement → Bool
  | .define _ _ body =>
      endsInReturn body || next.elim outermost Statement.isDefinition
  | .attempt _ _ => next.all (!·.isPlain)
  | _ => true

mutual

/-- Do all blocks in a statement have the canonical structure? -/
def Statement.isCanonical : Statement → Bool
  | .define _ _ body => isFunctionBody body && isCanonicalBlock false body
  | .conditional _ body fallback => isCanonicalBlock false body && fallback.isCanonical
  | .whileLoop _ body | .forLoop _ _ body => isCanonicalBlock false body
  | .attempt body handler =>
      isCanonicalBlock false body && handler.all Statement.isPlain
        && isCanonicalBlock false handler
  | .assign _ _ | .input _ | .output _ | .outputMany _ _ | .call _ _ | .giveBack _ | .raise _ =>
      true

/-- Do a block and all blocks in it have the canonical structure? -/
def isCanonicalBlock (outermost : Bool) : List Statement → Bool
  | [] => true
  | statement :: statements =>
      statement.mayPrecede outermost statements.head? && statement.isCanonical
        && isCanonicalBlock outermost statements

def Fallback.isCanonical : Fallback → Bool
  | .nothing => true
  | .otherwise body => isCanonicalBlock false body
  | .elseIf _ body fallback => isCanonicalBlock false body && fallback.isCanonical

end

/-- Does a whole program have the canonical structure? -/
def isCanonicalProgram (program : Block) : Bool :=
  isCanonicalBlock true program

theorem isCanonical_of_mem {outermost : Bool} {block : Block}
    (canonical : isCanonicalBlock outermost block) {statement : Statement}
    (member : statement ∈ block) : statement.isCanonical := by
  induction block with
  | nil => cases member
  | cons first statements ih =>
      simp only [isCanonicalBlock, Bool.and_eq_true] at canonical
      rcases canonical with ⟨⟨-, firstCanonical⟩, restCanonical⟩
      rcases List.mem_cons.mp member with rfl | member
      · exact firstCanonical
      · exact ih restCanonical member

/-- May a token of this kind stand behind a statement? This is asked of statements only that have no
mark at their end. -/
def Statement.tolerates (kind : Kind) : Statement → Bool
  | .define _ _ body => endsInReturn body || kind == .defineMark || kind == .programEnd
  | .attempt _ _ => kind ∈ BlockOwner.handler.closing
  | _ => true

/-- The kinds of token behind the first statement of a block that is closed by some kinds. -/
def followers (closers : List Kind) (statements : Block) : List Kind :=
  match statements with
  | [] => closers
  | next :: _ => [next.head]

/-- Every statement of a block tolerates what follows it, the closers of the block included. -/
def Chained (closers : List Kind) : Block → Prop
  | [] => True
  | statement :: statements =>
      (∀ kind ∈ followers closers statements, statement.tolerates kind) ∧
        Chained closers statements

theorem head_mem_closing_of_not_isPlain {statement : Statement} (notPlain : !statement.isPlain) :
    statement.head ∈ BlockOwner.handler.closing := by
  cases statement <;> simp_all [Statement.isPlain, Statement.head, BlockOwner.closing]

theorem head_not_mem_closing_of_isPlain {statement : Statement} (plain : statement.isPlain) :
    statement.head ∉ BlockOwner.handler.closing := by
  cases statement <;> simp_all [Statement.isPlain, Statement.head, BlockOwner.closing]

theorem head_eq_of_isDefinition {statement : Statement} (definition : statement.isDefinition) :
    statement.head = .defineMark := by
  cases statement <;> simp_all [Statement.isDefinition, Statement.head]

/-- Whatever ends a block ends a handler at the end of the block as well. -/
theorem closing_subset_handler (owner : BlockOwner) :
    owner.closing ⊆ BlockOwner.handler.closing := by
  cases owner <;> decide

theorem tolerates_of_mayPrecede_next {outermost : Bool} {statement next : Statement}
    (precedes : statement.mayPrecede outermost (some next)) : statement.tolerates next.head := by
  cases statement with
  | define name parameters body =>
      simp only [Statement.mayPrecede, Option.elim_some, Bool.or_eq_true] at precedes
      simp only [Statement.tolerates, Bool.or_eq_true, beq_iff_eq]
      rcases precedes with closed | definition
      · exact .inl (.inl closed)
      · exact .inl (.inr (head_eq_of_isDefinition definition))
  | attempt body handler =>
      simp only [Statement.mayPrecede, Option.all_some] at precedes
      simp only [Statement.tolerates, decide_eq_true_eq]
      exact head_mem_closing_of_not_isPlain precedes
  | _ => rfl

theorem tolerates_of_mayPrecede_end {outermost : Bool} {statement : Statement} {kind : Kind}
    (precedes : statement.mayPrecede outermost none) (closes : kind ∈ BlockOwner.handler.closing)
    (ends : outermost → kind = .programEnd) : statement.tolerates kind := by
  cases statement with
  | define name parameters body =>
      simp only [Statement.mayPrecede, Option.elim_none, Bool.or_eq_true] at precedes
      simp only [Statement.tolerates, Bool.or_eq_true, beq_iff_eq]
      rcases precedes with closed | isOutermost
      · exact .inl (.inl closed)
      · exact .inr (ends isOutermost)
  | attempt body handler => simpa only [Statement.tolerates, decide_eq_true_eq] using closes
  | _ => rfl

theorem chained_of_isCanonicalBlock {outermost : Bool} {closers : List Kind} {block : Block}
    (canonical : isCanonicalBlock outermost block)
    (close : closers ⊆ BlockOwner.handler.closing)
    (ends : outermost → ∀ kind ∈ closers, kind = .programEnd) : Chained closers block := by
  induction block with
  | nil => trivial
  | cons statement statements ih =>
      simp only [isCanonicalBlock, Bool.and_eq_true] at canonical
      rcases canonical with ⟨⟨precedes, -⟩, restCanonical⟩
      refine ⟨?_, ih restCanonical⟩
      cases statements with
      | nil =>
          intro kind member
          exact tolerates_of_mayPrecede_end precedes (close member)
            fun isOutermost => ends isOutermost kind member
      | cons next statements =>
          intro kind member
          rw [followers, List.mem_singleton] at member
          rw [member]
          exact tolerates_of_mayPrecede_next precedes

/-- What comes before the last statement of a block is chained to it. -/
theorem chained_of_append {closers : List Kind} {statements : Block} {last : Statement}
    (chained : Chained closers (statements ++ [last])) : Chained [last.head] statements := by
  induction statements with
  | nil => trivial
  | cons statement statements ih =>
      rcases chained with ⟨tolerated, chainedRest⟩
      refine ⟨?_, ih chainedRest⟩
      cases statements with
      | nil => exact tolerated
      | cons next statements => exact tolerated

theorem head_not_mem_closing_function {statement : Statement}
    (notDefinition : !statement.isDefinition) (notReturn : !statement.isReturn) :
    statement.head ∉ BlockOwner.function.closing := by
  cases statement <;>
    simp_all [Statement.isDefinition, Statement.isReturn, Statement.head, BlockOwner.closing]

/-- The body of a function is a block that nothing closes early, with or without a return behind
it. -/
theorem cases_of_isFunctionBody {body : Block} (isBody : isFunctionBody body) :
    (∃ statements value, body = statements ++ [.giveBack value] ∧
      ∀ member ∈ statements, member.head ∉ BlockOwner.function.closing) ∨
    (endsInReturn body = false ∧ ∀ member ∈ body, member.head ∉ BlockOwner.function.closing) := by
  simp only [isFunctionBody, Bool.and_eq_true, List.all_eq_true] at isBody
  rcases isBody with ⟨noDefinition, noReturn⟩
  rcases List.eq_nil_or_concat body with rfl | ⟨statements, last, rfl⟩
  · exact .inr ⟨rfl, fun member isMember => by cases isMember⟩
  · rw [List.concat_eq_append] at *
    rw [List.dropLast_concat] at noReturn
    have admitted : ∀ member ∈ statements, member.head ∉ BlockOwner.function.closing := by
      intro member isMember
      exact head_not_mem_closing_function
        (noDefinition member (List.mem_append_left _ isMember)) (noReturn member isMember)
    cases returns : last.isReturn with
    | true =>
        left
        cases last with
        | giveBack value => exact ⟨statements, value, rfl, admitted⟩
        | _ => cases returns
    | false =>
        right
        refine ⟨?_, ?_⟩
        · rw [endsInReturn, List.getLast?_concat, Option.any_some, returns]
        · intro member isMember
          rcases List.mem_append.mp isMember with inner | isLast
          · exact admitted member inner
          · rw [List.mem_singleton] at isLast
            subst member
            exact head_not_mem_closing_function (noDefinition last isMember) (by simp [returns])

end Mel

import Mel.Proofs.Reading

/-!
# Reading back whole programs

Writing a program of canonical structure and reading it again gives the same program,
to any depth of nesting. The induction is on the fuel; what carries it is that every
statement is followed by tokens that it tolerates, since each statement of a block is
chained to the next one and the last one to what closes the block.
-/

namespace Mel

namespace Parser

/-- The tokens begin with one of some kinds. -/
def StartsIn (kinds : List Kind) (rest : List Token) : Prop :=
  ∃ token later, rest = token :: later ∧ token.kind ∈ kinds

theorem startsIn_of_mark {kind : Kind} {kinds : List Kind} (member : kind ∈ kinds)
    {words : List Word} {written : List Token} (spelled : Spelled (.mark kind :: words) written)
    (rest : List Token) : StartsIn kinds (written ++ rest) := by
  rcases spelled with _ | ⟨isKind, -⟩
  refine ⟨_, _, rfl, ?_⟩
  have sameKind : Token.kind _ = kind := isKind
  rwa [sameKind]

theorem StartsIn.ends {kinds : List Kind} (closing : kinds ⊆ BlockOwner.handler.closing)
    {rest : List Token} (starts : StartsIn kinds rest) : Ends rest := by
  rcases starts with ⟨token, later, rfl, member⟩
  have closes := closing member
  have all : ∀ kind ∈ BlockOwner.handler.closing, kind.endsExpression ∧ kind ≠ .assign := by
    decide
  exact ends_of_kind (all _ closes).1 (all _ closes).2

/-- The tokens end the statement in front of them. -/
structure MayFollow (statement : Statement) (rest : List Token) : Prop where
  ends : Ends rest
  tolerated : ∃ token later, rest = token :: later ∧ statement.tolerates token.kind

/-- A statement begins with a token of its kind, which ends all that stands before it. -/
theorem starts_of_statement {statement : Statement} {written : List Token}
    (spelled : Spelled statement.words written) (rest : List Token) :
    StartsIn [statement.head] (written ++ rest) ∧ Ends (written ++ rest) := by
  have marked {kind : Kind} {words : List Word} (ends : kind.endsExpression)
      (noAssign : kind ≠ .assign) (spelled : Spelled (.mark kind :: words) written) :
      StartsIn [kind] (written ++ rest) ∧ Ends (written ++ rest) := by
    have starts := startsIn_of_mark (List.mem_singleton_self kind) spelled rest
    refine ⟨starts, ?_⟩
    rcases starts with ⟨token, later, tokens, member⟩
    rw [List.mem_singleton] at member
    rw [tokens]
    exact ends_of_kind (by rwa [member]) (by rwa [member])
  cases statement with
  | assign name value =>
      rcases spelled with _ | ⟨⟨isName, -⟩, _ | ⟨isAssign, -⟩⟩
      have sameKind : Token.kind _ = .assign := isAssign
      refine ⟨⟨_, _, rfl, ?_⟩, ?_, ?_⟩
      · rw [isName]
        exact List.mem_singleton_self _
      · simp only [List.cons_append, endsExpression, isName, startsWith, sameKind, beq_self_eq_true]
      · simp [startsWith, isName]
  | giveBack value => cases value <;> exact marked rfl Kind.noConfusion spelled
  | _ => exact marked rfl Kind.noConfusion spelled

theorem head_ne_programEnd (statement : Statement) : statement.head ≠ .programEnd := by
  cases statement <;> exact Kind.noConfusion

theorem mayFollow_of_followers {closers : List Kind} {statement : Statement} {statements : Block}
    (closing : closers ⊆ BlockOwner.handler.closing)
    (tolerated : ∀ kind ∈ followers closers statements, statement.tolerates kind)
    {written rest : List Token} (spelled : Spelled (blockWords statements) written)
    (starts : StartsIn closers rest) : MayFollow statement (written ++ rest) := by
  cases statements with
  | nil =>
      cases spelled
      refine ⟨starts.ends closing, ?_⟩
      rcases starts with ⟨token, later, rfl, member⟩
      exact ⟨token, later, rfl, tolerated _ member⟩
  | cons next statements =>
      rcases Spelled.split spelled with ⟨nextTokens, laterTokens, rfl, spelledNext, -⟩
      rw [List.append_assoc]
      rcases starts_of_statement spelledNext (laterTokens ++ rest) with
        ⟨⟨token, later, tokens, member⟩, ends⟩
      exact ⟨ends, token, later, tokens, tolerated _ member⟩

theorem reads_block {owner : BlockOwner} {closers : List Kind} (closes : closers ⊆ owner.closing)
    {fuel : Nat} {statements : Block}
    (reads : ∀ member ∈ statements,
      Reads (statement fuel) member.words member (MayFollow member))
    (chained : Chained closers statements)
    (admitted : ∀ member ∈ statements, member.head ∉ owner.closing) {rounds : Nat}
    (enough : statements.length < rounds) :
    Reads (block (statement fuel) owner rounds) (blockWords statements) statements
      (StartsIn closers) := by
  induction statements generalizing rounds with
  | nil =>
      intro written rest spelled starts
      cases spelled
      rcases starts with ⟨token, later, rfl, member⟩
      cases rounds with
      | zero => cases enough
      | succ rounds => simp only [List.nil_append, block, if_pos (closes member)]
  | cons first statements ih =>
      intro written rest spelled starts
      cases rounds with
      | zero => cases enough
      | succ rounds =>
          rcases chained with ⟨tolerated, chainedRest⟩
          have readsLater := ih
            (fun member isMember => reads member (List.mem_cons_of_mem _ isMember)) chainedRest
            (fun member isMember => admitted member (List.mem_cons_of_mem _ isMember))
            (Nat.lt_of_succ_lt_succ enough)
          have readsAll : Reads
              (statement fuel >>= fun first =>
                block (statement fuel) owner rounds >>= fun later => return first :: later)
              (first.words ++ blockWords statements) (first :: statements)
              (StartsIn closers) := by
            refine (reads first List.mem_cons_self).bind
              (readsLater.bind_return (first :: ·)) ?_
            intro written rest spelled starts
            have closing := List.Subset.trans closes (closing_subset_handler owner)
            exact mayFollow_of_followers closing tolerated spelled starts
          have read := readsAll written rest spelled starts
          -- Whether the block goes on is decided by the first token of the first statement.
          rcases spelled.split with ⟨firstTokens, laterTokens, rfl, spelledFirst, -⟩
          rw [List.append_assoc] at read ⊢
          rcases starts_of_statement spelledFirst (laterTokens ++ rest) with
            ⟨⟨token, later, tokens, isHead⟩, -⟩
          rw [List.mem_singleton] at isHead
          rw [tokens] at read ⊢
          have open_ : token.kind ∉ owner.closing := by
            rw [isHead]
            exact admitted first List.mem_cons_self
          have notEnd : token.kind ≠ .programEnd := by
            rw [isHead]
            exact head_ne_programEnd first
          simp only [block, if_neg open_, if_neg notEnd]
          exact read

theorem length_words_pos (statement : Statement) : 0 < statement.words.length := by
  cases statement with
  | giveBack value => cases value <;> exact Nat.zero_lt_succ _
  | _ => exact Nat.zero_lt_succ _

theorem length_words_le_of_mem {block : Block} {statement : Statement}
    (member : statement ∈ block) :
    statement.words.length ≤ (blockWords block).length := by
  induction block with
  | nil => cases member
  | cons first statements ih =>
      rw [blockWords, List.length_append]
      rcases List.mem_cons.mp member with rfl | member
      · omega
      · have le := ih member
        omega

theorem length_le_blockWords (block : Block) : block.length ≤ (blockWords block).length := by
  induction block with
  | nil => exact Nat.le_refl 0
  | cons first statements ih =>
      have positive := length_words_pos first
      rw [blockWords, List.length_append, List.length_cons]
      omega

/-- How the blocks in a statement are read. -/
def body (fuel : Nat) (owner : BlockOwner) : Parser Block :=
  block (statement fuel) owner fuel

/-- With some fuel, all statements are read that have fewer words. -/
def ReadsStatements (fuel : Nat) : Prop :=
  ∀ member : Statement, member.isCanonical → member.isSimple → member.words.length < fuel →
    Reads (statement fuel) member.words member (MayFollow member)

variable {fuel : Nat}

theorem reads_body (readsStatements : ReadsStatements fuel) {owner : BlockOwner}
    {closers : List Kind} (closes : closers ⊆ owner.closing) {statements : Block}
    (canonical : ∀ member ∈ statements, member.isCanonical)
    (simple : ∀ member ∈ statements, member.isSimple) (chained : Chained closers statements)
    (admitted : ∀ member ∈ statements, member.head ∉ owner.closing)
    (enough : (blockWords statements).length < fuel) :
    Reads (body fuel owner) (blockWords statements) statements (StartsIn closers) := by
  refine reads_block closes ?_ chained admitted ?_
  · intro member isMember
    have le := length_words_le_of_mem isMember
    exact readsStatements member (canonical member isMember) (simple member isMember) (by omega)
  · have le := length_le_blockWords statements
    omega

theorem head_not_mem_closing {owner : BlockOwner} (notFunction : owner ≠ .function)
    (notHandler : owner ≠ .handler) (statement : Statement) :
    statement.head ∉ owner.closing := by
  cases owner <;> cases statement <;> simp_all [Statement.head, BlockOwner.closing]

/-- Blocks with a mark at their end admit all statements. -/
theorem reads_markedBody (readsStatements : ReadsStatements fuel) {owner : BlockOwner}
    (notFunction : owner ≠ .function) (notHandler : owner ≠ .handler) {statements : Block}
    (canonical : isCanonicalBlock false statements) (simple : isSimpleBlock statements)
    (enough : (blockWords statements).length < fuel) :
    Reads (body fuel owner) (blockWords statements) statements (StartsIn owner.closing) := by
  refine reads_body readsStatements (List.Subset.refl _) ?_ ?_ ?_ ?_ enough
  · exact fun member isMember => isCanonical_of_mem canonical isMember
  · exact fun member isMember => isSimple_of_mem simple isMember
  · apply chained_of_isCanonicalBlock canonical (closing_subset_handler owner)
    intro outermost
    cases outermost
  · exact fun member _ => head_not_mem_closing notFunction notHandler member

theorem reads_handler (readsStatements : ReadsStatements fuel) {statements : Block}
    (plain : statements.all Statement.isPlain) (canonical : isCanonicalBlock false statements)
    (simple : isSimpleBlock statements) (enough : (blockWords statements).length < fuel) :
    Reads (body fuel .handler) (blockWords statements) statements
      (StartsIn BlockOwner.handler.closing) := by
  refine reads_body readsStatements (List.Subset.refl _) ?_ ?_ ?_ ?_ enough
  · exact fun member isMember => isCanonical_of_mem canonical isMember
  · exact fun member isMember => isSimple_of_mem simple isMember
  · apply chained_of_isCanonicalBlock canonical (List.Subset.refl _)
    intro outermost
    cases outermost
  · intro member isMember
    exact head_not_mem_closing_of_isPlain (List.all_eq_true.mp plain member isMember)

theorem ends_of_block {statements : Block} {written rest : List Token}
    (spelled : Spelled (blockWords statements) written) (ends : Ends rest) :
    Ends (written ++ rest) := by
  cases statements with
  | nil =>
      cases spelled
      exact ends
  | cons first statements =>
      rcases Spelled.split spelled with ⟨firstTokens, laterTokens, rfl, spelledFirst, -⟩
      rw [List.append_assoc]
      exact (starts_of_statement spelledFirst (laterTokens ++ rest)).2

/-- A block with what closes it ends the expression in front of it. -/
theorem ends_of_closedBlock {statements : Block} {words : List Word} {written rest : List Token}
    (spelled : Spelled (blockWords statements ++ words) written)
    (ends : ∀ later, Spelled words later → Ends (later ++ rest)) : Ends (written ++ rest) := by
  rcases spelled.split with ⟨bodyTokens, closeTokens, rfl, spelledBody, spelledClose⟩
  rw [List.append_assoc]
  exact ends_of_block spelledBody (ends closeTokens spelledClose)

theorem ends_of_endLoop {written : List Token} (spelled : Spelled [.mark .endLoop] written)
    (rest : List Token) : Ends (written ++ rest) := by
  have starts := startsIn_of_mark (List.mem_singleton_self _) spelled rest
  exact starts.ends (by decide)

theorem reads_loopBody (readsStatements : ReadsStatements fuel) {statements : Block}
    (canonical : isCanonicalBlock false statements) (simple : isSimpleBlock statements)
    (enough : (blockWords statements).length < fuel) :
    Reads (loopBody (body fuel)) (blockWords statements ++ [.mark .endLoop]) statements
      fun _ => True := by
  have reads : Reads (body fuel .loop) (blockWords statements) statements
      (StartsIn BlockOwner.loop.closing) :=
    reads_markedBody readsStatements BlockOwner.noConfusion BlockOwner.noConfusion canonical simple
      enough
  refine reads.bind (reads_expect_return statements _) ?_
  intro written rest spelled _
  exact startsIn_of_mark (List.mem_singleton_self _) spelled rest

theorem reads_whileLoop (readsStatements : ReadsStatements fuel) {condition : Expr}
    {statements : Block} (canonical : isCanonicalBlock false statements)
    (simpleCondition : condition.isSimple) (simple : isSimpleBlock statements)
    (enough : condition.words.length + (blockWords statements).length < fuel) :
    Reads (whileLoop (expression fuel) (body fuel))
      (condition.words ++ (blockWords statements ++ [.mark .endLoop]))
      (.whileLoop condition statements) fun _ => True := by
  have readsLoop := reads_loopBody readsStatements canonical simple (by omega)
  refine (reads_expression simpleCondition (by omega)).bind
    (readsLoop.bind_return (Statement.whileLoop condition ·)) ?_
  intro written rest spelled _
  exact ends_of_closedBlock spelled fun later spelledClose => ends_of_endLoop spelledClose rest

theorem reads_forLoop (readsStatements : ReadsStatements fuel) {name : String} {range : Expr}
    {statements : Block} (canonical : isCanonicalBlock false statements)
    (simpleRange : range.isSimple) (simple : isSimpleBlock statements)
    (enough : range.words.length + (blockWords statements).length < fuel) :
    Reads (forLoop (expression fuel) (body fuel))
      (.name name :: (range.words ++ (blockWords statements ++ [.mark .endLoop])))
      (.forLoop name range statements) fun _ => True := by
  have readsLoop := reads_loopBody readsStatements canonical simple (by omega)
  apply Reads.name_bind
  rintro token rfl
  refine (reads_expression simpleRange (by omega)).bind
    (readsLoop.bind_return (Statement.forLoop token.text range ·)) ?_
  intro written rest spelled _
  exact ends_of_closedBlock spelled fun later spelledClose => ends_of_endLoop spelledClose rest

theorem reads_attempt (readsStatements : ReadsStatements fuel) {statements handler : Block}
    (canonical : isCanonicalBlock false statements) (plain : handler.all Statement.isPlain)
    (canonicalHandler : isCanonicalBlock false handler) (simple : isSimpleBlock statements)
    (simpleHandler : isSimpleBlock handler)
    (enough : (blockWords statements).length + (blockWords handler).length < fuel) :
    Reads (attempt (body fuel)) (blockWords statements ++ .mark .catchMark :: blockWords handler)
      (.attempt statements handler) (StartsIn BlockOwner.handler.closing) := by
  have readsBody : Reads (body fuel .attempt) (blockWords statements) statements
      (StartsIn BlockOwner.attempt.closing) :=
    reads_markedBody readsStatements BlockOwner.noConfusion BlockOwner.noConfusion canonical simple
      (by omega)
  have readsHandler := reads_handler readsStatements plain canonicalHandler simpleHandler (by omega)
  refine readsBody.bind
    (readsHandler.bind_return (Statement.attempt statements ·)).expect_bind ?_
  intro written rest spelled _
  exact startsIn_of_mark (List.mem_singleton_self _) spelled rest

/-- What follows a branch closes it. -/
theorem startsIn_of_fallback {fallback : Fallback} {written : List Token}
    (spelled : Spelled fallback.words written) (rest : List Token) :
    StartsIn BlockOwner.branch.closing (written ++ rest) := by
  cases fallback <;> exact startsIn_of_mark (by decide) spelled rest

/-- A branch of a conditional with what follows it. -/
theorem reads_branch {α : Type} (readsStatements : ReadsStatements fuel) {condition : Expr}
    {statements : Block} {later : Fallback} {readLater : Parser Fallback}
    (build : Expr → Block → Fallback → α) (canonical : isCanonicalBlock false statements)
    (simpleCondition : condition.isSimple) (simple : isSimpleBlock statements)
    (enough : condition.words.length + (blockWords statements).length < fuel)
    (reads : Reads readLater later.words later fun _ => True) :
    Reads
      (expression fuel >>= fun condition => body fuel .branch >>= fun statements =>
        readLater >>= fun later => return build condition statements later)
      (condition.words ++ (blockWords statements ++ later.words))
      (build condition statements later) fun _ => True := by
  have readsBody : Reads (body fuel .branch) (blockWords statements) statements
      (StartsIn BlockOwner.branch.closing) :=
    reads_markedBody readsStatements BlockOwner.noConfusion BlockOwner.noConfusion canonical simple
      (by omega)
  refine (reads_expression simpleCondition (by omega)).bind
    (readsBody.bind (reads.bind_return (build condition statements ·)) ?_) ?_
  · intro written rest spelled _
    exact startsIn_of_fallback spelled rest
  · intro written rest spelled _
    apply ends_of_closedBlock spelled
    intro later spelledLater
    exact (startsIn_of_fallback spelledLater rest).ends (closing_subset_handler .branch)

theorem reads_fallback (readsStatements : ReadsStatements fuel) {fallback : Fallback}
    (canonical : fallback.isCanonical) (simple : fallback.isSimple)
    (enough : fallback.words.length ≤ fuel) {rounds : Nat}
    (within : fallback.words.length ≤ rounds) :
    Reads (Parser.fallback (expression fuel) (body fuel) rounds) fallback.words fallback
      fun _ => True := by
  induction rounds generalizing fallback with
  | zero =>
      cases fallback <;> simp [Fallback.words] at within
  | succ rounds ih =>
      cases fallback with
      | nothing =>
          have reads : Reads (discard (expect .endIf .conditionalEnd) >>= fun _ =>
              return Fallback.nothing) [.mark .endIf] .nothing fun _ => True :=
            reads_expect_return _ _
          intro written rest spelled _
          have read := reads written rest spelled trivial
          rcases spelled with _ | ⟨isKind, -⟩
          have isEndIf : Token.kind _ = .endIf := isKind
          simp only [List.cons_append, Parser.fallback, startsWith, isEndIf]
          exact read
      | otherwise statements =>
          simp only [Fallback.words, List.length_cons, List.length_append] at enough
          have readsBody : Reads (body fuel .lastBranch) (blockWords statements) statements
              (StartsIn BlockOwner.lastBranch.closing) :=
            reads_markedBody readsStatements BlockOwner.noConfusion BlockOwner.noConfusion canonical
              simple (by omega)
          have reads : Reads
              (body fuel .lastBranch >>= fun statements =>
                discard (expect .endIf .conditionalEnd) >>= fun _ =>
                  return Fallback.otherwise statements)
              (blockWords statements ++ [.mark .endIf]) (.otherwise statements)
              fun _ => True := by
            refine readsBody.bind (reads_expect_return _ _) ?_
            intro written rest spelled _
            exact startsIn_of_mark (List.mem_singleton_self _) spelled rest
          refine reads.marked ?_
          intro token rest isElse
          simp only [Parser.fallback, startsWith, isElse]
          rfl
      | elseIf condition statements later =>
          simp only [Fallback.isCanonical, Fallback.isSimple, Bool.and_eq_true] at canonical simple
          simp only [Fallback.words, List.length_cons, List.length_append] at enough within
          have readsLater := ih canonical.2 simple.2 (by omega) (by omega)
          have reads := reads_branch readsStatements Fallback.elseIf canonical.1 simple.1.1
            simple.1.2 (by omega) readsLater
          simp only [Fallback.words, List.cons_append, List.append_assoc]
          refine reads.marked ?_
          intro token rest isElseIf
          simp only [Parser.fallback, startsWith, isElseIf]
          rfl

theorem parameters_of_ends {rest : List Token} (ends : Ends rest) :
    parameters rest = ([], rest) := by
  cases rest with
  | nil => rfl
  | cons token rest =>
      have endsHere := ends.endsExpression
      rw [parameters, if_neg]
      rintro ⟨isName, noAssign⟩
      rw [endsExpression, isName] at endsHere
      exact noAssign endsHere

theorem parameters_of_names {names : List String} {written rest : List Token}
    (spelled : Spelled (names.map .name) written) (ends : Ends rest) :
    parameters (written ++ rest) = (names, rest) := by
  induction names generalizing written with
  | nil =>
      cases spelled
      exact parameters_of_ends ends
  | cons name names ih =>
      rcases spelled with _ | ⟨⟨isName, rfl⟩, tail⟩
      rename_i token written
      have noAssign : startsWith .assign (written ++ rest) = false := by
        cases names with
        | nil =>
            cases tail
            exact ends.noAssign
        | cons name names =>
            rcases tail with _ | ⟨⟨isName, -⟩, -⟩
            simp [startsWith, isName]
      rw [List.cons_append, parameters, if_pos ⟨isName, by simp [noAssign]⟩, ih tail]

theorem words_giveBack (value : Option Expr) :
    (Statement.giveBack value).words = .mark .returnMark :: value.elim [] Expr.words := by
  cases value <;> rfl

theorem reads_giveBack {value : Option Expr} (simple : (Statement.giveBack value).isSimple)
    (enough : (Statement.giveBack value).words.length ≤ fuel) :
    Reads (giveBack (expression fuel)) (value.elim [] Expr.words) (.giveBack value) Ends := by
  intro written rest spelled ends
  cases value with
  | none =>
      cases spelled
      rw [List.nil_append, giveBack, if_pos ends.endsExpression]
  | some value =>
      rcases Option.isSome_iff_exists.mp simple with ⟨word, single⟩
      rw [words_giveBack, Option.elim_some, words_of_word single] at enough
      rcases Nat.exists_eq_add_of_le' enough with ⟨more, rfl⟩
      rw [Option.elim_some, words_of_word single] at spelled
      have read := reads_token single more written rest spelled ends.breaks
      rcases spelled with _ | ⟨head, _ | _⟩
      have goesOn := not_endsExpression_of_word single head ends.breaks
      rw [List.cons_append, giveBack, List.nil_append, goesOn]
      exact map_of_ok _ read

theorem reads_finalReturn {value : Option Expr} (simple : (Statement.giveBack value).isSimple)
    (enough : (Statement.giveBack value).words.length ≤ fuel) :
    Reads (finalReturn (expression fuel)) (Statement.giveBack value).words [.giveBack value]
      Ends := by
  have reads := (reads_giveBack simple enough).map fun statement => [statement]
  rw [words_giveBack]
  refine reads.marked ?_
  intro token rest isReturn
  rw [finalReturn, if_pos isReturn]

/-- Without a return, the body ends where it is closed. -/
theorem reads_noFinalReturn (fuel : Nat) :
    Reads (finalReturn (expression fuel)) [] [] (StartsIn [.defineMark, .programEnd]) := by
  intro written rest spelled starts
  cases spelled
  rcases starts with ⟨token, later, rfl, member⟩
  rw [List.nil_append, finalReturn, if_neg]
  intro isReturn
  rw [isReturn] at member
  exact absurd member (by decide)

/-- What ends an open function is a definition or the end of the program. -/
theorem MayFollow.startsIn_of_open {name : String} {parameters : List String} {statements : Block}
    (openEnd : endsInReturn statements = false) {rest : List Token}
    (follows : MayFollow (.define name parameters statements) rest) :
    StartsIn [.defineMark, .programEnd] rest := by
  rcases follows.tolerated with ⟨token, later, tokens, tolerated⟩
  refine ⟨token, later, tokens, ?_⟩
  simpa [Statement.tolerates, openEnd] using tolerated

/-- The body of a function with a return at its end. -/
theorem reads_closedBody (readsStatements : ReadsStatements fuel) {first : Block}
    {value : Option Expr} (canonical : isCanonicalBlock false (first ++ [.giveBack value]))
    (simple : isSimpleBlock (first ++ [.giveBack value]))
    (admitted : ∀ member ∈ first, member.head ∉ BlockOwner.function.closing)
    (enough : (blockWords (first ++ [.giveBack value])).length < fuel)
    (name : String) (parameters : List String) :
    Reads
      (body fuel .function >>= fun first => finalReturn (expression fuel) >>= fun final =>
        return Statement.define name parameters (first ++ final))
      (blockWords (first ++ [.giveBack value]))
      (.define name parameters (first ++ [.giveBack value])) Ends := by
  have canonicalAll : ∀ member ∈ first ++ [.giveBack value], member.isCanonical :=
    fun member isMember => isCanonical_of_mem canonical isMember
  have simpleAll : ∀ member ∈ first ++ [.giveBack value], member.isSimple :=
    fun member isMember => isSimple_of_mem simple isMember
  have isLast : Statement.giveBack value ∈ first ++ [.giveBack value] :=
    List.mem_append_right _ (List.mem_singleton_self _)
  have chained : Chained [.returnMark] first := by
    have chainedAll := chained_of_isCanonicalBlock canonical (List.nil_subset _)
      (fun _ kind member => by cases member)
    exact chained_of_append chainedAll
  have words : blockWords (first ++ [.giveBack value]) =
      blockWords first ++ (Statement.giveBack value).words := by
    rw [blockWords_append, blockWords, blockWords, List.append_nil]
  rw [words] at enough ⊢
  rw [List.length_append] at enough
  have readsFirst : Reads (body fuel .function) (blockWords first) first
      (StartsIn [.returnMark]) := by
    refine reads_body readsStatements (by decide) ?_ ?_ chained admitted (by omega)
    · exact fun member isMember => canonicalAll member (List.mem_append_left _ isMember)
    · exact fun member isMember => simpleAll member (List.mem_append_left _ isMember)
  have readsFinal : Reads (finalReturn (expression fuel)) (Statement.giveBack value).words
      [.giveBack value] Ends := reads_finalReturn (simpleAll _ isLast) (by omega)
  have readsRest := readsFinal.bind_return
    fun final => Statement.define name parameters (first ++ final)
  refine readsFirst.bind readsRest ?_
  intro written rest spelled _
  exact (starts_of_statement spelled rest).1

/-- The body of a function without a return at its end. -/
theorem reads_openBody (readsStatements : ReadsStatements fuel) {statements : Block}
    (canonical : isCanonicalBlock false statements) (simple : isSimpleBlock statements)
    (admitted : ∀ member ∈ statements, member.head ∉ BlockOwner.function.closing)
    (enough : (blockWords statements).length < fuel) (name : String) (parameters : List String) :
    Reads
      (body fuel .function >>= fun first => finalReturn (expression fuel) >>= fun final =>
        return Statement.define name parameters (first ++ final))
      (blockWords statements) (.define name parameters statements)
      (StartsIn [.defineMark, .programEnd]) := by
  have chained : Chained [.defineMark, .programEnd] statements := by
    apply chained_of_isCanonicalBlock canonical (by decide)
    intro outermost
    cases outermost
  have readsAll : Reads (body fuel .function) (blockWords statements) statements
      (StartsIn [.defineMark, .programEnd]) := by
    refine reads_body readsStatements (by decide) ?_ ?_ chained admitted enough
    · exact fun member isMember => isCanonical_of_mem canonical isMember
    · exact fun member isMember => isSimple_of_mem simple isMember
  have readsRest := (reads_noFinalReturn fuel).bind_return
    fun final => Statement.define name parameters (statements ++ final)
  have words : blockWords statements = blockWords statements ++ [] := (List.append_nil _).symm
  rw [List.append_nil] at readsRest
  rw [words]
  refine readsAll.bind readsRest ?_
  intro written rest spelled starts
  cases spelled
  exact starts

theorem reads_functionBody (readsStatements : ReadsStatements fuel) {statements : Block}
    (isBody : isFunctionBody statements) (canonical : isCanonicalBlock false statements)
    (simple : isSimpleBlock statements) (enough : (blockWords statements).length < fuel)
    (name : String) (parameters : List String) :
    Reads
      (body fuel .function >>= fun first => finalReturn (expression fuel) >>= fun final =>
        return Statement.define name parameters (first ++ final))
      (blockWords statements) (.define name parameters statements)
      (MayFollow (.define name parameters statements)) := by
  rcases cases_of_isFunctionBody isBody with
    ⟨first, value, rfl, admitted⟩ | ⟨openEnd, admitted⟩
  · have reads := reads_closedBody readsStatements canonical simple admitted enough name parameters
    exact reads.weaken fun rest follows => follows.ends
  · have reads := reads_openBody readsStatements canonical simple admitted enough name parameters
    exact reads.weaken fun rest follows => follows.startsIn_of_open openEnd

theorem reads_define (readsStatements : ReadsStatements fuel) {statements : Block}
    (isBody : isFunctionBody statements) (canonical : isCanonicalBlock false statements)
    (simple : isSimpleBlock statements) (enough : (blockWords statements).length < fuel)
    (name : String) (names : List String) :
    Reads (define (expression fuel) (body fuel))
      (.name name :: (names.map .name ++ blockWords statements)) (.define name names statements)
      (MayFollow (.define name names statements)) := by
  apply Reads.name_bind
  rintro token rfl
  intro written rest spelled follows
  rcases spelled.split with ⟨nameTokens, bodyTokens, rfl, spelledNames, spelledBody⟩
  have ends := ends_of_block spelledBody follows.ends
  have namesRead : (fun tokens => .ok (parameters tokens) : Parser (List String))
      (nameTokens ++ (bodyTokens ++ rest)) = .ok (names, bodyTokens ++ rest) := by
    simp only [parameters_of_names spelledNames ends]
  rw [List.append_assoc, bind_of_ok namesRead]
  exact reads_functionBody readsStatements isBody canonical simple enough token.text names
    bodyTokens rest spelledBody follows

theorem statement_succ (fuel : Nat) (tokens : List Token) :
    statement (fuel + 1) tokens =
      statementWith (expression fuel) (body fuel) fuel tokens := rfl

/-- A statement behind its mark is read as the whole statement. -/
theorem Reads.statement {inner : Parser Statement} {kind : Kind} {words : List Word}
    {result : Statement} {follow : List Token → Prop} (reads : Reads inner words result follow)
    (dispatch : ∀ token rest, token.kind = kind →
      statementWith (expression fuel) (body fuel) fuel (token :: rest) = inner rest)
    (implies : ∀ rest, MayFollow result rest → follow rest) :
    Reads (statement (fuel + 1)) (.mark kind :: words) result (MayFollow result) :=
  (reads.marked dispatch).weaken implies

theorem reads_assign {name : String} {value : Expr} (simple : value.isSimple)
    (enough : value.words.length < fuel) :
    Reads (statement (fuel + 1)) (.name name :: .mark .assign :: value.words)
      (.assign name value) Ends := by
  intro written rest spelled ends
  rcases spelled with _ | ⟨⟨isName, rfl⟩, _ | ⟨isAssign, tail⟩⟩
  rename_i first second later
  have sameKind : second.kind = .assign := isAssign
  have read := (reads_expression simple enough).map (Statement.assign first.text) _ rest tail ends
  simp only [List.cons_append, statement_succ, statementWith, isName, startsWith, sameKind,
    beq_self_eq_true, if_true, List.drop_succ_cons, List.drop_zero]
  exact read

theorem reads_input (name : String) :
    Reads ((fun token => Statement.input token.text) <$> expect .identifier .variableName)
      [.name name] (.input name) fun _ => True := by
  intro written rest spelled _
  rcases spelled with _ | ⟨⟨isName, rfl⟩, _ | _⟩
  apply map_of_ok fun token : Token => Statement.input token.text
  rw [List.cons_append, List.nil_append, expect, if_pos isName]

theorem exception?_of_message {message : String} {written : List Token}
    (spelled : Spelled [.mark .leftParen, .message message, .mark .rightParen] written)
    (rest : List Token) : exception? (written ++ rest) = some (message, rest) := by
  rcases spelled with _ | ⟨isLeft, _ | ⟨isMessage, _ | ⟨isRight, _ | _⟩⟩⟩
  have sameLeft : Token.kind _ = .leftParen := isLeft
  have sameRight : Token.kind _ = .rightParen := isRight
  rcases isMessage with ⟨isName, named⟩ | ⟨isString, text⟩
  · simp only [List.cons_append, List.nil_append, exception?, sameLeft, sameRight, isName, named,
      and_self, if_true]
  · simp only [List.cons_append, List.nil_append, exception?, sameLeft, sameRight, isString, text,
      and_self, if_true]

theorem reads_raise (message : String) :
    Reads (statement (fuel + 1)) [.mark .leftParen, .message message, .mark .rightParen]
      (.raise message) fun _ => True := by
  intro written rest spelled _
  have exception := exception?_of_message spelled rest
  rcases spelled with _ | ⟨isLeft, tail⟩
  have sameLeft : Token.kind _ = .leftParen := isLeft
  rw [List.cons_append] at exception ⊢
  rw [statement_succ, statementWith, sameLeft]
  simp only [exception]

theorem MayFollow.startsIn_of_attempt {statements handler : Block} {rest : List Token}
    (follows : MayFollow (.attempt statements handler) rest) :
    StartsIn BlockOwner.handler.closing rest := by
  rcases follows.tolerated with ⟨token, later, tokens, tolerated⟩
  exact ⟨token, later, tokens, of_decide_eq_true tolerated⟩

theorem reads_statements (fuel : Nat) : ReadsStatements fuel := by
  induction fuel with
  | zero =>
      intro member _ _ enough
      exact absurd enough (Nat.not_lt_zero _)
  | succ fuel ih =>
      intro member canonical simple enough
      cases member with
      | assign name value =>
          simp only [Statement.words, List.length_cons] at enough
          exact (reads_assign simple (by omega)).weaken fun rest follows => follows.ends
      | input name =>
          refine (reads_input name).statement ?_ fun rest _ => trivial
          intro token rest isKind
          rw [statementWith, isKind]
      | output value =>
          simp only [Statement.words, List.length_cons] at enough
          have reads : Reads (expression fuel) value.words value Ends :=
            reads_expression simple (by omega)
          refine (reads.map Statement.output).statement ?_ fun rest follows => follows.ends
          intro token rest isKind
          rw [statementWith, isKind]
      | outputMany direction count =>
          simp only [Statement.words, List.length_cons] at enough
          have reads : Reads (expression fuel) count.words count Ends :=
            reads_expression simple (by omega)
          refine (reads.map (Statement.outputMany direction)).statement ?_
            fun rest follows => follows.ends
          intro token rest isKind
          rw [statementWith, isKind]
      | call callee arguments =>
          have tokens : arguments.all Expr.isToken := simple
          rw [Statement.words, length_callWords tokens] at enough
          have length : arguments.length + 2 ≤ fuel := Nat.le_of_lt_succ enough
          rcases Nat.exists_eq_add_of_le' length with ⟨more, rfl⟩
          have rounds : arguments.length < more + (arguments.length + 2) := by omega
          have reads := (reads_call callee tokens (more + arguments.length) rounds).map
            fun called => Statement.call called.1 called.2
          refine reads.statement ?_ fun rest follows => follows.ends
          intro token rest isKind
          rw [statementWith, isKind]
          rfl
      | define name parameters statements =>
          simp only [Statement.isCanonical, Bool.and_eq_true] at canonical
          simp only [Statement.words, List.length_cons, List.length_append] at enough
          have reads := reads_define ih canonical.1 canonical.2 simple (by omega) name parameters
          refine reads.statement ?_ fun rest follows => follows
          intro token rest isKind
          rw [statementWith, isKind]
      | giveBack value =>
          have reads := reads_giveBack simple (Nat.le_of_lt_succ enough)
          rw [words_giveBack]
          refine reads.statement ?_ fun rest follows => follows.ends
          intro token rest isKind
          rw [statementWith, isKind]
      | conditional condition statements fallback =>
          simp only [Statement.isCanonical, Statement.isSimple, Bool.and_eq_true]
            at canonical simple
          simp only [Statement.words, List.length_cons, List.length_append] at enough
          have readsLater := reads_fallback ih canonical.2 simple.2 (by omega)
            (show fallback.words.length ≤ fuel by omega)
          have reads := reads_branch ih Statement.conditional canonical.1 simple.1.1 simple.1.2
            (by omega) readsLater
          simp only [Statement.words, List.cons_append, List.append_assoc]
          refine reads.statement ?_ fun rest _ => trivial
          intro token rest isKind
          rw [statementWith, isKind]
          rfl
      | whileLoop condition statements =>
          simp only [Statement.isSimple, Bool.and_eq_true] at simple
          simp only [Statement.words, List.length_cons, List.length_append] at enough
          have reads := reads_whileLoop ih canonical simple.1 simple.2 (by omega)
          simp only [Statement.words, List.cons_append, List.append_assoc]
          refine reads.statement ?_ fun rest _ => trivial
          intro token rest isKind
          rw [statementWith, isKind]
      | forLoop name range statements =>
          simp only [Statement.isSimple, Bool.and_eq_true] at simple
          simp only [Statement.words, List.length_cons, List.length_append] at enough
          have reads : Reads (forLoop (expression fuel) (body fuel)) _
              (.forLoop name range statements) _ :=
            reads_forLoop ih canonical simple.1 simple.2 (by omega)
          simp only [Statement.words, List.cons_append, List.append_assoc]
          refine reads.statement ?_ fun rest _ => trivial
          intro token rest isKind
          rw [statementWith, isKind]
      | attempt statements handler =>
          simp only [Statement.isCanonical, Statement.isSimple, Bool.and_eq_true]
            at canonical simple
          simp only [Statement.words, List.length_cons, List.length_append] at enough
          have reads := reads_attempt ih canonical.1.1 canonical.1.2 canonical.2 simple.1 simple.2
            (by omega)
          refine reads.statement ?_ fun rest follows => follows.startsIn_of_attempt
          intro token rest isKind
          rw [statementWith, isKind]
      | raise message => exact (reads_raise message).weaken fun rest _ => trivial

theorem reads_program {program : Block} (canonical : isCanonicalProgram program)
    (simple : isSimpleBlock program) (enough : (blockWords program).length < fuel) :
    Reads (Parser.program fuel) (programWords program) program fun _ => True := by
  have chained : Chained [.programEnd] program := by
    apply chained_of_isCanonicalBlock canonical (by decide)
    intro _ kind member
    exact List.mem_singleton.mp member
  have readsBody : Reads (body fuel .program) (blockWords program) program
      (StartsIn [.programEnd]) := by
    refine reads_body (reads_statements fuel) (List.Subset.refl _) ?_ ?_ chained ?_ enough
    · exact fun member isMember => isCanonical_of_mem canonical isMember
    · exact fun member isMember => isSimple_of_mem simple isMember
    · exact fun member _ =>
        head_not_mem_closing BlockOwner.noConfusion BlockOwner.noConfusion member
  have reads : Reads
      (body fuel .program >>= fun statements =>
        discard (expect .programEnd .programEnd) >>= fun _ => return statements)
      (blockWords program ++ [.mark .programEnd]) program fun _ => True := by
    refine readsBody.bind (reads_expect_return program _) ?_
    intro written rest spelled _
    exact startsIn_of_mark (List.mem_singleton_self _) spelled rest
  apply Reads.expect_bind
  exact reads

end Parser

/-- A program of canonical structure with simple expressions, written down in any spelling without
separators, is read back as exactly that program; and every such program has a spelling. -/
theorem parseProgram_of_spelled {program : Block} (canonical : isCanonicalProgram program)
    (simple : isSimpleBlock program) :
    (∀ tokens, Spelled (programWords program) tokens → parseProgram tokens = .ok program) ∧
      ∃ tokens, Spelled (programWords program) tokens := by
  refine ⟨?_, _, spelled_map_token .start (programWords program)⟩
  intro tokens spelled
  have length : tokens.length = (blockWords program).length + 2 := by
    rw [spelled.length_eq, programWords, List.cons_append, List.length_cons, List.length_append,
      List.length_singleton]
  have enough : (blockWords program).length < Parser.enoughFuel tokens := by
    rw [Parser.enoughFuel, length]
    omega
  have read := Parser.reads_program canonical simple enough tokens [] spelled trivial
  rw [List.append_nil] at read
  rw [parseProgram, Parser.run, read]

/-- A function with a parameter and a return, a loop with a handler in front of a conditional, and
an open function at the end. -/
def nestedProgram : Block :=
  [.define "twice" ["x"] [.output (.variable "x"), .giveBack (some (.variable "x"))],
    .assign "go" (.sentinel .yes),
    .whileLoop (.variable "go")
      [.attempt [.call (.named "twice") [.string "a\"b"]] [.raise "again", .input "go"],
        .conditional (.real ⟨1, some 2⟩) [.giveBack none]
          (.otherwise [.assign "go" (.sentinel .no)])],
    .define "last" [] [.attempt [] []]]

theorem parseProgram_of_spelled_nestedProgram :
    parseProgram ((programWords nestedProgram).map (Word.token .start)) = .ok nestedProgram :=
  (parseProgram_of_spelled rfl rfl).1 _ (spelled_map_token .start _)

end Mel

import Mel.Proofs.BitLiterals
import Mel.Proofs.RoundTrip

/-!
# Precedence

Expressions with operators are written down with no more parentheses than they need: an operand has
them if and only if it binds more loosely than its place allows. This file proves that such words
are read as the expression they were written for.

There is a level for each tier of operators, one for negations and one for all that holds together
by itself. Operators of a tier group to the left, so the operand in front of one may be of its own
level, and the one behind it has to be of a tighter level. An expression is read at a level up to a
token that does not go on with it there: an operator of a looser level, or a token that ends
expressions. A semicolon is no such token, since it may belong to the bits in front of it.
-/

namespace Mel

/-- How tightly an expression holds together, from the loosest to the tightest. -/
inductive Level where
  | comparison
  | additive
  | term
  | negation
  | atom
deriving DecidableEq, Repr

namespace Level

def rank : Level → Nat
  | .comparison => 0
  | .additive => 1
  | .term => 2
  | .negation => 3
  | .atom => 4

/-- The next tighter level, if there is one. -/
def tighter : Level → Level
  | .comparison => .additive
  | .additive => .term
  | .term => .negation
  | .negation | .atom => .atom

theorem rank_le_atom (level : Level) : level.rank ≤ atom.rank := by
  cases level <;> decide

theorem rank_injective {level other : Level} (same : level.rank = other.rank) : level = other := by
  cases level <;> cases other <;> first | rfl | cases same

theorem eq_atom_of_le {level : Level} (tight : atom.rank ≤ level.rank) : level = .atom :=
  rank_injective (Nat.le_antisymm level.rank_le_atom tight)

theorem rank_tighter {level : Level} (notAtom : level ≠ .atom) :
    level.tighter.rank = level.rank + 1 := by
  cases level <;> first | rfl | exact (notAtom rfl).elim

end Level

def Tier.level : Tier → Level
  | .comparison => .comparison
  | .additive => .additive
  | .term => .term

theorem Tier.level_ne_atom (tier : Tier) : tier.level ≠ .atom := by
  cases tier <;> exact Level.noConfusion

theorem Tier.level_ne_negation (tier : Tier) : tier.level ≠ .negation := by
  cases tier <;> exact Level.noConfusion

theorem Tier.level_injective {tier other : Tier} (same : tier.level = other.level) :
    tier = other := by
  cases tier <;> cases other <;> first | rfl | cases same

namespace Operator

/-- The level of an expression that is put together by an operator. -/
def level (operator : Operator) : Level :=
  operator.operation.tier.level

theorem level_ne_atom (operator : Operator) : operator.level ≠ .atom :=
  Tier.level_ne_atom _

theorem rank_lt_tighter (operator : Operator) :
    operator.level.rank < operator.level.tighter.rank := by
  rw [Level.rank_tighter operator.level_ne_atom]
  exact Nat.lt_succ_self _

end Operator

namespace Expr

def level : Expr → Level
  | .binary operator _ _ | .suffix operator _ _ => operator.level
  | .negate _ => .negation
  | _ => .atom

mutual

/-- Is an expression made of atoms, arrays and operators, without calls and without operands behind
suffix operators? -/
def isTree : Expr → Bool
  | .string _ | .real _ | .sentinel _ | .bits _ | .variable _ | .raise _ => true
  | .array elements => areTrees elements
  | .negate operand => operand.isTree
  | .binary operator left right => !operator.operation.isSuffix && left.isTree && right.isTree
  | .suffix operator operand none => operator.operation.isSuffix && operand.isTree
  | .suffix _ _ (some _) | .call _ _ => false

def areTrees : List Expr → Bool
  | [] => true
  | expr :: exprs => expr.isTree && areTrees exprs

end

end Expr

/-- Bits as words. Behind each bit a semicolon may stand. -/
inductive BitWords : List Bool → List Word → Prop where
  | nil : BitWords [] []
  | bit (digit : Bool) {digits : List Bool} {words : List Word} (later : BitWords digits words) :
      BitWords (digit :: digits) (.mark (.sentinel (.ofBit digit)) :: words)
  | marked (digit : Bool) {digits : List Bool} {words : List Word} (later : BitWords digits words) :
      BitWords (digit :: digits)
        (.mark (.sentinel (.ofBit digit)) :: .mark .semicolon :: words)

mutual

/-- The words that an expression is written with. -/
inductive Written : Expr → List Word → Prop where
  | token {expr : Expr} {word : Word} (single : expr.word? = some word) : Written expr [word]
  | bits {digits : List Bool} {words : List Word} (bitWords : BitWords digits words) :
      Written (.bits digits) (.mark .bitsMark :: words)
  | emptyArray : Written (.array []) [.mark .arrayStart, .mark .arrayEnd]
  | array {first : Expr} {later : List Expr} {words behind : List Word}
      (writtenFirst : Written first words) (writtenLater : WrittenBehind later behind) :
      Written (.array (first :: later))
        (.mark .arrayStart :: (words ++ (behind ++ [.mark .arrayEnd])))
  | raise (message : String) :
      Written (.raise message) [.mark .leftParen, .message message, .mark .rightParen]
  | negate {operand : Expr} {words : List Word} (writtenOperand : WrittenAt .atom operand words) :
      Written (.negate operand) (.mark .negate :: words)
  | binary {operator : Operator} {left right : Expr} {words behind : List Word}
      (between : operator.operation.isSuffix = false)
      (writtenLeft : WrittenAt operator.level left words)
      (writtenRight : WrittenAt operator.level.tighter right behind) :
      Written (.binary operator left right) (words ++ .mark (.operator operator) :: behind)
  | suffix {operator : Operator} {operand : Expr} {words : List Word}
      (behind : operator.operation.isSuffix = true)
      (writtenOperand : WrittenAt operator.level operand words) :
      Written (.suffix operator operand none) (words ++ [.mark (.operator operator)])

/-- The words that an expression is written with where a level is asked for. It is put between
parentheses if and only if it is of a looser level. -/
inductive WrittenAt : Level → Expr → List Word → Prop where
  | bare {level : Level} {expr : Expr} {words : List Word} (tight : level.rank ≤ expr.level.rank)
      (written : Written expr words) : WrittenAt level expr words
  | grouped {level : Level} {expr : Expr} {words : List Word}
      (loose : expr.level.rank < level.rank) (written : Written expr words) :
      WrittenAt level expr (.mark .leftParen :: (words ++ [.mark .rightParen]))

/-- The words of further elements of an array, each with a comma in front. -/
inductive WrittenBehind : List Expr → List Word → Prop where
  | nil : WrittenBehind [] []
  | cons {first : Expr} {later : List Expr} {words behind : List Word}
      (writtenFirst : Written first words) (writtenLater : WrittenBehind later behind) :
      WrittenBehind (first :: later) (.mark .comma :: (words ++ behind))

end

theorem exists_bitWords (digits : List Bool) : ∃ words, BitWords digits words := by
  induction digits with
  | nil => exact ⟨[], .nil⟩
  | cons digit digits ih =>
      obtain ⟨words, later⟩ := ih
      exact ⟨_, .bit digit later⟩

theorem exists_writtenAt {expr : Expr} {words : List Word} (written : Written expr words)
    (level : Level) : ∃ words, WrittenAt level expr words := by
  rcases Nat.lt_or_ge expr.level.rank level.rank with loose | tight
  · exact ⟨_, .grouped loose written⟩
  · exact ⟨_, .bare tight written⟩

mutual

theorem exists_written : (expr : Expr) → expr.isTree → ∃ words, Written expr words
  | .string text, _ => ⟨[.text text], .token rfl⟩
  | .real literal, _ => ⟨[.number literal], .token rfl⟩
  | .sentinel constant, _ => ⟨[.mark (.sentinel constant)], .token rfl⟩
  | .variable name, _ => ⟨[.name name], .token rfl⟩
  | .bits digits, _ => by
      obtain ⟨words, bitWords⟩ := exists_bitWords digits
      exact ⟨_, .bits bitWords⟩
  | .raise message, _ => ⟨_, .raise message⟩
  | .array [], _ => ⟨_, .emptyArray⟩
  | .array (first :: later), tree => by
      rw [Expr.isTree, Expr.areTrees, Bool.and_eq_true] at tree
      obtain ⟨words, writtenFirst⟩ := exists_written first tree.1
      obtain ⟨behind, writtenLater⟩ := exists_writtenBehind later tree.2
      exact ⟨_, .array writtenFirst writtenLater⟩
  | .negate operand, tree => by
      rw [Expr.isTree] at tree
      obtain ⟨words, written⟩ := exists_written operand tree
      obtain ⟨words, writtenOperand⟩ := exists_writtenAt written .atom
      exact ⟨_, .negate writtenOperand⟩
  | .binary operator left right, tree => by
      rw [Expr.isTree, Bool.and_eq_true, Bool.and_eq_true, Bool.not_eq_true'] at tree
      obtain ⟨words, written⟩ := exists_written left tree.1.2
      obtain ⟨words, writtenLeft⟩ := exists_writtenAt written operator.level
      obtain ⟨behind, written⟩ := exists_written right tree.2
      obtain ⟨behind, writtenRight⟩ := exists_writtenAt written operator.level.tighter
      exact ⟨_, .binary tree.1.1 writtenLeft writtenRight⟩
  | .suffix operator operand none, tree => by
      rw [Expr.isTree, Bool.and_eq_true] at tree
      obtain ⟨words, written⟩ := exists_written operand tree.2
      obtain ⟨words, writtenOperand⟩ := exists_writtenAt written operator.level
      exact ⟨_, .suffix tree.1 writtenOperand⟩

theorem exists_writtenBehind : (exprs : List Expr) → Expr.areTrees exprs →
    ∃ words, WrittenBehind exprs words
  | [], _ => ⟨[], .nil⟩
  | first :: later, trees => by
      rw [Expr.areTrees, Bool.and_eq_true] at trees
      obtain ⟨words, writtenFirst⟩ := exists_written first trees.1
      obtain ⟨behind, writtenLater⟩ := exists_writtenBehind later trees.2
      exact ⟨_, .cons writtenFirst writtenLater⟩

end

/-- Marks with which an expression can begin. -/
def Kind.begins : Kind → Bool
  | .sentinel _ | .bitsMark | .arrayStart | .leftParen | .negate => true
  | _ => false

/-- Can an expression begin with a word? -/
def Word.begins : Word → Bool
  | .name _ | .text _ | .number _ => true
  | .mark kind => kind.begins
  | .message _ => false

theorem name_or_text_of_kind {word : Word} {token : Token} (begins : word.begins)
    (spelled : word.SpelledBy token) (isName : token.kind = .identifier ∨ token.kind = .string) :
    (∃ name, word = .name name) ∨ ∃ text, word = .text text := by
  cases word with
  | name identifier => exact .inl ⟨identifier, rfl⟩
  | text content => exact .inr ⟨content, rfl⟩
  | message content => cases begins
  | number literal => rcases isName with isName | isName <;> cases spelled.1.symm.trans isName
  | mark kind =>
      have isKind : token.kind = kind := spelled
      subst isKind
      rw [Word.begins] at begins
      rcases isName with isName | isName <;> rw [isName] at begins <;> cases begins

theorem begins_of_word? {expr : Expr} {word : Word} (single : expr.word? = some word) :
    word.begins := by
  cases expr <;> cases single <;> rfl

mutual

theorem Written.begins {expr : Expr} {words : List Word} : Written expr words →
    ∃ word later, words = word :: later ∧ word.begins
  | .token single => ⟨_, [], rfl, begins_of_word? single⟩
  | .bits _ | .emptyArray | .array _ _ | .raise _ | .negate _ => ⟨_, _, rfl, rfl⟩
  | .binary _ writtenLeft _ => by
      obtain ⟨word, later, rfl, begins⟩ := writtenLeft.begins
      exact ⟨word, _, rfl, begins⟩
  | .suffix _ writtenOperand => by
      obtain ⟨word, later, rfl, begins⟩ := writtenOperand.begins
      exact ⟨word, _, rfl, begins⟩

theorem WrittenAt.begins {level : Level} {expr : Expr} {words : List Word} :
    WrittenAt level expr words → ∃ word later, words = word :: later ∧ word.begins
  | .bare _ written => written.begins
  | .grouped _ _ => ⟨_, _, rfl, rfl⟩

end

/-- A name or a text at the head of an expression is the whole of it, or an operator follows. -/
def SecondIsOperator (words : List Word) : Prop :=
  ∀ first later, words = first :: later →
    ((∃ name, first = .name name) ∨ ∃ text, first = .text text) →
      later = [] ∨ ∃ operator behind, later = .mark (.operator operator) :: behind

theorem SecondIsOperator.append {words : List Word} (second : SecondIsOperator words)
    (nonempty : words ≠ []) (operator : Operator) (behind : List Word) :
    SecondIsOperator (words ++ .mark (.operator operator) :: behind) := by
  intro first later isWords isName
  cases words with
  | nil => exact (nonempty rfl).elim
  | cons word words =>
      obtain ⟨rfl, rfl⟩ := List.cons.inj isWords
      right
      rcases second _ _ rfl isName with rfl | ⟨inner, tail, rfl⟩
      · exact ⟨operator, behind, rfl⟩
      · exact ⟨inner, _, rfl⟩

theorem WrittenAt.ne_nil {level : Level} {expr : Expr} {words : List Word}
    (written : WrittenAt level expr words) : words ≠ [] := by
  obtain ⟨word, later, rfl, -⟩ := written.begins
  exact List.cons_ne_nil _ _

mutual

theorem Written.secondIsOperator {expr : Expr} {words : List Word} :
    Written expr words → SecondIsOperator words
  | .token _ => fun first later isWords _ => .inl (List.cons.inj isWords).2.symm
  | .bits _ | .emptyArray | .array _ _ | .raise _ | .negate _ => by
      rintro first later isWords (⟨name, rfl⟩ | ⟨text, rfl⟩) <;> cases isWords
  | .binary _ writtenLeft _ => writtenLeft.secondIsOperator.append writtenLeft.ne_nil _ _
  | .suffix _ writtenOperand => writtenOperand.secondIsOperator.append writtenOperand.ne_nil _ _

theorem WrittenAt.secondIsOperator {level : Level} {expr : Expr} {words : List Word} :
    WrittenAt level expr words → SecondIsOperator words
  | .bare _ written => written.secondIsOperator
  | .grouped _ _ => by
      rintro first later isWords (⟨name, rfl⟩ | ⟨text, rfl⟩) <;> cases isWords

end

theorem level_of_word? {expr : Expr} {word : Word} (single : expr.word? = some word) :
    expr.level = .atom := by
  cases expr <;> first | rfl | cases single

/-- An expression that is written with a single word is an atom. -/
theorem Written.isAtom_of_singleton {expr : Expr} {words : List Word} (written : Written expr words)
    {word : Word} (single : words = [word]) : expr.level = .atom := by
  cases written with
  | token isWord => exact level_of_word? isWord
  | bits _ | emptyArray | array _ _ | raise _ => rfl
  | negate writtenOperand => exact (writtenOperand.ne_nil (List.cons.inj single).2).elim
  | binary _ writtenLeft _ =>
      obtain ⟨first, later, rfl, -⟩ := writtenLeft.begins
      simp at single
  | suffix _ writtenOperand =>
      obtain ⟨first, later, rfl, -⟩ := writtenOperand.begins
      simp at single

/-- An atom does not begin with a negation. -/
theorem WrittenAt.exists_ne_negate {expr : Expr} {words : List Word}
    (written : WrittenAt .atom expr words) :
    ∃ word later, words = word :: later ∧
      ∀ token, word.SpelledBy token → token.kind ≠ .negate := by
  have otherMark {kind : Kind} (other : kind ≠ .negate) (token : Token)
      (isMark : (Word.mark kind).SpelledBy token) : token.kind ≠ .negate := by
    rw [show token.kind = kind from isMark]
    exact other
  cases written with
  | grouped loose written => exact ⟨_, _, rfl, otherMark Kind.noConfusion⟩
  | bare tight written =>
      have isAtom := Level.eq_atom_of_le tight
      cases written with
      | token single =>
          refine ⟨_, _, rfl, fun token isWord => ?_⟩
          rcases Parser.kind_of_word single isWord with isKind | isKind | isKind | ⟨_, isKind⟩ <;>
            simp [isKind]
      | bits _ | emptyArray | array _ _ | raise _ => exact ⟨_, _, rfl, otherMark Kind.noConfusion⟩
      | negate _ => cases isAtom
      | binary _ _ _ | suffix _ _ => exact (Operator.level_ne_atom _ isAtom).elim

section

variable {level : Level} {expr : Expr} {words : List Word}

/-- An expression of the level itself stands there without parentheses. -/
theorem WrittenAt.written (written : WrittenAt level expr words) (same : expr.level = level) :
    Written expr words := by
  cases written with
  | bare tight written => exact written
  | grouped loose written =>
      rw [same] at loose
      exact (Nat.lt_irrefl _ loose).elim

/-- An expression of another level is written as at the next tighter one. -/
theorem WrittenAt.tighten (written : WrittenAt level expr words) (notAtom : level ≠ .atom)
    (other : expr.level ≠ level) : WrittenAt level.tighter expr words := by
  have isNext := Level.rank_tighter notAtom
  have otherRank : expr.level.rank ≠ level.rank :=
    fun sameRank => other (Level.rank_injective sameRank)
  cases written with
  | bare tight written => exact .bare (by omega) written
  | grouped loose written => exact .grouped (by omega) written

end

/-- At the level of negations, a negation is written or an atom. -/
theorem WrittenAt.cases_of_negation {expr : Expr} {words : List Word}
    (written : WrittenAt .negation expr words) :
    (∃ operand behind, expr = .negate operand ∧ words = .mark .negate :: behind ∧
      WrittenAt .atom operand behind) ∨ WrittenAt .atom expr words := by
  by_cases same : expr.level = .negation
  · left
    cases written.written same with
    | negate writtenOperand => exact ⟨_, _, rfl, rfl, writtenOperand⟩
    | token single => cases (level_of_word? single).symm.trans same
    | bits _ | emptyArray | array _ _ | raise _ => cases same
    | binary _ _ _ | suffix _ _ => exact (Tier.level_ne_negation _ same).elim
  · exact .inr (written.tighten Level.noConfusion same)

/-- At the level of a tier, an operator of the tier is written, or what is of a tighter level. -/
theorem WrittenAt.cases_of_tier {tier : Tier} {expr : Expr} {words : List Word}
    (written : WrittenAt tier.level expr words) :
    WrittenAt tier.level.tighter expr words ∨
    (∃ operator left right first behind, operator.operation.tier = tier ∧
      operator.operation.isSuffix = false ∧ expr = .binary operator left right ∧
      words = first ++ .mark (.operator operator) :: behind ∧
      WrittenAt tier.level left first ∧ WrittenAt tier.level.tighter right behind) ∨
    (∃ operator operand first, operator.operation.tier = tier ∧
      operator.operation.isSuffix = true ∧ expr = .suffix operator operand none ∧
      words = first ++ [.mark (.operator operator)] ∧ WrittenAt tier.level operand first) := by
  by_cases same : expr.level = tier.level
  · right
    cases written.written same with
    | binary between writtenLeft writtenRight =>
        obtain rfl := Tier.level_injective same
        exact .inl ⟨_, _, _, _, _, rfl, between, rfl, rfl, writtenLeft, writtenRight⟩
    | suffix behind writtenOperand =>
        obtain rfl := Tier.level_injective same
        exact .inr ⟨_, _, _, rfl, behind, rfl, rfl, writtenOperand⟩
    | token single => exact (tier.level_ne_atom (same.symm.trans (level_of_word? single))).elim
    | bits _ | emptyArray | array _ _ | raise _ => exact (tier.level_ne_atom same.symm).elim
    | negate _ => exact (tier.level_ne_negation same.symm).elim
  · exact .inl (written.tighten tier.level_ne_atom same)

namespace Parser

/-- Does an expression that is read at a level stop in front of these tokens? -/
def StopsAt (level : Level) (rest : List Token) : Prop :=
  ∀ token ∈ rest.head?, (token.kind.endsExpression ∧ token.kind ≠ .semicolon) ∨
    ∃ operator : Operator, token.kind = .operator operator ∧ operator.level.rank < level.rank

theorem StopsAt.mono {level tighter : Level} (tight : level.rank ≤ tighter.rank)
    {rest : List Token} (stops : StopsAt level rest) : StopsAt tighter rest := by
  intro token isHead
  rcases stops token isHead with ends | ⟨operator, isOperator, less⟩
  · exact .inl ends
  · exact .inr ⟨operator, isOperator, less.trans_le tight⟩

theorem stopsAt_of_kind {level : Level} {token : Token} {rest : List Token}
    (ends : token.kind.endsExpression) (noSemicolon : token.kind ≠ .semicolon) :
    StopsAt level (token :: rest) := by
  intro head isHead
  cases isHead
  exact .inl ⟨ends, noSemicolon⟩

theorem stopsAt_of_operator {level : Level} {operator : Operator} {token : Token}
    {rest : List Token} (isOperator : token.kind = .operator operator)
    (less : operator.level.rank < level.rank) : StopsAt level (token :: rest) := by
  intro head isHead
  cases isHead
  exact .inr ⟨operator, isOperator, less⟩

/-- Behind a suffix operator no operand is read in front of these tokens. -/
theorem StopsAt.noOperand {level : Level} {rest : List Token} (stops : StopsAt level rest) :
    (endsExpression rest || startsWithOperator rest) = true := by
  cases rest with
  | nil => rfl
  | cons token rest =>
      rcases stops token rfl with ⟨ends, -⟩ | ⟨operator, isOperator, -⟩
      · rw [Parser.endsExpression]
        cases isKind : token.kind <;> simp_all [Kind.endsExpression]
      · simp [startsWithOperator, isOperator]

/-- No operator of a tier goes on behind an expression that has been read at its level. -/
theorem StopsAt.noOperator {tier : Tier} {rest : List Token} (stops : StopsAt tier.level rest) :
    operator? tier rest = none := by
  cases rest with
  | nil => rfl
  | cons token rest =>
      rw [operator?]
      split
      · rename_i operator isOperator
        rw [if_neg]
        intro sameTier
        rcases stops token rfl with ⟨ends, -⟩ | ⟨other, isOther, less⟩
        · rw [isOperator] at ends
          cases ends
        · cases isOther.symm.trans isOperator
          rw [Operator.level, sameTier] at less
          exact Nat.lt_irrefl _ less
      · rfl

/-- Bits do not go on in front of these tokens. -/
theorem StopsAt.noBits {level : Level} {rest : List Token} (stops : StopsAt level rest)
    (afterBit : Bool) : bits afterBit rest = ([], rest) := by
  cases rest with
  | nil => rfl
  | cons token rest =>
      rcases stops token rfl with ⟨ends, noSemicolon⟩ | ⟨operator, isOperator, -⟩
      · cases isKind : token.kind <;> simp_all [bits, Kind.endsExpression]
      · simp [bits, isOperator]

theorem bits_of_bitWords {digits : List Bool} {words : List Word} (bitWords : BitWords digits words)
    {level : Level} {tokens rest : List Token} (spelled : Spelled words tokens)
    (stops : StopsAt level rest) (afterBit : Bool) :
    bits afterBit (tokens ++ rest) = (digits, rest) := by
  induction bitWords generalizing tokens afterBit with
  | nil =>
      cases spelled
      exact stops.noBits afterBit
  | bit digit later ih =>
      rcases spelled with _ | ⟨isBit, tail⟩
      exact bits_cons isBit afterBit (ih tail true)
  | marked digit later ih =>
      rcases spelled with _ | ⟨isBit, _ | ⟨isSemicolon, tail⟩⟩
      rename_i token tokens
      refine bits_cons isBit afterBit ?_
      exact (bits_semicolon isSemicolon _).trans (ih tail false)

section

variable {inner : Parser Expr} {fuel : Nat}

/-- Does a parser read what is written with fewer words? -/
def ReadsBelow (inner : Parser Expr) (fuel : Nat) : Prop :=
  ∀ expr words, Written expr words → words.length < fuel →
    Reads inner words expr (StopsAt .comparison)

theorem startsWith_iff {kind : Kind} {tokens : List Token} :
    startsWith kind tokens ↔ ∃ token later, tokens = token :: later ∧ token.kind = kind := by
  cases tokens <;> simp [startsWith]

/-- Behind an element of an array stands a comma or the end of the array. -/
theorem stopsAt_of_behind {exprs : List Expr} {words : List Word}
    (written : WrittenBehind exprs words) {tokens rest : List Token}
    (spelled : Spelled words tokens) (ends : startsWith .arrayEnd rest) (level : Level) :
    StopsAt level (tokens ++ rest) := by
  cases written with
  | nil =>
      cases spelled
      obtain ⟨token, later, rfl, isEnd⟩ := startsWith_iff.mp ends
      exact stopsAt_of_kind (by rw [isEnd]; rfl) (by rw [isEnd]; exact Kind.noConfusion)
  | cons writtenFirst writtenLater =>
      rcases spelled with _ | ⟨isComma, tail⟩
      rename_i token tokens
      have isComma : token.kind = .comma := isComma
      exact stopsAt_of_kind (by rw [isComma]; rfl) (by rw [isComma]; exact Kind.noConfusion)

theorem reads_behind (reads : ReadsBelow inner fuel) {exprs : List Expr} {words : List Word}
    (written : WrittenBehind exprs words) (short : words.length ≤ fuel) {rounds : Nat}
    (enough : words.length < rounds) :
    Reads (elements inner rounds) words exprs (startsWith .arrayEnd ·) := by
  induction exprs generalizing words rounds with
  | nil =>
      cases written
      intro tokens rest spelled ends
      cases spelled
      obtain ⟨rounds, rfl⟩ := Nat.exists_eq_add_of_lt enough
      obtain ⟨token, later, rfl, isEnd⟩ := startsWith_iff.mp ends
      simp [elements, isEnd]
  | cons first later ih =>
      rcases written with _ | ⟨writtenFirst, writtenLater⟩
      rename_i firstWords behind
      rw [List.length_cons, List.length_append] at short enough
      obtain ⟨rounds, rfl⟩ : ∃ more, rounds = more + 1 := ⟨rounds - 1, by omega⟩
      have readsFirst := reads first firstWords writtenFirst (by omega)
      have readsLater : Reads (elements inner rounds) behind later (startsWith .arrayEnd ·) :=
        ih writtenLater (by omega) (by omega)
      have readsAll : Reads
          (inner >>= fun first => elements inner rounds >>= fun later => return first :: later)
          (firstWords ++ behind) (first :: later) (startsWith .arrayEnd ·) := by
        refine readsFirst.bind (readsLater.bind_return (first :: ·)) ?_
        intro tokens rest spelled ends
        exact stopsAt_of_behind writtenLater spelled ends .comparison
      refine Reads.marked readsAll fun token rest isComma => ?_
      simp only [elements, isComma, if_true]

theorem reads_array (reads : ReadsBelow inner fuel) {first : Expr} {later : List Expr}
    {words behind : List Word} (writtenFirst : Written first words)
    (writtenLater : WrittenBehind later behind) (short : words.length + behind.length < fuel)
    (follow : List Token → Prop) :
    Reads (array inner fuel) (words ++ (behind ++ [.mark .arrayEnd])) (.array (first :: later))
      follow := by
  intro tokens rest spelled follows
  have notEmpty : startsWith .arrayEnd (tokens ++ rest) = false := by
    obtain ⟨word, more, rfl, begins⟩ := writtenFirst.begins
    rcases spelled with _ | ⟨isFirst, tail⟩
    rename_i token tokens
    rw [List.cons_append, startsWith, beq_eq_false_iff_ne]
    intro isEnd
    cases word with
    | mark kind =>
        cases isFirst.symm.trans isEnd
        cases begins
    | message _ => cases begins
    | name _ => cases isFirst.1.symm.trans isEnd
    | text _ => cases isFirst.1.symm.trans isEnd
    | number _ => cases isFirst.1.symm.trans isEnd
  have endsBehind (tokens rest : List Token) (spelled : Spelled [.mark .arrayEnd] tokens) :
      startsWith .arrayEnd (tokens ++ rest) := by
    rcases spelled with _ | ⟨isEnd, _ | _⟩
    exact startsWith_iff.mpr ⟨_, rest, rfl, isEnd⟩
  have readsLater : Reads
      (elements inner fuel >>= fun later => discard (expect .arrayEnd .arrayEnd) >>= fun _ =>
        return Expr.array (first :: later))
      (behind ++ [.mark .arrayEnd]) (.array (first :: later)) follow :=
    (reads_behind reads writtenLater (by omega) (by omega)).bind (reads_expect_return _ follow)
      fun tokens rest spelled _ => endsBehind tokens rest spelled
  have readsAll : Reads
      (inner >>= fun first => elements inner fuel >>= fun later =>
        discard (expect .arrayEnd .arrayEnd) >>= fun _ => return Expr.array (first :: later))
      (words ++ (behind ++ [.mark .arrayEnd])) (.array (first :: later)) follow := by
    refine (reads first words writtenFirst (by omega)).bind readsLater ?_
    intro tokens rest spelled _
    rcases spelled.split with ⟨behindTokens, endTokens, rfl, spelledBehind, spelledEnd⟩
    rw [List.append_assoc]
    exact stopsAt_of_behind writtenLater spelledBehind (endsBehind _ _ spelledEnd) .comparison
  rw [array, notEmpty]
  exact readsAll tokens rest spelled follows

theorem reads_atom (reads : ReadsBelow inner fuel) {expr : Expr} {words : List Word}
    (written : Written expr words) (isAtom : expr.level = .atom) (short : words.length ≤ fuel) :
    Reads (primary inner fuel) words expr (StopsAt .atom) := by
  cases written with
  | token single =>
      intro tokens rest spelled _
      rcases spelled with _ | ⟨head, _ | _⟩
      exact primary_of_word single head inner fuel rest
  | bits bitWords =>
      intro tokens rest spelled stops
      rcases spelled with _ | ⟨isMark, tail⟩
      have isMark : Token.kind _ = .bitsMark := isMark
      rw [List.cons_append, primary, isMark]
      simp only [bits_of_bitWords bitWords tail stops]
  | emptyArray =>
      intro tokens rest spelled _
      rcases spelled with _ | ⟨isStart, _ | ⟨isEnd, _ | _⟩⟩
      have isStart : Token.kind _ = .arrayStart := isStart
      have isEnd : Token.kind _ = .arrayEnd := isEnd
      rw [List.cons_append, primary, isStart]
      simp [array, startsWith, isEnd]
  | array writtenFirst writtenLater =>
      rw [List.length_cons, List.length_append, List.length_append, List.length_singleton] at short
      refine (reads_array reads writtenFirst writtenLater (by omega) _).marked ?_
      intro token rest isStart
      rw [primary, isStart]
  | raise message =>
      intro tokens rest spelled _
      have exception := exception?_of_message spelled rest
      rcases spelled with _ | ⟨isLeft, tail⟩
      have isLeft : Token.kind _ = .leftParen := isLeft
      rw [List.cons_append] at exception ⊢
      rw [primary, isLeft]
      simp only [exception]
  | negate writtenOperand => cases isAtom
  | binary between writtenLeft writtenRight => exact (Operator.level_ne_atom _ isAtom).elim
  | suffix behind writtenOperand => exact (Operator.level_ne_atom _ isAtom).elim

/-- What stands between the parentheses of a group is no name or text alone. -/
theorem exception?_of_written {expr : Expr} {words : List Word} (written : Written expr words)
    (notAtom : expr.level ≠ .atom) {first : Token} {tokens rest : List Token}
    (spelled : Spelled (words ++ [.mark .rightParen]) tokens) :
    exception? (first :: (tokens ++ rest)) = none := by
  have second := written.secondIsOperator
  have notSingle (word : Word) : words ≠ [word] :=
    fun single => notAtom (written.isAtom_of_singleton single)
  obtain ⟨word, later, rfl, begins⟩ := written.begins
  rcases later with _ | ⟨next, later⟩
  · exact (notSingle word rfl).elim
  · rcases spelled with _ | ⟨isWord, _ | ⟨isNext, tail⟩⟩
    rename_i token nextToken tokens
    -- In front of a closing parenthesis stands no name and no text, as an operator follows those.
    have noName (isRight : nextToken.kind = .rightParen) :
        token.kind ≠ .identifier ∧ token.kind ≠ .string := by
      rw [← not_or]
      intro isName
      rcases second _ _ rfl (name_or_text_of_kind begins isWord isName) with
        isNil | ⟨operator, behind, isOperator⟩
      · cases isNil
      · obtain ⟨rfl, -⟩ := List.cons.inj isOperator
        cases isRight.symm.trans isNext
    change exception? (first :: token :: nextToken :: (tokens ++ rest)) = none
    rw [exception?]
    split
    · rename_i both
      obtain ⟨notIdentifier, notString⟩ := noName both.2
      split
      · exact (notIdentifier ‹_›).elim
      · exact (notString ‹_›).elim
      · rfl
    · rfl

theorem reads_group (reads : ReadsBelow inner fuel) {expr : Expr} {words : List Word}
    (written : Written expr words) (notAtom : expr.level ≠ .atom) (short : words.length < fuel)
    (follow : List Token → Prop) :
    Reads (primary inner fuel) (.mark .leftParen :: (words ++ [.mark .rightParen])) expr
      follow := by
  have readsGroup : Reads (grouped inner) (words ++ [.mark .rightParen]) expr follow := by
    refine (reads expr words written short).bind (reads_expect_return expr follow) ?_
    intro tokens rest spelled _
    rcases spelled with _ | ⟨isRight, _ | _⟩
    have isRight : Token.kind _ = .rightParen := isRight
    exact stopsAt_of_kind (by rw [isRight]; rfl) (by rw [isRight]; exact Kind.noConfusion)
  intro tokens rest spelled follows
  rcases spelled with _ | ⟨isLeft, tail⟩
  have isLeft : Token.kind _ = .leftParen := isLeft
  rw [List.cons_append, primary, isLeft]
  simp only [exception?_of_written written notAtom tail]
  exact readsGroup _ rest tail follows

/-- Expressions of the tightest level are read, with parentheses if they need them. -/
theorem reads_primary (reads : ReadsBelow inner fuel) {expr : Expr} {words : List Word}
    (written : WrittenAt .atom expr words) (short : words.length ≤ fuel) :
    Reads (primary inner fuel) words expr (StopsAt .atom) := by
  cases written with
  | bare tight written =>
      exact reads_atom reads written (Level.eq_atom_of_le tight) short
  | grouped loose written =>
      rw [List.length_cons, List.length_append, List.length_singleton] at short
      refine reads_group reads written ?_ (by omega) _
      intro isAtom
      rw [isAtom] at loose
      exact Nat.lt_irrefl _ loose

/-- A negation is read, and all that is written as an atom. -/
theorem reads_unary (reads : ReadsBelow inner fuel) {expr : Expr} {words : List Word}
    (written : WrittenAt .negation expr words) (short : words.length ≤ fuel) :
    Reads (unary (primary inner fuel)) words expr (StopsAt .negation) := by
  rcases written.cases_of_negation with ⟨operand, behind, rfl, rfl, writtenOperand⟩ | writtenAtom
  · have shortOperand : behind.length ≤ fuel := Nat.le_of_succ_le short
    have readsOperand : Reads (primary inner fuel) behind operand (StopsAt .negation) :=
      (reads_primary reads writtenOperand shortOperand).weaken fun rest stops =>
        stops.mono (by decide)
    refine (readsOperand.map Expr.negate).marked fun token rest isNegate => ?_
    rw [unary, if_pos isNegate]
  · intro tokens rest spelled stops
    have read := reads_primary reads writtenAtom short tokens rest spelled (stops.mono (by decide))
    obtain ⟨word, later, rfl, notNegate⟩ := writtenAtom.exists_ne_negate
    rcases spelled with _ | ⟨isWord, tail⟩
    rw [List.cons_append, unary, if_neg (notNegate _ isWord)]
    exact read

end

/-- The operand behind an operator is read, and what is in front of it is gone on with. -/
theorem chain_of_operator {tier : Tier} {operand : Parser Expr} {left combined : Expr}
    {operator : Operator} (sameTier : operator.operation.tier = tier) {token : Token}
    (isOperator : token.kind = .operator operator) {tokens rest : List Token}
    (read : afterOperator operand left operator tokens = .ok (combined, rest)) (rounds : Nat) :
    chain tier operand (rounds + 1) left (token :: tokens) =
      chain tier operand rounds combined rest := by
  have isNext : operator? tier (token :: tokens) = some (operator, tokens) := by
    rw [operator?, isOperator]
    exact if_pos sameTier
  simp only [chain, isNext]
  exact bind_of_ok read

theorem afterOperator_binary {operand : Parser Expr} {left right : Expr} {operator : Operator}
    (between : operator.operation.isSuffix = false) {tokens rest : List Token}
    (read : operand tokens = .ok (right, rest)) :
    afterOperator operand left operator tokens = .ok (.binary operator left right, rest) := by
  rw [afterOperator, between]
  exact map_of_ok (Expr.binary operator left) read

theorem afterOperator_suffix {operand : Parser Expr} {left : Expr} {operator : Operator}
    (behind : operator.operation.isSuffix = true) {level : Level} {rest : List Token}
    (stops : StopsAt level rest) :
    afterOperator operand left operator rest = .ok (.suffix operator left none, rest) := by
  rw [afterOperator, if_pos behind, if_pos stops.noOperand]

/-- What is written at the level of a tier is read up to its end, and the chain of operators can go
on from there. -/
theorem exists_chain {tier : Tier} {operand : Parser Expr} {limit : Nat}
    (readsOperand : ∀ expr words, WrittenAt tier.level.tighter expr words → words.length ≤ limit →
      Reads operand words expr (StopsAt tier.level.tighter))
    {expr : Expr} {words : List Word} (written : WrittenAt tier.level expr words)
    (short : words.length ≤ limit) :
    ∃ used < words.length, ∀ rounds tokens rest, Spelled words tokens →
      StopsAt tier.level.tighter rest →
      tiered tier operand (rounds + used) (tokens ++ rest) =
        chain tier operand rounds expr rest := by
  -- The operand in front of an operator is of the same tier, and shorter.
  induction length : words.length using Nat.strongRecOn generalizing expr words with
  | ind size ih =>
      subst length
      rcases written.cases_of_tier with
        tight | ⟨operator, left, right, first, behind, rfl, between, rfl, rfl, writtenLeft,
          writtenRight⟩ | ⟨operator, inner, first, rfl, behind, rfl, rfl, writtenOperand⟩
      · refine ⟨0, List.length_pos_iff.mpr tight.ne_nil, fun rounds tokens rest spelled stops => ?_⟩
        have read := readsOperand expr words tight short tokens rest spelled stops
        rw [Nat.add_zero, tiered, bind_of_ok read]
      · rw [List.length_append, List.length_cons] at short ⊢
        obtain ⟨used, less, goesOn⟩ := ih first.length (by simp) writtenLeft (by omega) rfl
        refine ⟨used + 1, by omega, fun rounds tokens rest spelled stops => ?_⟩
        rcases spelled.split with ⟨firstTokens, behindTokens, rfl, spelledFirst, spelledBehind⟩
        rcases spelledBehind with _ | ⟨isOperator, spelledRight⟩
        rename_i token tokens
        have read :=
          readsOperand right behind writtenRight (by omega) tokens rest spelledRight stops
        rw [Nat.add_comm used, ← Nat.add_assoc, List.append_assoc, List.cons_append,
          goesOn (rounds + 1) firstTokens _ spelledFirst
            (stopsAt_of_operator isOperator operator.rank_lt_tighter)]
        exact chain_of_operator rfl isOperator (afterOperator_binary between read) rounds
      · rw [List.length_append, List.length_singleton] at short ⊢
        obtain ⟨used, less, goesOn⟩ := ih first.length (by simp) writtenOperand (by omega) rfl
        refine ⟨used + 1, by omega, fun rounds tokens rest spelled stops => ?_⟩
        rcases spelled.split with ⟨firstTokens, behindTokens, rfl, spelledFirst, spelledBehind⟩
        rcases spelledBehind with _ | ⟨isOperator, _ | _⟩
        rw [Nat.add_comm used, ← Nat.add_assoc, List.append_assoc, List.singleton_append,
          goesOn (rounds + 1) firstTokens _ spelledFirst
            (stopsAt_of_operator isOperator operator.rank_lt_tighter)]
        exact chain_of_operator rfl isOperator (afterOperator_suffix behind stops) rounds

/-- Expressions at the level of a tier are read if those at the next tighter level are. -/
theorem reads_tiered {tier : Tier} {operand : Parser Expr} {fuel : Nat}
    (readsOperand : ∀ expr words, WrittenAt tier.level.tighter expr words → words.length ≤ fuel →
      Reads operand words expr (StopsAt tier.level.tighter))
    (expr : Expr) (words : List Word) (written : WrittenAt tier.level expr words)
    (short : words.length ≤ fuel) :
    Reads (tiered tier operand fuel) words expr (StopsAt tier.level) := by
  obtain ⟨used, less, goesOn⟩ := exists_chain readsOperand written short
  obtain ⟨rounds, rfl⟩ : ∃ rounds, fuel = rounds + 1 + used := ⟨fuel - used - 1, by omega⟩
  intro tokens rest spelled stops
  have tight : tier.level.rank ≤ tier.level.tighter.rank := by
    rw [Level.rank_tighter tier.level_ne_atom]
    exact Nat.le_succ _
  rw [goesOn (rounds + 1) tokens rest spelled (stops.mono tight)]
  simp only [chain, stops.noOperator]

theorem readsBelow_expression (fuel : Nat) : ReadsBelow (expression fuel) fuel := by
  induction fuel with
  | zero =>
      intro expr words written short
      cases short
  | succ fuel ih =>
      intro expr words written short
      have readsUnary := fun expr words => @reads_unary _ _ ih expr words
      have readsTerm := @reads_tiered .term _ fuel readsUnary
      have readsAdditive := @reads_tiered .additive _ fuel readsTerm
      have readsComparison := @reads_tiered .comparison _ fuel readsAdditive
      exact readsComparison expr words (.bare (Nat.zero_le _) written) (Nat.le_of_lt_succ short)

end Parser

/-- An expression made of operators is written down in some way, and in whatever way it is, it is
read again from its words, up to a token that ends expressions and is no semicolon. -/
theorem expression_of_written (expr : Expr) (tree : expr.isTree) :
    (∃ words tokens, Written expr words ∧ Spelled words tokens) ∧
    ∀ words tokens rest, Written expr words → Spelled words tokens →
      (∀ token ∈ rest.head?, token.kind.endsExpression ∧ token.kind ≠ .semicolon) →
      Parser.expression (Parser.enoughFuel (tokens ++ rest)) (tokens ++ rest) =
        .ok (expr, rest) := by
  refine ⟨?_, fun words tokens rest written spelled ends => ?_⟩
  · obtain ⟨words, written⟩ := exists_written expr tree
    exact ⟨words, _, written, spelled_map_token .start words⟩
  · have enough : words.length < Parser.enoughFuel (tokens ++ rest) := by
      rw [Parser.enoughFuel, List.length_append, spelled.length_eq]
      omega
    have stops : Parser.StopsAt .comparison rest := fun token isHead => .inl (ends token isHead)
    exact Parser.readsBelow_expression _ expr words written enough tokens rest spelled stops

/-- `|(a #- (b #+ (lost))) $* (n $!) $< ;;$$$$$$$$;$$$$$$$`, as a tree. -/
def groupedTree : Expr :=
  .binary ⟨.integer, .less⟩
    (.binary ⟨.integer, .mul⟩
      (.negate (.binary ⟨.real, .sub⟩ (.variable "a")
        (.binary ⟨.real, .add⟩ (.variable "b") (.raise "lost"))))
      (.suffix ⟨.integer, .factorial⟩ (.variable "n") none))
    (.bits [true, false])

def groupedWords : List Word :=
  [.mark .negate, .mark .leftParen, .name "a", .mark (.operator ⟨.real, .sub⟩), .mark .leftParen,
    .name "b", .mark (.operator ⟨.real, .add⟩), .mark .leftParen, .message "lost",
    .mark .rightParen, .mark .rightParen, .mark .rightParen, .mark (.operator ⟨.integer, .mul⟩),
    .mark .leftParen, .name "n", .mark (.operator ⟨.integer, .factorial⟩), .mark .rightParen,
    .mark (.operator ⟨.integer, .less⟩), .mark .bitsMark, .mark (.sentinel .bitOne),
    .mark .semicolon, .mark (.sentinel .bitZero)]

theorem written_groupedTree : Written groupedTree groupedWords := by
  have name {level : Level} (name : String) : WrittenAt level (.variable name) [.name name] :=
    .bare level.rank_le_atom (.token rfl)
  have sum : Written (.binary ⟨.real, .add⟩ (.variable "b") (.raise "lost")) _ :=
    .binary rfl (name "b") (.bare (Level.rank_le_atom _) (.raise "lost"))
  have difference : Written (.binary ⟨.real, .sub⟩ (.variable "a") _) _ :=
    .binary rfl (name "a") (.grouped (by decide) sum)
  have product : Written (.binary ⟨.integer, .mul⟩ (.negate _)
      (.suffix ⟨.integer, .factorial⟩ (.variable "n") none)) _ :=
    .binary rfl (.bare (by decide) (.negate (.grouped (by decide) difference)))
      (.grouped (by decide) (.suffix rfl (name "n")))
  have comparison : Written groupedTree _ :=
    .binary rfl (.bare (by decide) product)
      (.bare (by decide) (.bits (.marked true (.bit false .nil))))
  exact comparison

/-- Operators of all tiers, with groups, an exception and a literal of bits among the operands, in
front of a closing parenthesis. -/
theorem expression_of_written_groupedTree :
    groupedTree.isTree ∧
    let tokens := groupedWords.map (Word.token .start)
    let rest := [⟨.rightParen, ")", .start⟩]
    Parser.expression (Parser.enoughFuel (tokens ++ rest)) (tokens ++ rest) =
      .ok (groupedTree, rest) := by
  refine ⟨rfl, (expression_of_written groupedTree rfl).2 _ _ _ written_groupedTree
    (spelled_map_token .start groupedWords) ?_⟩
  intro token isHead
  cases isHead
  exact ⟨rfl, Kind.noConfusion⟩

end Mel

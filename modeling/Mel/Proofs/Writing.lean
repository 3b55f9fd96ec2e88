import Mathlib.Data.List.Forall2
import Mel.Program.Literal

/-!
# Writing programs

How a program is written down as tokens. A program is a list of words, and a word is
what matters of a token: its kind, and for names, strings and numbers what the text of
the token stands for. The same word can be spelled in several ways and at any place;
every word has a spelling.

Written here are the programs whose expressions are single tokens or calls with
arguments that are single tokens. There is nothing between statements.
-/

namespace Mel

inductive Word where
  /-- A token of a kind whose text does not matter. -/
  | mark (kind : Kind)
  | name (identifier : String)
  | text (content : String)
  | number (literal : RealLiteral)
  /-- The name or the text of an exception. -/
  | message (content : String)
deriving DecidableEq, Repr

/-- Does a token spell a word? -/
def Word.SpelledBy : Word → Token → Prop
  | .mark kind, token => token.kind = kind
  | .name identifier, token => token.kind = .identifier ∧ token.text = identifier
  | .text content, token => token.kind = .string ∧ Text.ofStringToken token.text = content
  | .number literal, token =>
      token.kind = .realNumber ∧ RealLiteral.ofText? token.text = some literal
  | .message content, token =>
      (token.kind = .identifier ∧ token.text = content) ∨
        (token.kind = .string ∧ Text.ofStringToken token.text = content)

/-- Do tokens spell words, one by one? -/
def Spelled (words : List Word) (tokens : List Token) : Prop :=
  List.Forall₂ Word.SpelledBy words tokens

theorem Spelled.length_eq {words : List Word} {tokens : List Token}
    (spelled : Spelled words tokens) : tokens.length = words.length :=
  (List.Forall₂.length_eq spelled).symm

theorem Spelled.split {first later : List Word} {tokens : List Token}
    (spelled : Spelled (first ++ later) tokens) :
    ∃ firstTokens laterTokens, tokens = firstTokens ++ laterTokens ∧
      Spelled first firstTokens ∧ Spelled later laterTokens := by
  induction first generalizing tokens with
  | nil => exact ⟨[], tokens, rfl, .nil, spelled⟩
  | cons word words ih =>
      rcases spelled with _ | ⟨head, tail⟩
      rcases ih tail with ⟨firstTokens, laterTokens, rfl, spelledFirst, spelledLater⟩
      exact ⟨_ :: firstTokens, laterTokens, rfl, .cons head spelledFirst, spelledLater⟩

namespace Text

/-- A character as it stands in a string token. -/
def tokenCharacters (character : Char) : List Char :=
  if character = '"' ∨ character = '\\' then ['\\', character] else [character]

/-- The string token that stands for a text. -/
def toStringToken (content : String) : String :=
  String.ofList ('"' :: content.toList.flatMap tokenCharacters ++ ['"'])

theorem unescape_flatMap_tokenCharacters (characters : List Char) :
    unescape (characters.flatMap tokenCharacters) = characters := by
  induction characters with
  | nil => rfl
  | cons character characters ih =>
      rw [List.flatMap_cons]
      by_cases special : character = '"' ∨ character = '\\'
      · rw [tokenCharacters, if_pos special]
        have kept : unescapeCharacter character = character := by
          rcases special with rfl | rfl <;> rfl
        simp only [List.cons_append, List.nil_append, unescape, kept, ih]
      · rw [tokenCharacters, if_neg special, List.singleton_append]
        have notSlash : character ≠ '\\' := fun slash => special (.inr slash)
        rw [unescape, ih]
        intro second rest slash
        exact (notSlash slash).elim

theorem ofStringToken_toStringToken (content : String) :
    ofStringToken (toStringToken content) = content := by
  simp only [ofStringToken, toStringToken, String.toList_ofList, List.cons_append, List.drop_one,
    List.tail_cons, List.dropLast_concat, unescape_flatMap_tokenCharacters, String.ofList_toList]

end Text

namespace RealLiteral

/-- A number as it stands in its token. -/
def text (literal : RealLiteral) : String :=
  String.ofList (List.replicate literal.whole '#' ++
    match literal.fraction with
    | none => []
    | some places => ':' :: List.replicate places '#')

theorem ofText?_text (literal : RealLiteral) : ofText? literal.text = some literal := by
  rcases literal with ⟨whole, _ | places⟩
  · simp [ofText?, text]
  · simp [ofText?, text]

end RealLiteral

/-- A spelling of a word. -/
def Word.token (position : Position) : Word → Token
  | .mark kind => ⟨kind, "", position⟩
  | .name identifier => ⟨.identifier, identifier, position⟩
  | .text content | .message content => ⟨.string, Text.toStringToken content, position⟩
  | .number literal => ⟨.realNumber, literal.text, position⟩

theorem Word.spelledBy_token (position : Position) (word : Word) :
    word.SpelledBy (word.token position) := by
  cases word with
  | mark kind => rfl
  | name identifier => exact ⟨rfl, rfl⟩
  | text content => exact ⟨rfl, Text.ofStringToken_toStringToken content⟩
  | number literal => exact ⟨rfl, literal.ofText?_text⟩
  | message content => exact .inr ⟨rfl, Text.ofStringToken_toStringToken content⟩

theorem spelled_map_token (position : Position) (words : List Word) :
    Spelled words (words.map (Word.token position)) := by
  rw [Spelled, List.forall₂_map_right_iff, List.forall₂_same]
  intro word _
  exact word.spelledBy_token position

namespace Expr

/-- The word of an expression that is a single token. -/
def word? : Expr → Option Word
  | .variable name => some (.name name)
  | .string text => some (.text text)
  | .real literal => some (.number literal)
  | .sentinel constant => some (.mark (.sentinel constant))
  | _ => none

def isToken (expression : Expr) : Bool :=
  expression.word?.isSome

end Expr

def Callee.word : Callee → Word
  | .named name => .name name
  | .embedded => .mark .colon

def callWords (callee : Callee) (arguments : List Expr) : List Word :=
  .mark .callMark :: callee.word :: arguments.filterMap Expr.word?

namespace Expr

def words : Expr → List Word
  | .call callee arguments => callWords callee arguments
  | expression => expression.word?.toList

/-- Is an expression a single token or a call with arguments that are? -/
def isSimple : Expr → Bool
  | .call _ arguments => arguments.all isToken
  | expression => expression.isToken

end Expr

mutual

def Statement.words : Statement → List Word
  | .assign name value => .name name :: .mark .assign :: value.words
  | .input name => [.mark .input, .name name]
  | .output value => .mark .output :: value.words
  | .outputMany direction count => .mark (.outputMany direction) :: count.words
  | .call callee arguments => callWords callee arguments
  | .define name parameters body =>
      .mark .defineMark :: .name name :: parameters.map .name ++ blockWords body
  | .giveBack none => [.mark .returnMark]
  | .giveBack (some value) => .mark .returnMark :: value.words
  | .conditional condition body fallback =>
      .mark .ifMark :: condition.words ++ blockWords body ++ fallback.words
  | .whileLoop condition body =>
      .mark .whileMark :: condition.words ++ blockWords body ++ [.mark .endLoop]
  | .forLoop name range body =>
      .mark .forMark :: .name name :: range.words ++ blockWords body ++ [.mark .endLoop]
  | .attempt body handler =>
      .mark .tryMark :: blockWords body ++ .mark .catchMark :: blockWords handler
  | .raise message => [.mark .leftParen, .message message, .mark .rightParen]

def blockWords : List Statement → List Word
  | [] => []
  | statement :: statements => statement.words ++ blockWords statements

def Fallback.words : Fallback → List Word
  | .nothing => [.mark .endIf]
  | .otherwise body => .mark .elseMark :: blockWords body ++ [.mark .endIf]
  | .elseIf condition body fallback =>
      .mark .elseIfMark :: condition.words ++ blockWords body ++ fallback.words

end

/-- The words of a whole program, between its markers. -/
def programWords (program : Block) : List Word :=
  .mark .programStart :: blockWords program ++ [.mark .programEnd]

mutual

/-- Are all expressions of a statement simple, and those that are given back single tokens? -/
def Statement.isSimple : Statement → Bool
  | .input _ | .giveBack none | .raise _ => true
  | .assign _ value | .output value | .outputMany _ value => value.isSimple
  | .call _ arguments => arguments.all Expr.isToken
  | .giveBack (some value) => value.isToken
  | .define _ _ body => isSimpleBlock body
  | .conditional condition body fallback =>
      condition.isSimple && isSimpleBlock body && fallback.isSimple
  | .whileLoop condition body | .forLoop _ condition body =>
      condition.isSimple && isSimpleBlock body
  | .attempt body handler => isSimpleBlock body && isSimpleBlock handler

def isSimpleBlock : List Statement → Bool
  | [] => true
  | statement :: statements => statement.isSimple && isSimpleBlock statements

def Fallback.isSimple : Fallback → Bool
  | .nothing => true
  | .otherwise body => isSimpleBlock body
  | .elseIf condition body fallback =>
      condition.isSimple && isSimpleBlock body && fallback.isSimple

end

theorem isSimple_of_mem {block : Block} (simple : isSimpleBlock block) {statement : Statement}
    (member : statement ∈ block) : statement.isSimple := by
  induction block with
  | nil => cases member
  | cons first statements ih =>
      simp only [isSimpleBlock, Bool.and_eq_true] at simple
      rcases simple with ⟨firstSimple, restSimple⟩
      rcases List.mem_cons.mp member with rfl | member
      · exact firstSimple
      · exact ih restSimple member

theorem blockWords_append (first later : Block) :
    blockWords (first ++ later) = blockWords first ++ blockWords later := by
  induction first with
  | nil => rfl
  | cons statement statements ih => simp only [List.cons_append, blockWords, ih, List.append_assoc]

end Mel

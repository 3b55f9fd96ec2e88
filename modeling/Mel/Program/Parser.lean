import Mel.Program.Literal
import Mel.Program.Refusal

/-!
# Reading programs

A parser takes what it reads off the front of a list of tokens and leaves the
rest, or refuses and says which tokens it had left.

Neither statements nor the arguments of a call are separated, so what ends them is
the next token: a list of arguments ends where no expression can go on, and a
block ends at a token that closes it.

Nesting is bounded by fuel. Every step down and every round of a repetition takes
a token first, so one unit more than there are tokens is enough.
-/

namespace Mel

/-- Why a parser gives up, and for a refusal the tokens it had left. -/
inductive Refusal where
  | expected (expectation : Expectation) (rest : List Token)
  | outOfFuel
deriving DecidableEq, Repr

abbrev Parser := StateT (List Token) (Except Refusal)

/-- Tokens that cannot go on with a run of expressions. -/
def Kind.endsExpression : Kind → Bool
  | .programEnd | .assign | .input | .output | .outputMany _ | .defineMark | .callMark
  | .returnMark | .tryMark | .ifMark | .elseIfMark | .elseMark | .endIf | .whileMark | .forMark
  | .endLoop | .catchMark | .comma | .semicolon | .rightParen | .arrayEnd | .arrayStart
  | .leftParen | .colon => true
  | _ => false

namespace Parser

variable {α β : Type}

/-- A parser goes on with the tokens that another one has left. -/
theorem bind_apply (first : Parser α) (next : α → Parser β) (tokens : List Token) :
    (first >>= next) tokens =
      match first tokens with
      | .ok (result, rest) => next result rest
      | .error refusal => .error refusal := by
  change StateT.bind first next tokens = _
  rw [StateT.bind]
  cases first tokens <;> rfl

def refuse (expectation : Expectation) : Parser α :=
  fun tokens => .error (.expected expectation tokens)

def outOfFuel : Parser α :=
  fun _ => .error .outOfFuel

/-- Takes a token of one kind. -/
def expect (kind : Kind) (expectation : Expectation) : Parser Token := fun tokens =>
  match tokens with
  | token :: rest => if token.kind = kind then .ok (token, rest) else refuse expectation tokens
  | [] => refuse expectation tokens

def startsWith (kind : Kind) : List Token → Bool
  | token :: _ => token.kind == kind
  | [] => false

/-- Can the tokens not go on with a run of expressions? An identifier in front of an assignment
mark begins the next statement. -/
def endsExpression : List Token → Bool
  | [] => true
  | token :: rest =>
      match token.kind with
      | .identifier => startsWith .assign rest
      | kind => kind.endsExpression

/-- Splits a name or a string between parentheses off the front. -/
def exception? : List Token → Option (String × List Token)
  | first :: name :: last :: rest =>
      if first.kind = .leftParen ∧ last.kind = .rightParen then
        match name.kind with
        | .identifier => some (name.text, rest)
        | .string => some (Text.ofStringToken name.text, rest)
        | _ => none
      else none
  | _ => none

/-- Splits bits off the front. Behind each of them one semicolon may stand. -/
def bits (afterBit : Bool) : List Token → List Bool × List Token
  | [] => ([], [])
  | token :: rest =>
      match token.kind, afterBit with
      | .sentinel .bitOne, _ =>
          let (later, remaining) := bits true rest
          (true :: later, remaining)
      | .sentinel .bitZero, _ =>
          let (later, remaining) := bits true rest
          (false :: later, remaining)
      | .semicolon, true => bits false rest
      | _, _ => ([], token :: rest)

/-- Splits parameter names off the front, up to a name that is assigned to. -/
def parameters : List Token → List String × List Token
  | [] => ([], [])
  | token :: rest =>
      if token.kind = .identifier ∧ ¬ startsWith .assign rest then
        let (names, later) := parameters rest
        (token.text :: names, later)
      else ([], token :: rest)

/-- The expressions of a call, up to where no expression can go on. -/
def arguments (expression : Parser Expr) : (fuel : Nat) → Parser (List Expr)
  | 0 => outOfFuel
  | fuel + 1 => fun tokens =>
      if endsExpression tokens then .ok ([], tokens)
      else
        (do
          let first ← expression
          let later ← arguments expression fuel
          return first :: later : Parser _) tokens

/-- What follows the mark of a call. -/
def call (expression : Parser Expr) (fuel : Nat) : Parser (Callee × List Expr) := fun tokens =>
  match tokens with
  | [] => refuse .callee tokens
  | token :: rest =>
      match token.kind with
      | .colon => (Prod.mk .embedded <$> arguments expression fuel) rest
      | .identifier => (Prod.mk (.named token.text) <$> arguments expression fuel) rest
      | _ => refuse .callee tokens

/-- Further elements of an array, each behind a comma. -/
def elements (expression : Parser Expr) : (fuel : Nat) → Parser (List Expr)
  | 0 => outOfFuel
  | fuel + 1 => fun tokens =>
      match tokens with
      | [] => .ok ([], tokens)
      | token :: rest =>
          if token.kind = .comma then
            (do
              let first ← expression
              let later ← elements expression fuel
              return first :: later : Parser _) rest
          else .ok ([], tokens)

/-- What follows the opening bracket of an array. -/
def array (expression : Parser Expr) (fuel : Nat) : Parser Expr := fun tokens =>
  if startsWith .arrayEnd tokens then .ok (.array [], tokens.drop 1)
  else
    (do
      let first ← expression
      let later ← elements expression fuel
      discard (expect .arrayEnd .arrayEnd)
      return .array (first :: later) : Parser Expr) tokens

/-- What follows an opening parenthesis that begins no exception. -/
def grouped (expression : Parser Expr) : Parser Expr := do
  let inner ← expression
  discard (expect .rightParen .closingParen)
  return inner

/-- An expression without operators outside brackets and parentheses. -/
def primary (expression : Parser Expr) (fuel : Nat) : Parser Expr := fun tokens =>
  match tokens with
  | [] => refuse .expression tokens
  | token :: rest =>
      match token.kind with
      | .sentinel constant => .ok (.sentinel constant, rest)
      | .string => .ok (.string (Text.ofStringToken token.text), rest)
      | .realNumber =>
          match RealLiteral.ofText? token.text with
          | some literal => .ok (.real literal, rest)
          | none => refuse .plainRealNumber tokens
      | .bitsMark =>
          let (digits, later) := bits false rest
          .ok (.bits digits, later)
      | .identifier => .ok (.variable token.text, rest)
      | .arrayStart => array expression fuel rest
      | .leftParen =>
          match exception? tokens with
          | some (message, later) => .ok (.raise message, later)
          | none => grouped expression rest
      | .callMark => ((fun (callee, items) => .call callee items) <$> call expression fuel) rest
      | _ => refuse .expression tokens

/-- A primary expression with at most one negation mark in front. -/
def unary (primary : Parser Expr) : Parser Expr := fun tokens =>
  match tokens with
  | [] => primary tokens
  | token :: rest =>
      if token.kind = .negate then (.negate <$> primary) rest else primary tokens

/-- Splits an operator of a tier off the front. -/
def operator? (tier : Tier) : List Token → Option (Operator × List Token)
  | [] => none
  | token :: rest =>
      match token.kind with
      | .operator operator =>
          if operator.operation.tier = tier then some (operator, rest) else none
      | _ => none

def startsWithOperator : List Token → Bool
  | [] => false
  | token :: _ => token.kind matches .operator _

/-- What follows an operator that stands behind `left`. Behind a suffix operator an operand may
follow. -/
def afterOperator (operand : Parser Expr) (left : Expr) (operator : Operator) : Parser Expr :=
  fun tokens =>
    if operator.operation.isSuffix then
      if endsExpression tokens || startsWithOperator tokens then
        .ok (.suffix operator left none, tokens)
      else ((fun trailing => .suffix operator left (some trailing)) <$> operand) tokens
    else (.binary operator left <$> operand) tokens

/-- Goes on behind `left` with operators of one tier, which group to the left. -/
def chain (tier : Tier) (operand : Parser Expr) : (fuel : Nat) → (left : Expr) → Parser Expr
  | 0, _ => outOfFuel
  | fuel + 1, left => fun tokens =>
      match operator? tier tokens with
      | none => .ok (left, tokens)
      | some (operator, rest) =>
          (do
            let combined ← afterOperator operand left operator
            chain tier operand fuel combined : Parser Expr) rest

/-- Operands joined by operators of one tier. -/
def tiered (tier : Tier) (operand : Parser Expr) (fuel : Nat) : Parser Expr := do
  let first ← operand
  chain tier operand fuel first

/-- An expression, of the loosest tier. -/
def expression : (fuel : Nat) → Parser Expr
  | 0 => outOfFuel
  | fuel + 1 => fun tokens =>
      let single := unary (primary (expression fuel) fuel)
      let term := tiered .term single fuel
      let sum := tiered .additive term fuel
      tiered .comparison sum fuel tokens

/-- Statements up to a token that closes their block. -/
def block (statement : Parser Statement) (owner : BlockOwner) : (fuel : Nat) → Parser Block
  | 0 => outOfFuel
  | fuel + 1 => fun tokens =>
      match tokens with
      | [] => refuse (.blockEnd owner) tokens
      | token :: _ =>
          if token.kind ∈ owner.closing then .ok ([], tokens)
          else if token.kind = .programEnd then refuse (.blockEnd owner) tokens
          else
            (do
              let first ← statement
              let later ← block statement owner fuel
              return first :: later : Parser _) tokens

/-- What follows the mark of a return. -/
def giveBack (expression : Parser Expr) : Parser Statement := fun tokens =>
  if endsExpression tokens then .ok (.giveBack none, tokens)
  else ((fun value => .giveBack (some value)) <$> expression) tokens

/-- A return at the end of a function belongs to it. -/
def finalReturn (expression : Parser Expr) : Parser Block := fun tokens =>
  match tokens with
  | [] => .ok ([], tokens)
  | token :: rest =>
      if token.kind = .returnMark then ((fun statement => [statement]) <$> giveBack expression) rest
      else .ok ([], tokens)

/-- What follows the mark of a function definition. -/
def define (expression : Parser Expr) (body : BlockOwner → Parser Block) : Parser Statement := do
  let name ← expect .identifier .functionName
  let names ← fun tokens => .ok (parameters tokens)
  let statements ← body .function
  let final ← finalReturn expression
  return .define name.text names (statements ++ final)

/-- What follows the first branch of a conditional. -/
def fallback (expression : Parser Expr) (body : BlockOwner → Parser Block) :
    (fuel : Nat) → Parser Fallback
  | 0 => outOfFuel
  | fuel + 1 => fun tokens =>
      if startsWith .elseIfMark tokens then
        (do
          let condition ← expression
          let statements ← body .branch
          let later ← fallback expression body fuel
          return .elseIf condition statements later : Parser Fallback) (tokens.drop 1)
      else if startsWith .elseMark tokens then
        (do
          let statements ← body .lastBranch
          discard (expect .endIf .conditionalEnd)
          return .otherwise statements : Parser Fallback) (tokens.drop 1)
      else
        (do
          discard (expect .endIf .conditionalEnd)
          return .nothing : Parser Fallback) tokens

/-- What follows the mark of a conditional. -/
def conditional (expression : Parser Expr) (body : BlockOwner → Parser Block) (fuel : Nat) :
    Parser Statement := do
  let condition ← expression
  let statements ← body .branch
  let later ← fallback expression body fuel
  return .conditional condition statements later

/-- The body of a loop and the mark that closes it. -/
def loopBody (body : BlockOwner → Parser Block) : Parser Block := do
  let statements ← body .loop
  discard (expect .endLoop .loopEnd)
  return statements

def whileLoop (expression : Parser Expr) (body : BlockOwner → Parser Block) : Parser Statement := do
  let condition ← expression
  let statements ← loopBody body
  return .whileLoop condition statements

def forLoop (expression : Parser Expr) (body : BlockOwner → Parser Block) : Parser Statement := do
  let name ← expect .identifier .loopVariable
  let range ← expression
  let statements ← loopBody body
  return .forLoop name.text range statements

def attempt (body : BlockOwner → Parser Block) : Parser Statement := do
  let statements ← body .attempt
  discard (expect .catchMark .catchMark)
  let handler ← body .handler
  return .attempt statements handler

/-- One statement, given how its expressions and its blocks are read. -/
def statementWith (expression : Parser Expr) (body : BlockOwner → Parser Block) (fuel : Nat) :
    Parser Statement := fun tokens =>
  match tokens with
  | [] => refuse .statement tokens
  | token :: rest =>
      match token.kind with
      | .identifier =>
          if startsWith .assign rest then (.assign token.text <$> expression) (rest.drop 1)
          else refuse .statement tokens
      | .defineMark => define expression body rest
      | .callMark => ((fun (callee, items) => .call callee items) <$> call expression fuel) rest
      | .output => (.output <$> expression) rest
      | .outputMany direction => (.outputMany direction <$> expression) rest
      | .input => ((fun name => .input name.text) <$> expect .identifier .variableName) rest
      | .ifMark => conditional expression body fuel rest
      | .whileMark => whileLoop expression body rest
      | .forMark => forLoop expression body rest
      | .tryMark => attempt body rest
      | .returnMark => giveBack expression rest
      | .leftParen =>
          match exception? tokens with
          | some (message, later) => .ok (.raise message, later)
          | none => refuse .statement tokens
      | _ => refuse .statement tokens

def statement : (fuel : Nat) → Parser Statement
  | 0 => outOfFuel
  | fuel + 1 => fun tokens =>
      let body (owner : BlockOwner) : Parser Block := block (statement fuel) owner fuel
      statementWith (expression fuel) body fuel tokens

/-- A whole program between its markers. Tokens behind the closing marker are left. -/
def program (fuel : Nat) : Parser Block := do
  discard (expect .programStart .programStart)
  let statements ← block (statement fuel) .program fuel
  discard (expect .programEnd .programEnd)
  return statements

/-- Fuel that no list of tokens exhausts. -/
def enoughFuel (tokens : List Token) : Nat :=
  tokens.length + 1

/-- Runs a parser on all tokens and says where it refused. -/
def run (parser : Parser α) (tokens : List Token) : Except ParseError α :=
  match parser tokens with
  | .ok (result, _) => .ok result
  | .error (.expected expectation rest) => .error (.locate tokens rest expectation)
  | .error .outOfFuel => .error (.locate tokens tokens .programStart)

end Parser

/-- Reads a program off a list of tokens. -/
def parseProgram (tokens : List Token) : Except ParseError Block :=
  (Parser.program (Parser.enoughFuel tokens)).run tokens

/-- Reads one expression off a list of tokens; those behind it are ignored. -/
def parseExpression (tokens : List Token) : Except ParseError Expr :=
  (Parser.expression (Parser.enoughFuel tokens)).run tokens

/-- Cuts a source into tokens, all of them, and then reads them. -/
def readSource {α : Type} (parse : List Token → Except ParseError α) (policy : Policy)
    (source : String) : Except SourceError α :=
  let lexing := tokenize policy source
  match lexing.failure with
  | some error => .error (.lexical error)
  | none => (parse lexing.tokens).mapError .grammatical

/-- The program that a source holds. -/
def readProgram (policy : Policy) (source : String) : Except SourceError Block :=
  readSource parseProgram policy source

/-- The expression that a source begins with. -/
def readExpression (policy : Policy) (source : String) : Except SourceError Expr :=
  readSource parseExpression policy source

end Mel

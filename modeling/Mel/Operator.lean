/-!
# Operators

Every operator belongs to one of two families, told apart by its first
character: `#` computes with reals, `$` with 64-bit integers. Both families
offer the same fourteen operations.

An operation sits on one of three tiers of precedence. Factorial and square
root are written after their only operand; all other operations stand between
two operands.
-/

namespace Mel

/-- The number system an operator computes in. -/
inductive Family where
  | real
  | integer
deriving DecidableEq, Repr

/-- What an operator computes, whatever its family. -/
inductive Operation where
  | add
  | sub
  | mul
  | div
  | factorial
  | sqrt
  | mod
  | pow
  | less
  | equal
  | greater
  | lessEqual
  | greaterEqual
  | notEqual
deriving DecidableEq, Repr

/-- Tiers of precedence, from the loosest to the tightest. -/
inductive Tier where
  | comparison
  | additive
  | term
deriving DecidableEq, Repr

structure Operator where
  family : Family
  operation : Operation
deriving DecidableEq, Repr

namespace Operation

def tier : Operation → Tier
  | .less | .equal | .greater | .lessEqual | .greaterEqual | .notEqual => .comparison
  | .add | .sub => .additive
  | .mul | .div | .mod | .pow | .factorial | .sqrt => .term

/-- Operations that look at the operand before them only. -/
def isSuffix : Operation → Bool
  | .factorial | .sqrt => true
  | _ => false

/-- The characters of an operator after the one of its family. -/
def sign : Operation → String
  | .add => "+"
  | .sub => "-"
  | .mul => "*"
  | .div => "/"
  | .factorial => "!"
  | .sqrt => "\\"
  | .mod => "%"
  | .pow => "^"
  | .less => "<"
  | .equal => "="
  | .greater => ">"
  | .lessEqual => "<="
  | .greaterEqual => ">="
  | .notEqual => "!="

/-- The name of an operation in the list of token kinds. -/
def kindName : Operation → String
  | .add => "ADD"
  | .sub => "SUB"
  | .mul => "MUL"
  | .div => "DIV"
  | .factorial => "FACTORIAL"
  | .sqrt => "SQRT"
  | .mod => "MOD"
  | .pow => "POW"
  | .less => "LT"
  | .equal => "EQ"
  | .greater => "GT"
  | .lessEqual => "LE_EQ"
  | .greaterEqual => "GE_EQ"
  | .notEqual => "NE_EQ"

/-- The name of an operation in running text. -/
def title : Operation → String
  | .add => "Add"
  | .sub => "Sub"
  | .mul => "Mul"
  | .div => "Div"
  | .factorial => "Factorial"
  | .sqrt => "Sqrt"
  | .mod => "Mod"
  | .pow => "Pow"
  | .less => "Less"
  | .equal => "Equal"
  | .greater => "Greater"
  | .lessEqual => "LessEqual"
  | .greaterEqual => "GreaterEqual"
  | .notEqual => "NotEqual"

/-- All operations; those whose sign extends another's sign come first. -/
def all : List Operation :=
  [.lessEqual, .greaterEqual, .notEqual, .add, .sub, .mul, .div, .factorial, .sqrt, .mod, .pow,
    .less, .equal, .greater]

end Operation

namespace Family

def mark : Family → String
  | .real => "#"
  | .integer => "$"

/-- The name of a family in the list of token kinds and in error messages. -/
def kindName : Family → String
  | .real => "REAL"
  | .integer => "BINARY"

def title : Family → String
  | .real => "Real"
  | .integer => "Binary"

end Family

namespace Operator

/-- An operator as it stands in a program. -/
def text (operator : Operator) : String :=
  operator.family.mark ++ operator.operation.sign

def kindName (operator : Operator) : String :=
  operator.family.kindName ++ "_" ++ operator.operation.kindName

/-- The operator that is written as `text`. -/
def ofText? (text : String) : Option Operator :=
  let operators := Operation.all.flatMap fun operation =>
    [Operator.mk .real operation, Operator.mk .integer operation]
  operators.find? (·.text == text)

end Operator

end Mel

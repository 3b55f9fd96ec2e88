import Mel.RuntimeError

/-!
# Operations on values

Operators check the types of their operands before they compute. The operators on
integers take integers only; those on reals take integers too, as the nearest
reals.
-/

namespace Mel.Value

def ofInteger : Outcome Int64 → Value
  | .number number => .integer number
  | .truth truth => .boolean truth

def ofReal : Outcome Float → Value
  | .number number => .real number
  | .truth truth => .boolean truth

/-- The result of an arithmetic operation as a value. -/
def ofArithmetic {α : Type} (value : α → Value) (result : Except ArithmeticError α) :
    Except RuntimeError Value :=
  match result with
  | .ok number => .ok (value number)
  | .error error => .error (.arithmetic error)

/-- Applies an operator to two operands. -/
def apply (operator : Operator) (left right : Value) : Except RuntimeError Value :=
  let refused := .error (.operands operator left.type right.type)
  match operator.family with
  | .integer =>
      match left, right with
      | .integer left, .integer right =>
          ofArithmetic ofInteger (Integer.apply operator.operation left right)
      | _, _ => refused
  | .real =>
      match left.real?, right.real? with
      | some left, some right => ofArithmetic ofReal (Floating.apply operator.operation left right)
      | _, _ => refused

/-- Applies an operator to the only operand in front of it. -/
def applySuffix (operator : Operator) (operand : Value) : Except RuntimeError Value :=
  let refused := .error (.suffixOperand operator operand.type)
  match operator.family with
  | .integer =>
      match operand with
      | .integer number => ofArithmetic .integer (Integer.suffix operator.operation number)
      | _ => refused
  | .real =>
      match operand.real? with
      | some number => ofArithmetic .real (Floating.suffix operator.operation number)
      | none => refused

def negate : Value → Except RuntimeError Value
  | .integer number => ofArithmetic .integer (Integer.negate number)
  | .real number => .ok (.real (-number))
  | operand => .error (.negationOperand operand.type)

/-- The number that bits denote, the most significant one first. -/
def bitsNumber (digits : List Bool) : Nat :=
  digits.foldl (fun number digit => 2 * number + digit.toNat) 0

/-- The integer that bits denote, if it fits beside the sign. -/
def ofBits (digits : List Bool) : Except RuntimeError Value :=
  let number := bitsNumber digits
  if number < 1 <<< 63 then .ok (.integer (Int64.ofNat number)) else .error .literalTooWide

end Mel.Value

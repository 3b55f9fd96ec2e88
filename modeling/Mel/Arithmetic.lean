import Mel.Floating.Magnitude
import Mel.Operator

/-!
# Arithmetic

What the operations compute in both number systems, and when they refuse.

Integers have 64 bits and never wrap: an operation computes in the integers and
answers when the result fits. Division rounds down, and the modulus has the sign
of the divisor. Reals follow IEEE 754; they too have a modulus with the sign of
the divisor.
-/

namespace Mel

inductive ArithmeticError where
  | overflow
  | divisionByZero (family : Family)
  | moduloByZero (family : Family)
  | exponentOutOfRange
  | negativeFactorial (family : Family)
  | negativeSquareRoot (family : Family)
  | notSuffix (operation : Operation)
deriving DecidableEq, Repr

def ArithmeticError.message : ArithmeticError → String
  | .overflow => "integer overflow"
  | .divisionByZero family => family.title ++ " division by zero"
  | .moduloByZero family => family.title ++ " modulo by zero"
  | .exponentOutOfRange => "Binary power exponent must be between 0 and 4294967295"
  | .negativeFactorial family => family.title ++ " factorial of negative number"
  | .negativeSquareRoot family => family.title ++ " square root of negative number"
  | .notSuffix operation => operation.title ++ " is not a postfix operator"

/-- The result of an operation: a number of the operator's family or a truth value. -/
inductive Outcome (α : Type) where
  | number (number : α)
  | truth (truth : Bool)
deriving DecidableEq, Repr

namespace Integer

/-- The integer as 64 bits, unless it needs more. -/
def fit (number : Int) : Except ArithmeticError Int64 :=
  if Int64.minValue.toInt ≤ number ∧ number ≤ Int64.maxValue.toInt then .ok (Int64.ofInt number)
  else .error .overflow

def negate (number : Int64) : Except ArithmeticError Int64 :=
  fit (-number.toInt)

def factorial : Nat → Nat
  | 0 => 1
  | number + 1 => (number + 1) * factorial number

/-- The largest number whose square is at most `number`. -/
def squareRoot (number : Nat) : Nat :=
  if number = 0 then 0
  else
    let root := 2 * squareRoot (number / 4)
    if (root + 1) * (root + 1) ≤ number then root + 1 else root
termination_by number
decreasing_by omega

/-- A power with a natural exponent. Of exponents from 64 on only the parity matters: a base other
than -1, 0 and 1 has then left the 64 bits, and those three repeat with period two. -/
def power (base : Int64) (exponent : Nat) : Except ArithmeticError Int64 :=
  fit (base.toInt.pow (if exponent < 64 then exponent else 64 + exponent % 2))

/-- Applies a suffix operation; of the others none is one. -/
def suffix (operation : Operation) (number : Int64) : Except ArithmeticError Int64 :=
  match operation with
  | .factorial =>
      if number.toInt < 0 then .error (.negativeFactorial .integer)
      -- The factorials from 21 on have more than 64 bits.
      else if 20 < number.toInt then .error .overflow
      else fit (factorial number.toInt.toNat)
  | .sqrt =>
      if number.toInt < 0 then .error (.negativeSquareRoot .integer)
      else fit (squareRoot number.toInt.toNat)
  | _ => .error (.notSuffix operation)

/-- Applies an operation to two integers. A suffix operation uses the left one. -/
def apply (operation : Operation) (left right : Int64) :
    Except ArithmeticError (Outcome Int64) :=
  match operation with
  | .add => .number <$> fit (left.toInt + right.toInt)
  | .sub => .number <$> fit (left.toInt - right.toInt)
  | .mul => .number <$> fit (left.toInt * right.toInt)
  | .div =>
      if right.toInt = 0 then .error (.divisionByZero .integer)
      else .number <$> fit (left.toInt.fdiv right.toInt)
  | .mod =>
      if right.toInt = 0 then .error (.moduloByZero .integer)
      else .number <$> fit (left.toInt.fmod right.toInt)
  | .pow =>
      if 0 ≤ right.toInt ∧ right.toInt < UInt32.size then .number <$> power left right.toInt.toNat
      else .error .exponentOutOfRange
  | .factorial | .sqrt => .number <$> suffix operation left
  | .less => .ok (.truth (left.toInt < right.toInt))
  | .equal => .ok (.truth (left.toInt = right.toInt))
  | .greater => .ok (.truth (left.toInt > right.toInt))
  | .lessEqual => .ok (.truth (left.toInt ≤ right.toInt))
  | .greaterEqual => .ok (.truth (left.toInt ≥ right.toInt))
  | .notEqual => .ok (.truth (left.toInt ≠ right.toInt))

end Integer

namespace Floating

/-- The exact remainder of the division that rounds towards zero. It has the sign of the
dividend. -/
def remainder (dividend divisor : Float) : Float :=
  if dividend.isNaN || divisor.isNaN || isInfinite dividend || divisor == 0.0 then
    Float.ofBits 0x7ff8000000000000
  else if isInfinite divisor then dividend
  else ofMagnitude (isNegative dividend) (magnitude dividend % magnitude divisor)

/-- The modulus: the remainder, moved to the sign of the divisor. -/
def modulo (dividend divisor : Float) : Float :=
  let rest := remainder dividend divisor
  if rest != 0.0 && (rest < 0.0) != (divisor < 0.0) then rest + divisor else rest

/-- The product of the reals from one to `count`, multiplied in this order. -/
def product (count : Nat) : Float :=
  (List.range count).foldl (fun product factor => product * Float.ofNat (factor + 1)) 1.0

/-- Applies a suffix operation; of the others none is one. -/
def suffix (operation : Operation) (number : Float) : Except ArithmeticError Float :=
  match operation with
  | .factorial =>
      if number < 0.0 then .error (.negativeFactorial .real)
      -- The factorials from 171 on are beyond the reals.
      else if number ≥ 171.0 then .ok (Float.ofBits 0x7ff0000000000000)
      else if number.isNaN then .ok 1.0
      else .ok (product (wholePart number))
  | .sqrt =>
      if number < 0.0 then .error (.negativeSquareRoot .real) else .ok number.sqrt
  | _ => .error (.notSuffix operation)

/-- Applies an operation to two reals. A suffix operation uses the left one. -/
def apply (operation : Operation) (left right : Float) : Except ArithmeticError (Outcome Float) :=
  match operation with
  | .add => .ok (.number (left + right))
  | .sub => .ok (.number (left - right))
  | .mul => .ok (.number (left * right))
  | .div => if right == 0.0 then .error (.divisionByZero .real) else .ok (.number (left / right))
  | .mod =>
      if right == 0.0 then .error (.moduloByZero .real) else .ok (.number (modulo left right))
  | .pow => .ok (.number (left.pow right))
  | .factorial | .sqrt => .number <$> suffix operation left
  | .less => .ok (.truth (left < right))
  | .equal => .ok (.truth (left == right))
  | .greater => .ok (.truth (left > right))
  | .lessEqual => .ok (.truth (left ≤ right))
  | .greaterEqual => .ok (.truth (left ≥ right))
  | .notEqual => .ok (.truth (left != right))

end Floating

end Mel

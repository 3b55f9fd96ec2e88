import Mel.Token

/-!
# Programs

The abstract form of programs. A program is a block of statements; statements
hold expressions and further blocks.

A suffix operator may be followed by an operand that plays no part: it is kept in
the tree and nothing else.
-/

namespace Mel

/-- A number as the lengths of its runs of `#`: the run before the colon counts the whole part, the
run behind it gives the digits of the fraction. -/
structure RealLiteral where
  whole : Nat
  fraction : Option Nat
deriving DecidableEq, Repr

/-- What a call refers to: a function by its name, or the text of a program. -/
inductive Callee where
  | named (name : String)
  | embedded
deriving DecidableEq, Repr

inductive Expr where
  | string (text : String)
  | real (literal : RealLiteral)
  | sentinel (constant : Sentinel)
  /-- The bits of an integer, the most significant one first. -/
  | bits (digits : List Bool)
  | array (elements : List Expr)
  | variable (name : String)
  | negate (operand : Expr)
  | binary (operator : Operator) (left right : Expr)
  | suffix (operator : Operator) (operand : Expr) (trailing : Option Expr)
  | call (callee : Callee) (arguments : List Expr)
  | raise (message : String)
deriving Repr

mutual

inductive Statement where
  | assign (name : String) (value : Expr)
  | input (name : String)
  | output (value : Expr)
  | outputMany (direction : Direction) (count : Expr)
  | call (callee : Callee) (arguments : List Expr)
  | define (name : String) (parameters : List String) (body : List Statement)
  | giveBack (value : Option Expr)
  | conditional (condition : Expr) (body : List Statement) (fallback : Fallback)
  | whileLoop (condition : Expr) (body : List Statement)
  | forLoop (name : String) (range : Expr) (body : List Statement)
  | attempt (body handler : List Statement)
  | raise (message : String)

/-- What a conditional does when its condition does not hold. -/
inductive Fallback where
  | nothing
  | otherwise (body : List Statement)
  | elseIf (condition : Expr) (body : List Statement) (fallback : Fallback)

end

/-- The statements of a program, a function, a branch or a loop. -/
abbrev Block := List Statement

end Mel

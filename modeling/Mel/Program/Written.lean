import Mel.Program.Literal
import Mel.Text.Form

/-!
# The written form of programs

Programs are written as s-expressions. A statement or an operator stands at the
head of its parentheses, an array is in brackets, and a block is the sequence of
its statements in parentheses. The operand that plays no part behind a suffix
operator is left out.
-/

namespace Mel

open Text (Form)

def Sentinel.form : Sentinel → Form
  | .no => .word "false"
  | .yes => .word "true"
  | .nil => .word "nil"
  | .empty => .brackets []
  | .zero => .word "0"
  | .bitZero => .word "0b0"
  | .bitOne => .word "0b1"

/-- An embedded program is called by its mark. -/
def Callee.form : Callee → Form
  | .named name => .word name
  | .embedded => .word ":"

/-- The digits of a bit literal in one word, without the separators between them. -/
def bitsForm (digits : List Bool) : Form :=
  .word ("0b" ++ String.ofList (digits.map fun digit => if digit then '1' else '0'))

namespace Expr

mutual

def form : Expr → Form
  | .string text => .quoted text
  | .real literal => .word (Floating.text literal.value)
  | .sentinel constant => constant.form
  | .bits digits => bitsForm digits
  | .array elements => .brackets (forms elements)
  | .variable name => .word name
  | .negate operand => .parens [.word "|", form operand]
  | .binary operator left right => .parens [.word operator.text, form left, form right]
  | .suffix operator operand _ => .parens [.word operator.text, form operand]
  | .call callee arguments => .parens (.word "->>" :: callee.form :: forms arguments)
  | .raise message => .parens [.word "exception", .quoted message]

def forms : List Expr → List Form
  | [] => []
  | expression :: expressions => form expression :: forms expressions

end

end Expr

namespace Statement

mutual

def form : Statement → Form
  | .assign name value => .parens [.word "=", .word name, value.form]
  | .input name => .parens [.word "<", .word name]
  | .output value => .parens [.word ">", value.form]
  | .outputMany .newestFirst count => .parens [.word ">>", count.form]
  | .outputMany .oldestFirst count => .parens [.word "<<", count.form]
  | .call callee arguments => (Expr.call callee arguments).form
  | .define name parameters body =>
      .parens [.word "->", .word name, .parens (parameters.map .word), .parens (forms body)]
  | .giveBack none => .parens [.word "^"]
  | .giveBack (some value) => .parens [.word "^", value.form]
  | .conditional condition body fallback =>
      .parens (.word "?" :: .parens [condition.form, .parens (forms body)]
        :: fallbackForms fallback)
  | .whileLoop condition body => .parens [.word "@", condition.form, .parens (forms body)]
  | .forLoop name range body =>
      .parens [.word "#@#", .word name, range.form, .parens (forms body)]
  | .attempt body handler =>
      .parens [.word "%%", .parens (forms body), .parens [.word "%%%%", .parens (forms handler)]]
  | .raise message => .parens [.word "throw", .quoted message]

def forms : List Statement → List Form
  | [] => []
  | statement :: statements => form statement :: forms statements

/-- The branches of a conditional behind its first one. -/
def fallbackForms : Fallback → List Form
  | .nothing => []
  | .otherwise body => [.parens [.word "??:", .parens (forms body)]]
  | .elseIf condition body fallback =>
      .parens [.word "??#", condition.form, .parens (forms body)] :: fallbackForms fallback

end

end Statement

/-- The text of a program: each statement of its block on a line of its own. -/
def Block.text (block : Block) : String :=
  String.join (block.map fun statement => statement.form.text ++ "\n")

end Mel

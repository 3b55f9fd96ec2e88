import Mel.Text.Quoted

/-!
# Written forms

Programs and values are written in one notation: words, quoted texts, and
sequences of forms in parentheses, separated by blanks, or in brackets, separated
by commas. A form is the tree behind such a text.
-/

namespace Mel.Text

inductive Form where
  | word (text : String)
  | quoted (text : String)
  | parens (items : List Form)
  | brackets (items : List Form)
deriving Repr

namespace Form

mutual

/-- The characters of a form, with others behind them. -/
def onto : Form → (rest : List Char) → List Char
  | .word text, rest => text.toList ++ rest
  | .quoted text, rest => quote text.toList ++ rest
  | .parens items, rest => '(' :: joinedOnto [' '] items (')' :: rest)
  | .brackets items, rest => '[' :: joinedOnto [',', ' '] items (']' :: rest)

/-- The characters of several forms with a separator between each two. -/
def joinedOnto (separator : List Char) : List Form → (rest : List Char) → List Char
  | [], rest => rest
  | item :: items, rest => onto item (continuedOnto separator items rest)

/-- The characters of forms that each follow a separator. -/
def continuedOnto (separator : List Char) : List Form → (rest : List Char) → List Char
  | [], rest => rest
  | item :: items, rest => separator ++ onto item (continuedOnto separator items rest)

end

/-- The characters of a form. -/
def chars (form : Form) : List Char :=
  form.onto []

def text (form : Form) : String :=
  String.ofList form.chars

end Form

end Mel.Text

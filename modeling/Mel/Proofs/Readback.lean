import Mel.Program.Written
import Mel.Proofs.Alike
import Mel.Proofs.Canonical
import Mel.Proofs.Forms
import Mel.Proofs.Parsing
import Mel.Proofs.RealTexts

/-!
# Programs by their written forms

The written form of an expression tells which kind of expression it is. What it leaves open are
the operands that play no part, how a number was counted, and which of two forms a constant
has in the program. So programs with the same form are alike.

This needs names that cannot be taken for constants, and numbers that are finite.
-/

namespace Mel

open Text (Form)

/-- The texts that names have. -/
def IsName (name : String) : Prop :=
  ∃ first later, name.toList = first :: later ∧ Pattern.isNameStart first ∧
    ∀ character ∈ later, Pattern.isNamePart character

/-- The written names of constants. -/
def keywords : List String :=
  ["true", "false", "nil"]

/-- Names and numbers whose written forms cannot be taken for anything else. -/
def Atom.IsReadable : Atom → Prop
  | .variable name => IsName name ∧ name ∉ keywords
  | .symbol name => IsName name
  | .number literal => Floating.IsFinite literal.value

def Readable (atoms : List Atom) : Prop :=
  ∀ atom ∈ atoms, atom.IsReadable

theorem readable_cons {atom : Atom} {atoms : List Atom} :
    Readable (atom :: atoms) ↔ atom.IsReadable ∧ Readable atoms :=
  List.forall_mem_cons

theorem readable_append {first later : List Atom} :
    Readable (first ++ later) ↔ Readable first ∧ Readable later :=
  List.forall_mem_append

theorem isDelimiter_of_isNamePart {character : Char} (isPart : Pattern.isNamePart character) :
    Text.isDelimiter character = false := by
  have delimiters : [' ', ',', '(', ')', '[', ']', '"', '\n'].all (!Pattern.isNamePart ·) := by
    decide
  rw [Bool.eq_false_iff]
  intro isDelimiter
  have noPart := List.all_eq_true.mp delimiters character (List.contains_iff_mem.mp isDelimiter)
  rw [isPart] at noPart
  cases noPart

theorem isNamePart_of_isNameStart {character : Char} (isStart : Pattern.isNameStart character) :
    Pattern.isNamePart character := by
  rw [Pattern.isNameStart, Bool.or_eq_true] at isStart
  rw [Pattern.isNamePart, Char.isAlphanum, Bool.or_eq_true, Bool.or_eq_true]
  exact isStart.imp_left .inl

theorem IsName.isPlainWord {name : String} (isName : IsName name) : Text.IsPlainWord name := by
  obtain ⟨first, later, isText, isStart, areParts⟩ := isName
  refine ⟨?_, ?_⟩
  · rw [isText]
    exact List.cons_ne_nil first later
  · rw [isText, List.forall_mem_cons]
    exact ⟨isDelimiter_of_isNamePart (isNamePart_of_isNameStart isStart),
      fun character member => isDelimiter_of_isNamePart (areParts character member)⟩

theorem Floating.IsRealWord.isPlainWord {word : String} (isReal : IsRealWord word) :
    Text.IsPlainWord word := by
  have undelimited : "0123456789-.e".toList.all (!Text.isDelimiter ·) := by decide
  refine ⟨?_, fun character member => ?_⟩
  · obtain ⟨mark, member, _⟩ := isReal.marked
    exact List.ne_nil_of_mem member
  · have noDelimiter := List.all_eq_true.mp undelimited character (isReal.plain character member)
    rwa [Bool.not_eq_true'] at noDelimiter

/-- The operator that a text stands for is found. -/
theorem Operator.ofText?_text (operator : Operator) : ofText? operator.text = some operator := by
  obtain ⟨family, operation⟩ := operator
  cases family <;> cases operation <;> decide

/-- What a form shows about the expression behind it without its parts. -/
inductive Shape where
  | string (text : String)
  | real (text : String)
  | constant (constant : Sentinel)
  | bits (digits : List Bool)
  | array
  | variable (name : String)
  | negate
  | binary (operator : Option Operator)
  | suffix (operator : Option Operator)
  | call
  | raise

namespace Shape

def ofWord (word : String) : Shape :=
  match word with
  | "false" => .constant .no
  | "true" => .constant .yes
  | "nil" => .constant .nil
  | "0" => .constant .zero
  | _ =>
      match word.toList with
      | '0' :: 'b' :: digits => .bits (digits.map (· == '1'))
      | first :: _ => if Pattern.isNameStart first then .variable word else .real word
      | [] => .real word

def ofForm : Form → Shape
  | .quoted text => .string text
  | .word word => .ofWord word
  | .brackets _ => .array
  | .parens (.word "|" :: _) => .negate
  | .parens (.word "->>" :: _) => .call
  | .parens (.word "exception" :: _) => .raise
  | .parens [.word sign, _] => .suffix (Operator.ofText? sign)
  | .parens (.word sign :: _) => .binary (Operator.ofText? sign)
  | .parens _ => .raise

end Shape

/-- What the form of an expression shows about it. -/
def Expr.shape : Expr → Shape
  | .string text => .string text
  | .real literal => .real (Floating.text literal.value)
  | .sentinel .empty => .array
  | .sentinel .bitZero => .bits [false]
  | .sentinel .bitOne => .bits [true]
  | .sentinel constant => .constant constant
  | .bits digits => .bits digits
  | .array _ => .array
  | .variable name => .variable name
  | .negate _ => .negate
  | .binary operator _ _ => .binary (some operator)
  | .suffix operator _ _ => .suffix (some operator)
  | .call _ _ => .call
  | .raise _ => .raise

/-- A name that is no keyword is read back as a variable. -/
theorem Shape.ofWord_name {name : String} (isName : IsName name) (notKeyword : name ∉ keywords) :
    ofWord name = .variable name := by
  obtain ⟨first, later, isText, isStart, _⟩ := isName
  unfold ofWord
  split
  · exact (notKeyword (by decide)).elim
  · exact (notKeyword (by decide)).elim
  · exact (notKeyword (by decide)).elim
  · rw [show "0".toList = ['0'] from rfl] at isText
    cases isText
    cases isStart
  · rw [isText]
    split
    · rename_i digits isDigits
      cases isDigits
      cases isStart
    · rename_i isHead
      cases isHead
      rw [if_pos isStart]
    · rename_i isHead
      cases isHead

/-- A number begins like no name and like no bit literal. -/
theorem Shape.ofWord_real {word : String} (isReal : Floating.IsRealWord word) :
    ofWord word = .real word := by
  have noNameStart : "0123456789-".toList.all (!Pattern.isNameStart ·) := by decide
  unfold ofWord
  split
  · exact absurd (isReal.plain 'f' (by decide)) (by decide)
  · exact absurd (isReal.plain 't' (by decide)) (by decide)
  · exact absurd (isReal.plain 'n' (by decide)) (by decide)
  · obtain ⟨mark, member, isMark⟩ := isReal.marked
    rw [List.mem_singleton.mp member] at isMark
    exact absurd isMark (by decide)
  · split
    · rename_i isBits
      exact absurd (isReal.plain 'b' (by simp [isBits])) (by decide)
    · rename_i isHead
      obtain ⟨first, later, isText, isFirst⟩ := isReal.first
      rw [isHead, List.cons.injEq] at isText
      have notStart := List.all_eq_true.mp noNameStart _ (isText.1 ▸ isFirst)
      rw [Bool.not_eq_true'] at notStart
      rw [notStart, if_neg Bool.false_ne_true]
    · rfl

theorem Shape.ofWord_bits {word : String} {digits : List Char}
    (isText : word.toList = '0' :: 'b' :: digits) :
    ofWord word = .bits (digits.map (· == '1')) := by
  unfold ofWord
  split
  · exact absurd isText (by simp)
  · exact absurd isText (by simp)
  · exact absurd isText (by simp)
  · exact absurd isText (by simp)
  · simp only [isText]

theorem Shape.ofForm_bitsForm (digits : List Bool) : ofForm (bitsForm digits) = .bits digits := by
  have isText :
      ("0b" ++ String.ofList (digits.map fun digit => if digit then '1' else '0')).toList =
        '0' :: 'b' :: digits.map fun digit => if digit then '1' else '0' := by
    simp
  refine (ofWord_bits isText).trans (congrArg Shape.bits ?_)
  rw [List.map_map]
  refine (List.map_congr_left fun digit _ => ?_).trans (List.map_id digits)
  cases digit <;> rfl

theorem Shape.ofForm_applied (operator : Operator) (left right : Form) :
    ofForm (.parens [.word operator.text, left, right]) = .binary (some operator) ∧
      ofForm (.parens [.word operator.text, left]) = .suffix (some operator) := by
  have isOperator := operator.ofText?_text
  obtain ⟨family, operation⟩ := operator
  cases family <;> cases operation <;>
    exact ⟨congrArg binary isOperator, congrArg suffix isOperator⟩

/-- The form of an expression shows what it is. -/
theorem Shape.ofForm_form {expression : Expr} (readable : Readable expression.atoms) :
    ofForm expression.form = expression.shape := by
  cases expression with
  | string text => rfl
  | real literal =>
      have finite : Floating.IsFinite literal.value := readable _ List.mem_cons_self
      exact ofWord_real (Floating.isRealWord_text finite)
  | sentinel constant => cases constant <;> rfl
  | bits digits => exact ofForm_bitsForm digits
  | array elements => rfl
  | «variable» name =>
      have isReadable : IsName name ∧ name ∉ keywords := readable _ List.mem_cons_self
      exact ofWord_name isReadable.1 isReadable.2
  | negate operand => rfl
  | binary operator left right => exact (ofForm_applied operator _ _).1
  | suffix operator operand trailing => exact (ofForm_applied operator _ operand.form).2
  | call callee arguments => rfl
  | raise message => rfl

/-- No name is written as the mark of an embedded program is. -/
theorem Callee.form_injective {callee callee' : Callee} (readable : Readable callee.atoms)
    (readable' : Readable callee'.atoms) (same : callee.form = callee'.form) :
    callee = callee' := by
  have notColon {name : String} (isName : IsName name) : name ≠ ":" := by
    rintro rfl
    obtain ⟨first, later, isText, isStart, _⟩ := isName
    rw [show ":".toList = [':'] from rfl] at isText
    cases isText
    cases isStart
  cases callee with
  | named name =>
      cases callee' with
      | named name' => exact congrArg named (Form.word.inj same)
      | embedded => exact (notColon (readable _ List.mem_cons_self) (Form.word.inj same)).elim
  | embedded =>
      cases callee' with
      | named name' =>
          exact (notColon (readable' _ List.mem_cons_self) (Form.word.inj same).symm).elim
      | embedded => rfl

namespace Expr

theorem forms_eq_nil {expressions : List Expr} (same : forms expressions = []) :
    expressions = [] := by
  cases expressions with
  | nil => rfl
  | cons expression expressions => cases same

/-- What an expression of a shape is. -/
def HasShape : Shape → Expr → Prop
  | .string text, expression => expression = .string text
  | .real text, expression =>
      ∃ literal, Floating.text literal.value = text ∧ expression = .real literal
  | .constant constant, expression => expression = .sentinel constant
  | .bits digits, expression => expression.constant? = (Expr.bits digits).constant?
  | .array, expression => expression = .sentinel .empty ∨ ∃ elements, expression = .array elements
  | .variable name, expression => expression = .variable name
  | .negate, expression => ∃ operand, expression = .negate operand
  | .binary operator, expression =>
      ∃ symbol left right, operator = some symbol ∧ expression = .binary symbol left right
  | .suffix operator, expression =>
      ∃ symbol operand trailing, operator = some symbol ∧
        expression = .suffix symbol operand trailing
  | .call, expression => ∃ callee arguments, expression = .call callee arguments
  | .raise, expression => ∃ message, expression = .raise message

theorem hasShape_shape (expression : Expr) : HasShape expression.shape expression := by
  cases expression with
  | string text => exact rfl
  | real literal => exact ⟨literal, rfl, rfl⟩
  | sentinel constant =>
      cases constant with
      | empty => exact .inl rfl
      | _ => exact rfl
  | bits digits => exact rfl
  | array elements => exact .inr ⟨elements, rfl⟩
  | «variable» name => exact rfl
  | negate operand => exact ⟨operand, rfl⟩
  | binary operator left right => exact ⟨operator, left, right, rfl, rfl⟩
  | suffix operator operand trailing => exact ⟨operator, operand, trailing, rfl, rfl⟩
  | call callee arguments => exact ⟨callee, arguments, rfl⟩
  | raise message => exact ⟨message, rfl⟩

mutual

/-- Expressions with the same form are alike. -/
theorem alike_of_form : ∀ {first second : Expr}, Readable first.atoms → Readable second.atoms →
    first.form = second.form → first.Alike second
  | first, second, readable, readable', same => by
      have hasShape : HasShape first.shape second := by
        rw [← Shape.ofForm_form readable, same, Shape.ofForm_form readable']
        exact hasShape_shape second
      match first with
      | .string text =>
          rw [shape, HasShape] at hasShape
          rw [hasShape]
          exact alike_refl _
      | .real literal =>
          obtain ⟨literal', sameText, rfl⟩ := hasShape
          have finite : Floating.IsFinite literal.value := readable _ List.mem_cons_self
          have finite' : Floating.IsFinite literal'.value := readable' _ List.mem_cons_self
          have sameValue := Floating.text_injective finite' finite sameText
          exact .constant rfl (by rw [constant?, sameValue])
      | .sentinel constant =>
          cases constant with
          | empty =>
              rcases hasShape with rfl | ⟨elements, rfl⟩
              · exact alike_refl _
              · rw [forms_eq_nil (Form.brackets.inj same).symm]
                exact .constant rfl rfl
          | bitZero | bitOne => exact .constant rfl hasShape
          | _ =>
              rw [show second = _ from hasShape]
              exact alike_refl _
      | .bits digits => exact .constant rfl hasShape
      | .array elements =>
          rcases hasShape with rfl | ⟨elements', rfl⟩
          · rw [forms_eq_nil (Form.brackets.inj same)]
            exact .constant rfl rfl
          · exact .array (forall₂_alike_of_forms readable readable' (Form.brackets.inj same))
      | .variable name =>
          rw [show second = _ from hasShape]
          exact alike_refl _
      | .negate operand =>
          obtain ⟨operand', rfl⟩ := hasShape
          have sameOperand : operand.form = operand'.form := by simpa [form] using same
          exact .negate (alike_of_form readable readable' sameOperand)
      | .binary operator left right =>
          obtain ⟨operator, left', right', ⟨⟩, rfl⟩ := hasShape
          have sameOperands : left.form = left'.form ∧ right.form = right'.form := by
            simpa [form] using same
          rw [atoms, readable_append] at readable readable'
          exact .binary operator (alike_of_form readable.1 readable'.1 sameOperands.1)
            (alike_of_form readable.2 readable'.2 sameOperands.2)
      | .suffix operator operand trailing =>
          obtain ⟨operator, operand', trailing', ⟨⟩, rfl⟩ := hasShape
          rw [atoms] at readable readable'
          have sameOperand : operand.form = operand'.form := by simpa [form] using same
          exact .suffix operator (alike_of_form readable readable' sameOperand) trailing trailing'
      | .call callee arguments =>
          obtain ⟨callee', arguments', rfl⟩ := hasShape
          have sameParts : callee.form = callee'.form ∧ forms arguments = forms arguments' := by
            simpa [form] using same
          rw [atoms, readable_append] at readable readable'
          cases Callee.form_injective readable.1 readable'.1 sameParts.1
          exact .call callee (forall₂_alike_of_forms readable.2 readable'.2 sameParts.2)
      | .raise message =>
          obtain ⟨message', rfl⟩ := hasShape
          have sameMessage : message = message' := by simpa [form] using same
          rw [sameMessage]
          exact alike_refl _

theorem forall₂_alike_of_forms : ∀ {first second : List Expr}, Readable (atomsOfAll first) →
    Readable (atomsOfAll second) → forms first = forms second →
      List.Forall₂ Alike first second
  | [], [], _, _, _ => .nil
  | expression :: expressions, expression' :: expressions', readable, readable', same => by
      rw [atomsOfAll, readable_append] at readable readable'
      rw [forms, forms, List.cons.injEq] at same
      exact .cons (alike_of_form readable.1 readable'.1 same.1)
        (forall₂_alike_of_forms readable.2 readable'.2 same.2)

end

end Expr

/-- The kind of the statement behind a form. -/
def headOfForm : Form → Kind
  | .parens (.word "=" :: _) => .identifier
  | .parens (.word "<" :: _) => .input
  | .parens (.word ">" :: _) => .output
  | .parens (.word ">>" :: _) => .outputMany .newestFirst
  | .parens (.word "<<" :: _) => .outputMany .oldestFirst
  | .parens (.word "->>" :: _) => .callMark
  | .parens (.word "->" :: _) => .defineMark
  | .parens (.word "^" :: _) => .returnMark
  | .parens (.word "?" :: _) => .ifMark
  | .parens (.word "@" :: _) => .whileMark
  | .parens (.word "#@#" :: _) => .forMark
  | .parens (.word "%%" :: _) => .tryMark
  | _ => .leftParen

theorem headOfForm_form (statement : Statement) :
    headOfForm statement.form = statement.head := by
  cases statement with
  | outputMany direction _ => cases direction <;> rfl
  | giveBack value => cases value <;> rfl
  | _ => rfl

namespace Statement

mutual

/-- Statements with the same form are alike. -/
theorem alike_of_form : ∀ {first second : Statement}, Readable first.atoms →
    Readable second.atoms → first.form = second.form → first.Alike second
  | first, second, readable, readable', same => by
      have sameHead : first.head = second.head := by
        rw [← headOfForm_form, same, headOfForm_form]
      match first, second with
      | .assign name value, .assign name' value' =>
          have sameParts : name = name' ∧ value.form = value'.form := by simpa [form] using same
          rw [sameParts.1]
          exact .assign name' (Expr.alike_of_form (readable_cons.mp readable).2
            (readable_cons.mp readable').2 sameParts.2)
      | .input name, .input name' =>
          have sameName : name = name' := by simpa [form] using same
          rw [sameName]
          exact .input name'
      | .output value, .output value' =>
          have sameValue : value.form = value'.form := by simpa [form] using same
          exact .output (Expr.alike_of_form readable readable' sameValue)
      | .outputMany direction count, .outputMany direction' count' =>
          cases sameHead
          have sameCount : count.form = count'.form := by
            cases direction <;> simpa [form] using same
          exact .outputMany direction (Expr.alike_of_form readable readable' sameCount)
      | .call callee arguments, .call callee' arguments' =>
          have isCall : Readable (Expr.call callee arguments).atoms := readable
          have isCall' : Readable (Expr.call callee' arguments').atoms := readable'
          cases Expr.alike_of_form isCall isCall' same with
          | constant isFirst _ => cases isFirst
          | call _ alike => exact .call callee alike
      | .define name parameters body, .define name' parameters' body' =>
          have sameParts : name = name' ∧ parameters.map Form.word = parameters'.map Form.word ∧
              forms body = forms body' := by
            simpa [form] using same
          have sameParameters : parameters = parameters' :=
            (List.map_inj_right fun _ _ => Form.word.inj).mp sameParts.2.1
          rw [atoms, readable_append] at readable readable'
          rw [sameParts.1, sameParameters]
          exact .define name' parameters'
            (forall₂_alike_of_forms readable.2 readable'.2 sameParts.2.2)
      | .giveBack none, .giveBack none => exact .giveBackNothing
      | .giveBack none, .giveBack (some _) => cases same
      | .giveBack (some _), .giveBack none => cases same
      | .giveBack (some value), .giveBack (some value') =>
          have sameValue : value.form = value'.form := by simpa [form] using same
          exact .giveBack (Expr.alike_of_form readable readable' sameValue)
      | .conditional condition body fallback, .conditional condition' body' fallback' =>
          have sameParts : (condition.form = condition'.form ∧ forms body = forms body') ∧
              fallbackForms fallback = fallbackForms fallback' := by
            simpa [form] using same
          rw [atoms, readable_append, readable_append] at readable readable'
          exact .conditional
            (Expr.alike_of_form readable.1.1 readable'.1.1 sameParts.1.1)
            (forall₂_alike_of_forms readable.1.2 readable'.1.2 sameParts.1.2)
            (alike_of_fallbackForms readable.2 readable'.2 sameParts.2)
      | .whileLoop condition body, .whileLoop condition' body' =>
          have sameParts : condition.form = condition'.form ∧ forms body = forms body' := by
            simpa [form] using same
          rw [atoms, readable_append] at readable readable'
          exact .whileLoop (Expr.alike_of_form readable.1 readable'.1 sameParts.1)
            (forall₂_alike_of_forms readable.2 readable'.2 sameParts.2)
      | .forLoop name range body, .forLoop name' range' body' =>
          have sameParts : name = name' ∧ range.form = range'.form ∧ forms body = forms body' := by
            simpa [form] using same
          rw [atoms, List.cons_append, readable_cons, readable_append] at readable readable'
          rw [sameParts.1]
          exact .forLoop name' (Expr.alike_of_form readable.2.1 readable'.2.1 sameParts.2.1)
            (forall₂_alike_of_forms readable.2.2 readable'.2.2 sameParts.2.2)
      | .attempt body handler, .attempt body' handler' =>
          have sameParts : forms body = forms body' ∧ forms handler = forms handler' := by
            simpa [form] using same
          rw [atoms, readable_append] at readable readable'
          exact .attempt (forall₂_alike_of_forms readable.1 readable'.1 sameParts.1)
            (forall₂_alike_of_forms readable.2 readable'.2 sameParts.2)
      | .raise message, .raise message' =>
          have sameMessage : message = message' := by simpa [form] using same
          rw [sameMessage]
          exact .raise message'

theorem forall₂_alike_of_forms : ∀ {first second : List Statement}, Readable (blockAtoms first) →
    Readable (blockAtoms second) → forms first = forms second → Block.Alike first second
  | [], [], _, _, _ => .nil
  | statement :: statements, statement' :: statements', readable, readable', same => by
      rw [blockAtoms, readable_append] at readable readable'
      rw [forms, forms, List.cons.injEq] at same
      exact .cons (alike_of_form readable.1 readable'.1 same.1)
        (forall₂_alike_of_forms readable.2 readable'.2 same.2)

theorem alike_of_fallbackForms : ∀ {first second : Fallback}, Readable first.atoms →
    Readable second.atoms → fallbackForms first = fallbackForms second → first.Alike second
  | .nothing, .nothing, _, _, _ => .nothing
  | .otherwise body, .otherwise body', readable, readable', same => by
      have sameBody : forms body = forms body' := by simpa [fallbackForms] using same
      exact .otherwise (forall₂_alike_of_forms readable readable' sameBody)
  | .elseIf condition body fallback, .elseIf condition' body' fallback', readable, readable',
      same => by
      have sameParts : (condition.form = condition'.form ∧ forms body = forms body') ∧
          fallbackForms fallback = fallbackForms fallback' := by
        simpa [fallbackForms] using same
      rw [Fallback.atoms, readable_append, readable_append] at readable readable'
      exact .elseIf (Expr.alike_of_form readable.1.1 readable'.1.1 sameParts.1.1)
        (forall₂_alike_of_forms readable.1.2 readable'.1.2 sameParts.1.2)
        (alike_of_fallbackForms readable.2 readable'.2 sameParts.2)
  | .otherwise _, .elseIf _ _ _, _, _, same => by simp [fallbackForms] at same
  | .elseIf _ _ _, .otherwise _, _, _, same => by simp [fallbackForms] at same

end

end Statement

theorem isPlain_headed {head : String} {items : List Form} (isPlain : Text.IsPlainWord head)
    (arePlain : ∀ item ∈ items, item.IsPlain) : (Form.parens (.word head :: items)).IsPlain :=
  .parens (List.forall_mem_cons.mpr ⟨.word isPlain, arePlain⟩)

theorem Operator.isPlain_text (operator : Operator) : Text.IsPlainWord operator.text := by
  obtain ⟨family, operation⟩ := operator
  cases family <;> cases operation <;> decide

theorem isPlain_bitsForm (digits : List Bool) : (bitsForm digits).IsPlain := by
  have plainMark : Text.IsPlainWord "0b" := by decide
  refine .word ⟨by simp, fun character member => ?_⟩
  rw [String.toList_append, List.mem_append] at member
  rcases member with inMark | inDigits
  · exact plainMark.undelimited character inMark
  · rw [String.toList_ofList] at inDigits
    obtain ⟨digit, _, rfl⟩ := List.mem_map.mp inDigits
    cases digit <;> decide

theorem Callee.isPlain_form {callee : Callee} (readable : Readable callee.atoms) :
    callee.form.IsPlain := by
  cases callee with
  | named name => exact .word (IsName.isPlainWord (readable _ List.mem_cons_self))
  | embedded => exact .word (by decide)

namespace Expr

mutual

theorem isPlain_form : ∀ {expression : Expr}, Readable expression.atoms → expression.form.IsPlain
  | .string text, _ => .quoted text
  | .real literal, readable => by
      have finite : Floating.IsFinite literal.value := readable _ List.mem_cons_self
      exact .word (Floating.isRealWord_text finite).isPlainWord
  | .sentinel constant, _ => by
      cases constant with
      | empty => exact .brackets (List.forall_mem_nil _)
      | _ => exact .word (by decide)
  | .bits digits, _ => isPlain_bitsForm digits
  | .array elements, readable => .brackets (arePlain_forms readable)
  | .variable name, readable => by
      have isReadable : IsName name ∧ name ∉ keywords := readable _ List.mem_cons_self
      exact .word isReadable.1.isPlainWord
  | .negate operand, readable => by
      have plainOperand : operand.form.IsPlain := isPlain_form readable
      exact isPlain_headed (by decide) (List.forall_mem_singleton.mpr plainOperand)
  | .binary operator left right, readable => by
      rw [atoms, readable_append] at readable
      have plainLeft := isPlain_form readable.1
      have plainRight := isPlain_form readable.2
      exact isPlain_headed operator.isPlain_text (by simp [plainLeft, plainRight])
  | .suffix operator operand trailing, readable => by
      rw [atoms] at readable
      have plainOperand := isPlain_form readable
      exact isPlain_headed operator.isPlain_text (List.forall_mem_singleton.mpr plainOperand)
  | .call callee arguments, readable => by
      rw [atoms, readable_append] at readable
      have plainCallee := Callee.isPlain_form readable.1
      exact isPlain_headed (by decide)
        (List.forall_mem_cons.mpr ⟨plainCallee, arePlain_forms readable.2⟩)
  | .raise message, _ =>
      isPlain_headed (by decide) (List.forall_mem_singleton.mpr (.quoted message))

theorem arePlain_forms : ∀ {expressions : List Expr}, Readable (atomsOfAll expressions) →
    ∀ form ∈ forms expressions, form.IsPlain
  | [], _ => List.forall_mem_nil _
  | expression :: expressions, readable => by
      rw [atomsOfAll, readable_append] at readable
      exact List.forall_mem_cons.mpr ⟨isPlain_form readable.1, arePlain_forms readable.2⟩

end

end Expr

namespace Statement

theorem isPlain_name {name : String} {atoms : List Atom}
    (readable : Readable (.symbol name :: atoms)) : (Form.word name).IsPlain :=
  .word (IsName.isPlainWord (readable_cons.mp readable).1)

mutual

theorem isPlain_form : ∀ {statement : Statement}, Readable statement.atoms →
    statement.form.IsPlain
  | .assign name value, readable => by
      have plainName := isPlain_name readable
      have plainValue := Expr.isPlain_form (readable_cons.mp readable).2
      exact isPlain_headed (by decide) (by simp [plainName, plainValue])
  | .input name, readable =>
      isPlain_headed (by decide) (List.forall_mem_singleton.mpr (isPlain_name readable))
  | .output value, readable =>
      isPlain_headed (by decide) (List.forall_mem_singleton.mpr (Expr.isPlain_form readable))
  | .outputMany direction count, readable => by
      have plainCount := List.forall_mem_singleton.mpr (Expr.isPlain_form readable)
      cases direction <;> exact isPlain_headed (by decide) plainCount
  | .call callee arguments, readable => by
      have isCall : Readable (Expr.call callee arguments).atoms := readable
      exact Expr.isPlain_form isCall
  | .define name parameters body, readable => by
      have plainName := isPlain_name readable
      rw [atoms, readable_append, readable_cons] at readable
      have plainParameters : (Form.parens (parameters.map .word)).IsPlain := by
        refine .parens (List.forall_mem_map.mpr fun name member => ?_)
        exact .word (readable.1.2 _ (List.mem_map_of_mem member)).isPlainWord
      have plainBody := Form.IsPlain.parens (arePlain_forms readable.2)
      exact isPlain_headed (by decide) (by simp [plainName, plainParameters, plainBody])
  | .giveBack none, _ => isPlain_headed (by decide) (List.forall_mem_nil _)
  | .giveBack (some value), readable =>
      isPlain_headed (by decide) (List.forall_mem_singleton.mpr (Expr.isPlain_form readable))
  | .conditional condition body fallback, readable => by
      rw [atoms, readable_append, readable_append] at readable
      have plainCondition := Expr.isPlain_form readable.1.1
      have plainBody := Form.IsPlain.parens (arePlain_forms readable.1.2)
      have plainBranch : (Form.parens [condition.form, .parens (forms body)]).IsPlain :=
        .parens (by simp [plainCondition, plainBody])
      exact isPlain_headed (by decide)
        (List.forall_mem_cons.mpr ⟨plainBranch, arePlain_fallbackForms readable.2⟩)
  | .whileLoop condition body, readable => by
      rw [atoms, readable_append] at readable
      have plainCondition := Expr.isPlain_form readable.1
      have plainBody := Form.IsPlain.parens (arePlain_forms readable.2)
      exact isPlain_headed (by decide) (by simp [plainCondition, plainBody])
  | .forLoop name range body, readable => by
      have plainName := isPlain_name readable
      rw [atoms, List.cons_append, readable_cons, readable_append] at readable
      have plainRange := Expr.isPlain_form readable.2.1
      have plainBody := Form.IsPlain.parens (arePlain_forms readable.2.2)
      exact isPlain_headed (by decide) (by simp [plainName, plainRange, plainBody])
  | .attempt body handler, readable => by
      rw [atoms, readable_append] at readable
      have plainBody := Form.IsPlain.parens (arePlain_forms readable.1)
      have plainItems := Form.IsPlain.parens (arePlain_forms readable.2)
      have plainHandler : (Form.parens [.word "%%%%", .parens (forms handler)]).IsPlain :=
        isPlain_headed (by decide) (List.forall_mem_singleton.mpr plainItems)
      exact isPlain_headed (by decide) (by simp [plainBody, plainHandler])
  | .raise message, _ =>
      isPlain_headed (by decide) (List.forall_mem_singleton.mpr (.quoted message))

theorem arePlain_forms : ∀ {statements : List Statement}, Readable (blockAtoms statements) →
    ∀ form ∈ forms statements, form.IsPlain
  | [], _ => List.forall_mem_nil _
  | statement :: statements, readable => by
      rw [blockAtoms, readable_append] at readable
      exact List.forall_mem_cons.mpr ⟨isPlain_form readable.1, arePlain_forms readable.2⟩

theorem arePlain_fallbackForms : ∀ {fallback : Fallback}, Readable fallback.atoms →
    ∀ form ∈ fallbackForms fallback, form.IsPlain
  | .nothing, _ => List.forall_mem_nil _
  | .otherwise body, readable => by
      rw [Fallback.atoms] at readable
      have plainBody := Form.IsPlain.parens (arePlain_forms readable)
      have plainItem : (Form.parens [.word "??:", .parens (forms body)]).IsPlain :=
        isPlain_headed (by decide) (List.forall_mem_singleton.mpr plainBody)
      exact List.forall_mem_singleton.mpr plainItem
  | .elseIf condition body fallback, readable => by
      rw [Fallback.atoms, readable_append, readable_append] at readable
      have plainCondition := Expr.isPlain_form readable.1.1
      have plainBody := Form.IsPlain.parens (arePlain_forms readable.1.2)
      have plainItem :
          (Form.parens [.word "??#", condition.form, .parens (forms body)]).IsPlain :=
        isPlain_headed (by decide) (by simp [plainCondition, plainBody])
      exact List.forall_mem_cons.mpr ⟨plainItem, arePlain_fallbackForms readable.2⟩

end

end Statement

theorem Block.text_eq_lines (block : Block) : block.text = Form.lines (Statement.forms block) := by
  have forms_eq : ∀ block : Block, Statement.forms block = block.map Statement.form := by
    intro block
    induction block with
    | nil => rfl
    | cons statement statements ih => rw [Statement.forms, ih, List.map_cons]
  rw [Block.text, Form.lines, forms_eq, List.map_map]
  rfl

/-- Programs with the same text are alike. -/
theorem Block.alike_of_text {first second : Block} (readable : Readable (blockAtoms first))
    (readable' : Readable (blockAtoms second)) (same : first.text = second.text) :
    first.Alike second := by
  rw [text_eq_lines, text_eq_lines] at same
  exact Statement.forall₂_alike_of_forms readable readable'
    (Form.lines_injective (Statement.arePlain_forms readable)
      (Statement.arePlain_forms readable') same)

end Mel

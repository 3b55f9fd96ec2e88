import Mathlib.Data.List.TakeWhile
import Mel.Text.Form

/-!
# Forms by their texts

Two forms with the same text are the same form, so that nothing is lost when a form is written
down. For the text of a quoted part this needs nothing, since what is written for one character
never begins what is written for another. Words have to be plain: not empty, and without the
characters that come between words.

All of this is proved with any text behind, since this is how one part after the other is told
apart from what follows.
-/

namespace Mel.Text

theorem digitChar_injective : ∀ digit < 16, ∀ digit' < 16,
    Nat.digitChar digit = Nat.digitChar digit' → digit = digit' := by
  decide

theorem digitChar_ne_closingBrace : ∀ digit < 16, Nat.digitChar digit ≠ '\x7d' := by
  decide

theorem toDigits_injective {number number' : Nat}
    (same : Nat.toDigits 16 number = Nat.toDigits 16 number') : number = number' := by
  have lastDigit (number : Nat) : Nat.toDigits 16 number =
      (if number < 16 then [] else Nat.toDigits 16 (number / 16))
        ++ [Nat.digitChar (number % 16)] := by
    split
    · rename_i small
      rw [Nat.toDigits_of_lt_base small, Nat.mod_eq_of_lt small, List.nil_append]
    · rename_i large
      exact Nat.toDigits_of_base_le (by decide) (Nat.le_of_not_lt large)
  induction number using Nat.strongRecOn generalizing number' with
  | ind number ih =>
      rw [lastDigit number, lastDigit number'] at same
      obtain ⟨sameUpper, sameLast⟩ := List.append_inj' same rfl
      have sameDigit := digitChar_injective _ (Nat.mod_lt number (by decide)) _
        (Nat.mod_lt number' (by decide)) (List.singleton_inj.mp sameLast)
      split at sameUpper <;> split at sameUpper
      · omega
      · exact (Nat.toDigits_ne_nil sameUpper.symm).elim
      · exact (Nat.toDigits_ne_nil sameUpper).elim
      · have := ih (number / 16) (by omega) sameUpper
        omega

theorem closingBrace_not_mem_toDigits (number : Nat) : '\x7d' ∉ Nat.toDigits 16 number := by
  induction number using Nat.strongRecOn with
  | ind number ih =>
      have notLast := (digitChar_ne_closingBrace _ (Nat.mod_lt number (by decide))).symm
      rw [Nat.toDigits_eq_if (by decide)]
      split
      · rename_i small
        rw [Nat.mod_eq_of_lt small] at notLast
        exact fun member => notLast (List.mem_singleton.mp member)
      · intro member
        rcases List.mem_append.mp member with isUpper | isLast
        · exact ih (number / 16) (by omega) isUpper
        · exact notLast (List.mem_singleton.mp isLast)

/-- The letter that stands for a character behind a backslash. -/
def escapeLetter? : Char → Option Char
  | '"' => some '"'
  | '\\' => some '\\'
  | '\n' => some 'n'
  | '\r' => some 'r'
  | '\t' => some 't'
  | '\x00' => some '0'
  | _ => none

/-- The ways in which characters are written between quotes. -/
inductive Escaped (character : Char) : List Char → Prop where
  | letter {letter : Char} (isLetter : escapeLetter? character = some letter) :
      Escaped character ['\\', letter]
  | codePoint : Escaped character ('\\' :: 'u' :: '\x7b' :: (codePoint character ++ ['\x7d']))
  | plain (notQuote : character ≠ '"') (notEscape : character ≠ '\\') :
      Escaped character [character]

theorem escaped (character : Char) : Escaped character (escape character) := by
  unfold escape
  split
  · exact .letter rfl
  · exact .letter rfl
  · exact .letter rfl
  · exact .letter rfl
  · exact .letter rfl
  · exact .letter rfl
  · rename_i notQuote notEscape _ _ _ _
    split
    · exact .plain notQuote notEscape
    · split
      · exact .codePoint
      · exact .plain notQuote notEscape

theorem escapeLetter?_ne_u {character letter : Char}
    (isLetter : escapeLetter? character = some letter) : letter ≠ 'u' := by
  unfold escapeLetter? at isLetter
  split at isLetter <;> cases isLetter <;> decide

theorem escapeLetter?_injective {character character' letter : Char}
    (isLetter : escapeLetter? character = some letter)
    (isLetter' : escapeLetter? character' = some letter) : character = character' := by
  unfold escapeLetter? at isLetter isLetter'
  split at isLetter <;> cases isLetter <;> split at isLetter' <;> cases isLetter' <;> rfl

theorem codePoint_injective {character character' : Char} {rest rest' : List Char}
    (same : codePoint character ++ '\x7d' :: rest = codePoint character' ++ '\x7d' :: rest') :
    character = character' ∧ rest = rest' := by
  have upToBrace (character : Char) (rest : List Char) :
      (codePoint character ++ '\x7d' :: rest).takeWhile (· ≠ '\x7d') = codePoint character := by
    rw [List.takeWhile_append_of_pos, List.takeWhile_cons_of_neg (by decide), List.append_nil]
    intro digit member
    have notBrace : digit ≠ '\x7d' := fun isBrace =>
      closingBrace_not_mem_toDigits character.toNat (isBrace ▸ member)
    simpa using notBrace
  have sameDigits : codePoint character = codePoint character' := by
    rw [← upToBrace character rest, same, upToBrace]
  have sameCode := toDigits_injective sameDigits
  rw [sameDigits] at same
  have sameRest := List.append_cancel_left same
  exact ⟨Char.ext (UInt32.toNat_inj.mp sameCode), (List.cons.inj sameRest).2⟩

/-- What is written for a character tells which one it is. -/
theorem escape_injective {character character' : Char} {rest rest' : List Char}
    (same : escape character ++ rest = escape character' ++ rest') :
    character = character' ∧ rest = rest' := by
  have isEscaped := escaped character
  have isEscaped' := escaped character'
  generalize escape character = written at same isEscaped
  generalize escape character' = written' at same isEscaped'
  cases isEscaped with
  | letter isLetter =>
      cases isEscaped' with
      | letter isLetter' =>
          simp only [List.cons_append, List.nil_append, List.cons.injEq, true_and] at same
          obtain ⟨rfl, sameRest⟩ := same
          exact ⟨escapeLetter?_injective isLetter isLetter', sameRest⟩
      | codePoint =>
          simp only [List.cons_append, List.nil_append, List.cons.injEq, true_and] at same
          exact (escapeLetter?_ne_u isLetter same.1).elim
      | plain _ notEscape' =>
          simp only [List.cons_append, List.nil_append, List.cons.injEq] at same
          exact (notEscape' same.1.symm).elim
  | codePoint =>
      cases isEscaped' with
      | letter isLetter' =>
          simp only [List.cons_append, List.nil_append, List.cons.injEq, true_and] at same
          exact (escapeLetter?_ne_u isLetter' same.1.symm).elim
      | codePoint =>
          simp only [List.cons_append, List.append_assoc, List.nil_append, List.cons.injEq,
            true_and] at same
          exact codePoint_injective same
      | plain _ notEscape' =>
          simp only [List.cons_append, List.nil_append, List.cons.injEq] at same
          exact (notEscape' same.1.symm).elim
  | plain _ notEscape =>
      cases isEscaped' with
      | letter _ =>
          simp only [List.cons_append, List.nil_append, List.cons.injEq] at same
          exact (notEscape same.1).elim
      | codePoint =>
          simp only [List.cons_append, List.nil_append, List.cons.injEq] at same
          exact (notEscape same.1).elim
      | plain _ _ => simpa using same

theorem escape_ne_quote (character : Char) (rest rest' : List Char) :
    escape character ++ rest ≠ '"' :: rest' := by
  have isEscaped := escaped character
  generalize escape character = written at isEscaped
  intro same
  cases isEscaped with
  | letter _ => simp at same
  | codePoint => simp at same
  | plain notQuote _ =>
      simp only [List.cons_append, List.nil_append, List.cons.injEq] at same
      exact notQuote same.1

theorem quote_injective {text text' rest rest' : List Char}
    (same : quote text ++ rest = quote text' ++ rest') : text = text' ∧ rest = rest' := by
  simp only [quote, List.cons_append, List.append_assoc, List.nil_append, List.cons.injEq,
    true_and] at same
  induction text generalizing text' with
  | nil =>
      cases text' with
      | nil => simpa using same
      | cons character' text' =>
          rw [List.flatMap_cons, List.append_assoc] at same
          exact (escape_ne_quote _ _ _ same.symm).elim
  | cons character text ih =>
      cases text' with
      | nil =>
          rw [List.flatMap_cons, List.append_assoc] at same
          exact (escape_ne_quote _ _ _ same).elim
      | cons character' text' =>
          rw [List.flatMap_cons, List.flatMap_cons, List.append_assoc, List.append_assoc] at same
          obtain ⟨rfl, sameText⟩ := escape_injective same
          obtain ⟨rfl, sameRest⟩ := ih sameText
          exact ⟨rfl, sameRest⟩

/-- The characters that come between words. -/
def isDelimiter (character : Char) : Bool :=
  [' ', ',', '(', ')', '[', ']', '"', '\n'].contains character

/-- A word that can be told apart from what stands around it. -/
structure IsPlainWord (word : String) : Prop where
  nonempty : word.toList ≠ []
  undelimited : ∀ character ∈ word.toList, isDelimiter character = false

instance (word : String) : Decidable (IsPlainWord word) :=
  decidable_of_iff (word.toList ≠ [] ∧ word.toList.all (!isDelimiter ·) = true)
    ⟨fun isPlain => ⟨isPlain.1, by simpa using isPlain.2⟩,
      fun isPlain => ⟨isPlain.nonempty, by simpa using isPlain.undelimited⟩⟩

/-- A text in front of which a word ends. -/
def Delimited (rest : List Char) : Prop :=
  ∀ character ∈ rest.head?, isDelimiter character

theorem word_injective {word word' rest rest' : List Char}
    (undelimited : ∀ character ∈ word, isDelimiter character = false)
    (undelimited' : ∀ character ∈ word', isDelimiter character = false)
    (delimited : Delimited rest) (delimited' : Delimited rest')
    (same : word ++ rest = word' ++ rest') : word = word' ∧ rest = rest' := by
  have upToDelimiter {word rest : List Char} (delimited : Delimited rest)
      (undelimited : ∀ character ∈ word, isDelimiter character = false) :
      (word ++ rest).takeWhile (!isDelimiter ·) = word := by
    rw [List.takeWhile_append_of_pos (by simpa using undelimited)]
    cases rest with
    | nil => exact List.append_nil word
    | cons delimiter rest =>
        rw [List.takeWhile_cons_of_neg (by simpa [Delimited] using delimited), List.append_nil]
  have sameWord : word = word' := by
    rw [← upToDelimiter delimited undelimited, same, upToDelimiter delimited' undelimited']
  subst sameWord
  exact ⟨rfl, List.append_cancel_left same⟩

namespace Form

/-- Forms of which all words are plain. -/
inductive IsPlain : Form → Prop where
  | word {text : String} (isPlain : IsPlainWord text) : IsPlain (.word text)
  | quoted (text : String) : IsPlain (.quoted text)
  | parens {items : List Form} (arePlain : ∀ item ∈ items, IsPlain item) : IsPlain (.parens items)
  | brackets {items : List Form} (arePlain : ∀ item ∈ items, IsPlain item) :
      IsPlain (.brackets items)

/-- The delimiter that a form begins with. -/
def opener? : Form → Option Char
  | .word _ => none
  | .quoted _ => some '"'
  | .parens _ => some '('
  | .brackets _ => some '['

theorem filter_head?_onto {form : Form} (isPlain : form.IsPlain) (rest : List Char) :
    (form.onto rest).head?.filter isDelimiter = form.opener? := by
  cases isPlain with
  | @word text isPlain =>
      obtain ⟨character, characters, isText⟩ := List.exists_cons_of_ne_nil isPlain.nonempty
      have undelimited := isPlain.undelimited character (by simp [isText])
      simp [onto, isText, opener?, undelimited]
  | quoted _ => rfl
  | parens _ => rfl
  | brackets _ => rfl

/-- What stands between the items of a form and behind the last one. -/
inductive Encloses : (separator : List Char) → (closer : Char) → Prop where
  | parens : Encloses [' '] ')'
  | brackets : Encloses [',', ' '] ']'

section

variable {separator : List Char} {closer : Char} (encloses : Encloses separator closer)

include encloses in
theorem onto_ne_closer {form : Form} (isPlain : form.IsPlain) (rest rest' : List Char) :
    form.onto rest ≠ closer :: rest' := by
  intro same
  have sameOpener := filter_head?_onto isPlain rest
  rw [same] at sameOpener
  cases encloses <;> cases form <;> cases sameOpener

include encloses in
theorem delimited_continuedOnto (items : List Form) (rest : List Char) :
    Delimited (continuedOnto separator items (closer :: rest)) := by
  cases encloses <;> cases items <;> rintro character ⟨⟩ <;> rfl

include encloses in
theorem separator_append_ne_closer (rest rest' : List Char) :
    separator ++ rest ≠ closer :: rest' := by
  cases encloses <;> simp

end

mutual

/-- A plain form is told by its characters, whatever is behind them. -/
theorem onto_injective : ∀ {form form' : Form}, form.IsPlain → form'.IsPlain →
    ∀ {rest rest' : List Char}, Delimited rest → Delimited rest' →
      form.onto rest = form'.onto rest' → form = form' ∧ rest = rest'
  | form, form', isPlain, isPlain', rest, rest', delimited, delimited', same => by
      have sameOpener : form.opener? = form'.opener? := by
        rw [← filter_head?_onto isPlain rest, same, filter_head?_onto isPlain']
      match form, form' with
      | .word text, .word text' =>
          cases isPlain with | word isPlain =>
          cases isPlain' with | word isPlain' =>
          obtain ⟨sameText, sameRest⟩ := word_injective isPlain.undelimited
            isPlain'.undelimited delimited delimited' same
          exact ⟨congrArg word (String.toList_inj.mp sameText), sameRest⟩
      | .quoted text, .quoted text' =>
          obtain ⟨sameText, sameRest⟩ := quote_injective same
          exact ⟨congrArg quoted (String.toList_inj.mp sameText), sameRest⟩
      | .parens items, .parens items' =>
          cases isPlain with | parens arePlain =>
          cases isPlain' with | parens arePlain' =>
          obtain ⟨rfl, sameRest⟩ := joinedOnto_injective .parens arePlain arePlain'
            (List.cons.inj same).2
          exact ⟨rfl, sameRest⟩
      | .brackets items, .brackets items' =>
          cases isPlain with | brackets arePlain =>
          cases isPlain' with | brackets arePlain' =>
          obtain ⟨rfl, sameRest⟩ := joinedOnto_injective .brackets arePlain arePlain'
            (List.cons.inj same).2
          exact ⟨rfl, sameRest⟩

theorem joinedOnto_injective {separator : List Char} {closer : Char}
    (encloses : Encloses separator closer) :
    ∀ {items items' : List Form}, (∀ item ∈ items, item.IsPlain) →
      (∀ item ∈ items', item.IsPlain) → ∀ {rest rest' : List Char},
        joinedOnto separator items (closer :: rest) =
            joinedOnto separator items' (closer :: rest') →
          items = items' ∧ rest = rest'
  | [], [], _, _, _, _, same => ⟨rfl, (List.cons.inj same).2⟩
  | [], item' :: _, _, arePlain', _, _, same =>
      (onto_ne_closer encloses (arePlain' item' List.mem_cons_self) _ _ same.symm).elim
  | item :: _, [], arePlain, _, _, _, same =>
      (onto_ne_closer encloses (arePlain item List.mem_cons_self) _ _ same).elim
  | item :: items, item' :: items', arePlain, arePlain', rest, rest', same => by
      rw [List.forall_mem_cons] at arePlain arePlain'
      obtain ⟨rfl, sameItems⟩ := onto_injective arePlain.1 arePlain'.1
        (delimited_continuedOnto encloses items rest)
        (delimited_continuedOnto encloses items' rest') same
      obtain ⟨rfl, sameRest⟩ := continuedOnto_injective encloses arePlain.2 arePlain'.2 sameItems
      exact ⟨rfl, sameRest⟩

theorem continuedOnto_injective {separator : List Char} {closer : Char}
    (encloses : Encloses separator closer) :
    ∀ {items items' : List Form}, (∀ item ∈ items, item.IsPlain) →
      (∀ item ∈ items', item.IsPlain) → ∀ {rest rest' : List Char},
        continuedOnto separator items (closer :: rest) =
            continuedOnto separator items' (closer :: rest') →
          items = items' ∧ rest = rest'
  | [], [], _, _, _, _, same => ⟨rfl, (List.cons.inj same).2⟩
  | [], _ :: _, _, _, _, _, same => (separator_append_ne_closer encloses _ _ same.symm).elim
  | _ :: _, [], _, _, _, _, same => (separator_append_ne_closer encloses _ _ same).elim
  | item :: items, item' :: items', arePlain, arePlain', rest, rest', same => by
      rw [List.forall_mem_cons] at arePlain arePlain'
      obtain ⟨rfl, sameItems⟩ := onto_injective arePlain.1 arePlain'.1
        (delimited_continuedOnto encloses items rest)
        (delimited_continuedOnto encloses items' rest') (List.append_cancel_left same)
      obtain ⟨rfl, sameRest⟩ := continuedOnto_injective encloses arePlain.2 arePlain'.2 sameItems
      exact ⟨rfl, sameRest⟩

end

mutual

theorem onto_append (later : List Char) : ∀ (form : Form) (rest : List Char),
    form.onto rest ++ later = form.onto (rest ++ later)
  | .word _, _ | .quoted _, _ => List.append_assoc ..
  | .parens items, rest =>
      congrArg (List.cons '(') (joinedOnto_append later [' '] items (')' :: rest))
  | .brackets items, rest =>
      congrArg (List.cons '[') (joinedOnto_append later [',', ' '] items (']' :: rest))

theorem joinedOnto_append (later separator : List Char) : ∀ (items : List Form) (rest : List Char),
    joinedOnto separator items rest ++ later = joinedOnto separator items (rest ++ later)
  | [], _ => rfl
  | item :: items, rest => by
      rw [joinedOnto, onto_append later item, continuedOnto_append later separator items rest]
      rfl

theorem continuedOnto_append (later separator : List Char) :
    ∀ (items : List Form) (rest : List Char),
      continuedOnto separator items rest ++ later = continuedOnto separator items (rest ++ later)
  | [], _ => rfl
  | item :: items, rest => by
      rw [continuedOnto, List.append_assoc, onto_append later item,
        continuedOnto_append later separator items rest]
      rfl

end

theorem chars_append (form : Form) (rest : List Char) : form.chars ++ rest = form.onto rest :=
  onto_append rest form []

/-- Several forms, each on a line of its own. -/
def lines (forms : List Form) : String :=
  String.join (forms.map fun form => form.text ++ "\n")

theorem toList_lines_cons (form : Form) (forms : List Form) :
    (lines (form :: forms)).toList = form.onto ('\n' :: (lines forms).toList) := by
  simp [lines, String.join_cons, text, ← chars_append]

theorem lines_cons_ne_empty (form : Form) (forms : List Form) : lines (form :: forms) ≠ "" := by
  intro isEmpty
  have noChars := toList_lines_cons form forms
  rw [isEmpty, ← chars_append] at noChars
  simp at noChars

/-- Plain forms are told by the lines they stand on. -/
theorem lines_injective {forms forms' : List Form} (arePlain : ∀ form ∈ forms, form.IsPlain)
    (arePlain' : ∀ form ∈ forms', form.IsPlain) (same : lines forms = lines forms') :
    forms = forms' := by
  have endOfLine (forms : List Form) : Delimited ('\n' :: (lines forms).toList) := by
    rintro character ⟨⟩
    rfl
  induction forms generalizing forms' with
  | nil =>
      cases forms' with
      | nil => rfl
      | cons form' forms' => exact (lines_cons_ne_empty form' forms' same.symm).elim
  | cons form forms ih =>
      cases forms' with
      | nil => exact (lines_cons_ne_empty form forms same).elim
      | cons form' forms' =>
          rw [List.forall_mem_cons] at arePlain arePlain'
          have sameChars := congrArg String.toList same
          rw [toList_lines_cons, toList_lines_cons] at sameChars
          obtain ⟨rfl, sameLines⟩ := onto_injective arePlain.1 arePlain'.1 (endOfLine forms)
            (endOfLine forms') sameChars
          have sameForms := ih arePlain.2 arePlain'.2
            (String.toList_inj.mp (List.cons.inj sameLines).2)
          rw [sameForms]

end Form

end Mel.Text

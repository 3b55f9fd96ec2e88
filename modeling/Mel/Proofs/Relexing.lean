import Mel.Proofs.Places

/-!
# Tokens written apart

The tokens of a source can be written down again with any blanks between them, and are found
again as they were. Two things are needed for this. A token is found when its text stands
alone, since what is matched is matched on its own. And a blank keeps it apart from what
follows: the rules that could reach over a blank want a comment behind it, a program marker
that has begun before it, or an open string, and no token begins or ends like that.
-/

namespace Mel

open Text (isBlank)

namespace Pattern

/-- Can a pattern match a text that begins with this character? -/
def canStart (first : Char) : Pattern → Bool
  | .exact text => text.toList.head? == some first
  | .marker lead _ => lead.toList.head? == some first
  | .markedComment => first == '>'
  | .lineComment => first == '~'
  | .string => first == '"'
  | .realNumber => first == '#'
  | .identifier => isNameStart first
  | .blanks => isBlank first
  | .anyCharacter => true

theorem head?_of_afterLead? {lead text rest : List Char} (nonempty : lead ≠ [])
    (begins : afterLead? lead text = some rest) : lead.head? = text.head? := by
  rw [afterLead?_eq_some_iff] at begins
  cases lead with
  | nil => exact (nonempty rfl).elim
  | cons first lead =>
      subst begins
      rfl

theorem canStart_of_matchLength? {pattern : Pattern} (proper : pattern.isProper) {first : Char}
    {text : List Char} {length : Nat}
    (matched : pattern.matchLength? (first :: text) = some length) : pattern.canStart first := by
  cases pattern with
  | exact expected =>
      obtain ⟨rest, isExpected, rfl⟩ := Option.map_eq_some_iff.mp matched
      have nonempty : expected.toList ≠ [] := by simp_all [isProper]
      simp [canStart, head?_of_afterLead? nonempty isExpected]
  | marker lead word =>
      simp only [matchLength?, markerLength?, Option.bind_eq_bind,
        Option.bind_eq_some_iff] at matched
      obtain ⟨afterMark, isMark, -⟩ := matched
      have nonempty : lead.toList ≠ [] := by
        intro isEmpty
        simp [isProper, startsSolid, isEmpty] at proper
      simp [canStart, head?_of_afterLead? nonempty isMark]
  | markedComment | lineComment | string | realNumber =>
      simp only [matchLength?, markedCommentLength?, commentLength?, stringLength?,
        numberLength?] at matched
      split at matched
      · rename_i isText
        cases isText
        rfl
      · cases matched
  | identifier =>
      simp only [matchLength?, nameLength?] at matched
      split at matched
      · assumption
      · cases matched
  | blanks =>
      rw [matchLength?, blanksLength?_eq_some_iff, List.takeWhile_cons] at matched
      obtain ⟨rfl, notZero⟩ := matched
      by_contra solid
      have solid : isBlank first = false := by simpa [canStart] using solid
      rw [solid] at notZero
      exact notZero rfl
  | anyCharacter => rfl

/-- Patterns that can begin with a blank. -/
def allowsBlank : Pattern → Bool
  | .blanks | .anyCharacter => true
  | _ => false

theorem canStart_of_isBlank {pattern : Pattern} (proper : pattern.isProper) {first : Char}
    (blank : isBlank first) : pattern.canStart first = pattern.allowsBlank := by
  cases pattern with
  | exact text | marker text _ =>
      simp only [canStart, allowsBlank, Bool.eq_false_iff]
      intro isHead
      have member : first ∈ text.toList := List.mem_of_mem_head? (by simpa using isHead)
      have solid : ∀ character ∈ text.toList, isBlank character = false := by
        simp_all [isProper]
      rw [solid first member] at blank
      cases blank
  | markedComment | lineComment | string | realNumber =>
      simp only [canStart, allowsBlank, beq_eq_false_iff_ne]
      rintro rfl
      revert blank
      decide
  | identifier =>
      have outside := isNamePart_of_isBlank blank
      simp only [isNamePart, Char.isAlphanum, Bool.or_eq_false_iff] at outside
      simp [canStart, allowsBlank, isNameStart, outside]
  | blanks => exact blank
  | anyCharacter => rfl

end Pattern

namespace Rule

/-- The rules that can match where a text goes on with this character. -/
def rulesFor (first : Char) : List Rule :=
  table.filter (·.pattern.canStart first)

theorem findSome?_filter_of_isSome {α β : Type} {isLikely : α → Bool} {test : α → Option β}
    {candidates : List α}
    (likely : ∀ candidate ∈ candidates, (test candidate).isSome → isLikely candidate) :
    (candidates.filter isLikely).findSome? test = candidates.findSome? test := by
  induction candidates with
  | nil => rfl
  | cons candidate candidates ih =>
      have later := ih fun candidate member => likely candidate (List.mem_cons_of_mem _ member)
      cases isLikelyHere : isLikely candidate with
      | true => rw [List.filter_cons_of_pos isLikelyHere, List.findSome?_cons, later,
          List.findSome?_cons]
      | false =>
          have misses : test candidate = none := by
            rw [← Option.not_isSome_iff_eq_none]
            intro hits
            rw [likely candidate List.mem_cons_self hits] at isLikelyHere
            cases isLikelyHere
          rw [List.filter_cons_of_neg (by simp [isLikelyHere]), List.findSome?_cons, misses, later]

theorem firstMatch?_nil : firstMatch? [] = none := by
  decide

theorem firstMatch?_cons (first : Char) (text : List Char) :
    firstMatch? (first :: text) = (rulesFor first).findSome? fun rule =>
      (rule.pattern.matchLength? (first :: text)).map (rule.action, ·) := by
  rw [firstMatch?, rulesFor]
  symm
  apply findSome?_filter_of_isSome
  intro rule isRule matched
  rw [Option.isSome_map, Option.isSome_iff_exists] at matched
  obtain ⟨length, isLength⟩ := matched
  exact Pattern.canStart_of_matchLength? (isProper_of_mem_table rule isRule) isLength

theorem rulesFor_colon : rulesFor ':' =
    [⟨.emit .programStart, .marker ":::" "start"⟩, token .colon ":",
      ⟨.unknown, .anyCharacter⟩] := by
  decide

theorem rulesFor_semicolon : rulesFor ';' =
    [⟨.emit .programEnd, .marker ";;;" "end"⟩, token .bitsMark ";;", token .semicolon ";",
      ⟨.unknown, .anyCharacter⟩] := by
  decide

theorem rulesFor_quote : rulesFor '"' =
    [⟨.emit .string, .string⟩, ⟨.unknown, .anyCharacter⟩] := by
  decide

theorem rulesFor_tilde : rulesFor '~' =
    [⟨.skip, .lineComment⟩, ⟨.unknown, .anyCharacter⟩] := by
  decide

theorem rulesFor_blank {first : Char} (blank : isBlank first) : rulesFor first =
    [⟨.skip, .blanks⟩, ⟨.unknown, .anyCharacter⟩] := by
  have isFilter : rulesFor first = table.filter (·.pattern.allowsBlank) := by
    refine List.filter_congr fun rule isRule => ?_
    exact Pattern.canStart_of_isBlank (isProper_of_mem_table rule isRule) blank
  rw [isFilter]
  decide

end Rule

namespace Rule

/-- The first match moves from one text to another if the rule that matched still matches as
far, and no rule matches that did not. -/
theorem firstMatch?_transfer {text text' : List Char} {action : Action} {length : Nat}
    (matched : firstMatch? text = some (action, length))
    (here : ∀ rule ∈ table, rule.action = action →
      rule.pattern.matchLength? text = some length → rule.pattern.matchLength? text' = some length)
    (earlier : ∀ rule ∈ table,
      rule.pattern.matchLength? text = none → rule.pattern.matchLength? text' = none) :
    firstMatch? text' = some (action, length) := by
  obtain ⟨before, rule, behind, isTable, ruleMatched, missed⟩ :=
    List.findSome?_eq_some_iff.mp matched
  obtain ⟨length, isLength, isMatch⟩ := Option.map_eq_some_iff.mp ruleMatched
  cases isMatch
  refine List.findSome?_eq_some_iff.mpr ⟨before, rule, behind, isTable, ?_, ?_⟩
  · rw [here rule (by simp [isTable]) rfl isLength, Option.map_some]
  · intro other member
    rw [Option.map_eq_none_iff]
    exact earlier other (by simp [isTable, member])
      (Option.map_eq_none_iff.mp (missed other member))

/-- What the first match takes is matched in the same way on its own. -/
theorem firstMatch?_alone {taken rest : List Char} {action : Action}
    (matched : firstMatch? (taken ++ rest) = some (action, taken.length)) :
    firstMatch? taken = some (action, taken.length) := by
  refine firstMatch?_transfer matched (fun rule isRule _ ruleMatched => ?_)
    fun rule isRule missed => ?_
  · obtain ⟨taken', rest', isText, isLength, alone⟩ :=
      Pattern.exists_matchesAlone (isProper_of_mem_table rule isRule) ruleMatched
    obtain ⟨rfl, rfl⟩ := List.append_inj isText isLength.symm
    exact alone.alone
  · rw [Option.eq_none_iff_forall_ne_some]
    intro length ruleMatched
    obtain ⟨taken', excess, rfl, -, alone⟩ :=
      Pattern.exists_matchesAlone (isProper_of_mem_table rule isRule) ruleMatched
    have persists := alone.persists (excess ++ rest)
    rw [← List.append_assoc, missed] at persists
    cases persists

end Rule

/-- The text of a token by itself is that token and nothing else. -/
def Token.StandsAlone (token : Token) : Prop :=
  Rule.firstMatch? token.text.toList = some (.emit token.kind, token.text.toList.length)

theorem Cover.matched_alone {position : Position} {text : List Char} {lexemes : List Lexeme}
    (cover : Cover position text lexemes) {lexeme : Lexeme} (member : lexeme ∈ lexemes) :
    Rule.firstMatch? lexeme.text.toList = some (lexeme.action, lexeme.text.toList.length) := by
  induction cover with
  | nil => cases member
  | cons _ matched _ ih =>
      rcases List.mem_cons.mp member with rfl | member
      · simpa using Rule.firstMatch?_alone matched
      · exact ih member

theorem standsAlone_of_mem_tokens {policy : Policy} {source : String} {token : Token}
    (member : token ∈ (tokenize policy source).tokens) : token.StandsAlone := by
  have matched := (cover_lexemes source).matched_alone (lexeme_mem_of_token member)
  exact matched

/-- Behind the gap that a text begins with, if any, no comment begins. -/
def NoComment (rest : List Char) : Prop :=
  (rest.dropWhile isBlank).head? ≠ some '~'

namespace Pattern

/-- The markers at the two ends of a program, and all that is no marker. -/
def isProgramMark : Pattern → Bool
  | .marker lead word => (lead == ":::" && word == "start") || (lead == ";;;" && word == "end")
  | _ => true

/-- The mark of a marker is in the word that stands before the blank. -/
theorem mark_of_append_separated {lead word : String} {taken rest : List Char}
    (proper : (marker lead word).isProper) (nonempty : taken ≠ []) (separated : Separated rest)
    (matched : ((marker lead word).matchLength? (taken ++ rest)).isSome) :
    ∃ later, taken = lead.toList ++ later := by
  have properMark : (exact lead).isProper := by
    simp only [isProper, startsSolid, Bool.and_eq_true] at proper ⊢
    refine ⟨?_, proper.1.2⟩
    cases isLead : lead.toList with
    | nil => simp [isLead] at proper
    | cons first lead => rfl
  have matchedMark : ((exact lead).matchLength? (taken ++ rest)).isSome := by
    obtain ⟨length, isLength⟩ := Option.isSome_iff_exists.mp matched
    simp only [matchLength?, markerLength?, Option.bind_eq_bind,
      Option.bind_eq_some_iff] at isLength
    obtain ⟨afterMark, isMark, -⟩ := isLength
    rw [matchLength?, isMark]
    rfl
  have inTaken := isSome_of_append_separated rfl properMark nonempty separated matchedMark
  simpa only [matchLength?, Option.isSome_map, Option.isSome_iff_exists,
    afterLead?_eq_some_iff] using inTaken

theorem isSome_markedComment_of_append {taken rest : List Char} (nonempty : taken ≠ [])
    (noComment : NoComment rest) (matched : (markedComment.matchLength? (taken ++ rest)).isSome) :
    (markedComment.matchLength? taken).isSome := by
  cases taken with
  | nil => exact (nonempty rfl).elim
  | cons first taken =>
      obtain ⟨length, isLength⟩ := Option.isSome_iff_exists.mp matched
      obtain ⟨gap, inner, later, isText, -, blank, -⟩ := exists_markedComment isLength
      rw [List.cons_append, List.cons.injEq] at isText
      obtain ⟨rfl, isText⟩ := isText
      rcases List.append_eq_append_iff.mp isText with
        ⟨excess, rfl, isRest⟩ | ⟨excess, isTaken, isLater⟩
      · -- The comment would begin behind the gap.
        have blankExcess : IsGap excess := fun character member =>
          blank character (List.mem_append_right _ member)
        rw [isRest, NoComment, List.dropWhile_append_of_pos blankExcess,
          List.dropWhile_cons_of_neg (by decide)] at noComment
        exact (noComment rfl).elim
      · cases excess with
        | nil =>
            rw [List.nil_append] at isLater
            rw [← isLater, NoComment, List.dropWhile_cons_of_neg (by decide)] at noComment
            exact (noComment rfl).elim
        | cons mark excess =>
            obtain ⟨rfl, -⟩ := List.cons.inj isLater
            rw [isTaken, matchLength?, markedCommentLength?_cons blank]
            rfl

end Pattern

namespace Rule

theorem isProgramMark_of_mem_table : ∀ rule ∈ table, rule.pattern.isProgramMark := by
  decide

theorem isWord_of_emit : ∀ rule ∈ table, rule.action ≠ .skip → rule.action ≠ .unknown →
    rule.pattern.isWord := by
  decide

/-- A mark with no marker behind it is cut into parts that are shorter than the mark. -/
theorem firstMatch?_mark {lead word : String} (isMark : (Pattern.marker lead word).isProgramMark)
    {later : List Char} {kind : Kind}
    (matched : firstMatch? (lead.toList ++ later) =
      some (.emit kind, (lead.toList ++ later).length)) :
    ((Pattern.marker lead word).matchLength? (lead.toList ++ later)).isSome := by
  simp only [Pattern.isProgramMark, Bool.or_eq_true, Bool.and_eq_true, beq_iff_eq] at isMark
  by_contra missed
  rw [Option.not_isSome_iff_eq_none] at missed
  rcases isMark with ⟨rfl, rfl⟩ | ⟨rfl, rfl⟩
  · change firstMatch? (':' :: ':' :: ':' :: later) = _ at matched
    change Pattern.matchLength? _ (':' :: ':' :: ':' :: later) = none at missed
    rw [firstMatch?_cons, rulesFor_colon, List.findSome?_cons, missed] at matched
    simp [token, Pattern.matchLength?, Pattern.afterLead?] at matched
  · change firstMatch? (';' :: ';' :: ';' :: later) = _ at matched
    change Pattern.matchLength? _ (';' :: ';' :: ';' :: later) = none at missed
    rw [firstMatch?_cons, rulesFor_semicolon, List.findSome?_cons, missed] at matched
    simp [token, Pattern.matchLength?, Pattern.afterLead?] at matched

/-- What begins with a quote and is a token is a closed string. -/
theorem firstMatch?_quote {text : List Char} {kind : Kind} {length : Nat}
    (matched : firstMatch? ('"' :: text) = some (.emit kind, length)) :
    (Pattern.string.matchLength? ('"' :: text)).isSome := by
  by_contra missed
  rw [Option.not_isSome_iff_eq_none] at missed
  rw [firstMatch?_cons, rulesFor_quote, List.findSome?_cons, missed] at matched
  simp [Pattern.matchLength?] at matched

/-- A token is still the first match in front of a blank, unless a comment begins there. -/
theorem firstMatch?_separated {taken rest : List Char} {kind : Kind}
    (matched : firstMatch? taken = some (.emit kind, taken.length))
    (separated : Pattern.Separated rest) (noComment : NoComment rest) :
    firstMatch? (taken ++ rest) = some (.emit kind, taken.length) := by
  have nonempty : taken ≠ [] := by
    rintro rfl
    rw [firstMatch?_nil] at matched
    cases matched
  refine firstMatch?_transfer matched (fun rule isRule isAction ruleMatched => ?_)
    fun rule isRule missed => ?_
  · have word := isWord_of_emit rule isRule (by simp [isAction]) (by simp [isAction])
    exact Pattern.matchLength?_append_of_separated word (isProper_of_mem_table rule isRule)
      ruleMatched separated
  · rw [← Option.not_isSome_iff_eq_none] at missed ⊢
    refine fun ruleMatched => missed ?_
    have proper := isProper_of_mem_table rule isRule
    have isMark := isProgramMark_of_mem_table rule isRule
    cases isPattern : rule.pattern with
    | marker lead word =>
        rw [isPattern] at ruleMatched proper isMark
        obtain ⟨later, rfl⟩ :=
          Pattern.mark_of_append_separated proper nonempty separated ruleMatched
        exact firstMatch?_mark isMark matched
    | markedComment =>
        rw [isPattern] at ruleMatched
        exact Pattern.isSome_markedComment_of_append nonempty noComment ruleMatched
    | string =>
        rw [isPattern] at ruleMatched proper
        cases taken with
        | nil => exact (nonempty rfl).elim
        | cons first taken =>
            obtain ⟨length, isLength⟩ := Option.isSome_iff_exists.mp ruleMatched
            have isQuote := Pattern.canStart_of_matchLength? proper isLength
            simp only [Pattern.canStart, beq_iff_eq] at isQuote
            subst isQuote
            exact firstMatch?_quote matched
    | _ =>
        rw [isPattern] at ruleMatched proper
        exact Pattern.isSome_of_append_separated rfl proper nonempty separated ruleMatched

theorem firstMatch?_gap {gap next : List Char} (nonempty : gap ≠ []) (blank : Pattern.IsGap gap)
    (solid : Pattern.startsSolid next) :
    firstMatch? (gap ++ next) = some (.skip, gap.length) := by
  cases gap with
  | nil => exact (nonempty rfl).elim
  | cons first gap =>
      have run : ((first :: gap) ++ next).takeWhile isBlank = first :: gap := by
        rw [List.takeWhile_append_of_pos blank]
        cases next with
        | nil => cases solid
        | cons character next =>
            have notBlank : ¬isBlank character := by simpa [Pattern.startsSolid] using solid
            rw [List.takeWhile_cons_of_neg notBlank, List.append_nil]
      have matched : Pattern.blanks.matchLength? ((first :: gap) ++ next) =
          some (first :: gap).length := by
        rw [Pattern.matchLength?, Pattern.blanksLength?_eq_some_iff, run]
        exact ⟨rfl, Nat.succ_ne_zero _⟩
      have isFirst : isBlank first := blank first List.mem_cons_self
      rw [List.cons_append] at matched ⊢
      rw [firstMatch?_cons, rulesFor_blank isFirst, List.findSome?_cons, matched]
      rfl

end Rule

/-- A token begins with no blank and no comment. -/
theorem Token.StandsAlone.exists_cons {token : Token} (alone : token.StandsAlone) :
    ∃ first text, token.text.toList = first :: text ∧ isBlank first = false ∧ first ≠ '~' := by
  rw [StandsAlone] at alone
  cases isText : token.text.toList with
  | nil =>
      rw [isText, Rule.firstMatch?_nil] at alone
      cases alone
  | cons first text =>
      rw [isText] at alone
      refine ⟨first, text, rfl, ?_, ?_⟩
      · rw [Bool.eq_false_iff]
        intro blank
        obtain ⟨length, isLength⟩ : ∃ length,
            Pattern.blanks.matchLength? (first :: text) = some length := by
          refine ⟨_, Pattern.blanksLength?_eq_some_iff.mpr ⟨rfl, ?_⟩⟩
          rw [List.takeWhile_cons_of_pos blank]
          exact Nat.succ_ne_zero _
        rw [Rule.firstMatch?_cons, Rule.rulesFor_blank blank, List.findSome?_cons,
          isLength] at alone
        cases alone
      · rintro rfl
        rw [Rule.firstMatch?_cons, Rule.rulesFor_tilde, List.findSome?_cons] at alone
        cases alone

/-- A run of blanks, with at least one blank in it. -/
structure Gap where
  text : List Char
  nonempty : text ≠ []
  blank : Pattern.IsGap text

/-- Words with gaps between them, the first of them the gap `0`. -/
def spaced (gap : Nat → Gap) : (words : List String) → String
  | [] => ""
  | [word] => word
  | word :: next :: later =>
      word ++ String.ofList (gap 0).text ++ spaced (fun index => gap (index + 1)) (next :: later)

theorem exists_spaced_cons (gap : Nat → Gap) {token : Token} (alone : token.StandsAlone)
    (later : List Token) : ∃ first text,
      (spaced gap ((token :: later).map (·.text))).toList = first :: text ∧
        isBlank first = false ∧ first ≠ '~' := by
  obtain ⟨first, text, isText, solid, noMark⟩ := alone.exists_cons
  cases later with
  | nil => exact ⟨first, text, isText, solid, noMark⟩
  | cons next later =>
      refine ⟨first, text ++ ((gap 0).text ++ (spaced (fun index => gap (index + 1))
        ((next :: later).map (·.text))).toList), ?_, solid, noMark⟩
      simp only [List.map_cons, spaced, String.toList_append, String.toList_ofList, isText,
        List.cons_append, List.append_assoc]

theorem Gap.separated (gap : Gap) (rest : List Char) : Pattern.Separated (gap.text ++ rest) := by
  intro character isHead
  cases isGap : gap.text with
  | nil => exact (gap.nonempty isGap).elim
  | cons blank blanks =>
      rw [isGap] at isHead
      cases isHead
      exact gap.blank character (by simp [isGap])

theorem Cover.token_last {token : Token} (alone : token.StandsAlone) (position : Position) :
    Cover position token.text.toList [⟨.emit token.kind, token.text, position⟩] := by
  obtain ⟨first, text, isText, -⟩ := alone.exists_cons
  have nonempty : token.text.toList ≠ [] := by simp [isText]
  have matched : Rule.firstMatch? (token.text.toList ++ []) =
      some (.emit token.kind, token.text.toList.length) := by
    rw [List.append_nil]
    exact alone
  have cover : Cover position (token.text.toList ++ []) _ := Cover.cons nonempty matched .nil
  rwa [List.append_nil, String.ofList_toList] at cover

/-- A token and the gap behind it, in front of what is neither blank nor a comment. -/
theorem Cover.token_gap {token : Token} (alone : token.StandsAlone) (gap : Gap)
    {position : Position} {first : Char} {text : List Char} (solid : isBlank first = false)
    (noMark : first ≠ '~') {lexemes : List Lexeme}
    (cover : Cover ((position.after token.text.toList).after gap.text) (first :: text) lexemes) :
    Cover position (token.text.toList ++ (gap.text ++ first :: text))
      (⟨.emit token.kind, token.text, position⟩
        :: ⟨.skip, String.ofList gap.text, position.after token.text.toList⟩ :: lexemes) := by
  obtain ⟨head, tail, isText, -⟩ := alone.exists_cons
  have nonempty : token.text.toList ≠ [] := by simp [isText]
  have startsSolid : Pattern.startsSolid (first :: text) := by simp [Pattern.startsSolid, solid]
  have noComment : NoComment (gap.text ++ first :: text) := by
    rw [NoComment, List.dropWhile_append_of_pos gap.blank,
      List.dropWhile_cons_of_neg (by simp [solid])]
    simpa using noMark
  have behind := Cover.cons gap.nonempty
    (Rule.firstMatch?_gap gap.nonempty gap.blank startsSolid) cover
  have whole := Cover.cons nonempty
    (Rule.firstMatch?_separated alone (gap.separated _) noComment) behind
  rwa [String.ofList_toList] at whole

/-- Tokens that stand alone are found again with gaps between them. -/
theorem exists_cover_spaced {tokens : List Token} (alone : ∀ token ∈ tokens, token.StandsAlone)
    (gap : Nat → Gap) (position : Position) :
    ∃ lexemes, Cover position (spaced gap (tokens.map (·.text))).toList lexemes ∧
      (Lexing.ofLexemes .strict lexemes).failure = none ∧
      (Lexing.ofLexemes .strict lexemes).tokens.map (fun token => (token.kind, token.text)) =
        tokens.map (fun token => (token.kind, token.text)) := by
  induction tokens generalizing gap position with
  | nil => exact ⟨[], .nil, rfl, rfl⟩
  | cons token later ih =>
      have tokenAlone := alone token List.mem_cons_self
      have laterAlone : ∀ token ∈ later, token.StandsAlone :=
        fun other member => alone other (List.mem_cons_of_mem _ member)
      cases later with
      | nil => exact ⟨_, Cover.token_last tokenAlone position, rfl, rfl⟩
      | cons next later =>
          obtain ⟨lexemes, cover, noFailure, same⟩ := ih laterAlone (fun index => gap (index + 1))
            ((position.after token.text.toList).after (gap 0).text)
          obtain ⟨first, text, isNext, solid, noMark⟩ := exists_spaced_cons
            (fun index => gap (index + 1)) (laterAlone next List.mem_cons_self) later
          have isText : (spaced gap ((token :: next :: later).map (·.text))).toList =
              token.text.toList ++ ((gap 0).text ++ first :: text) := by
            rw [← isNext]
            simp only [List.map_cons, spaced, String.toList_append, String.toList_ofList,
              List.append_assoc]
          rw [isNext] at cover
          rw [isText]
          exact ⟨_, Cover.token_gap tokenAlone (gap 0) solid noMark cover, noFailure,
            congrArg (List.cons (token.kind, token.text)) same⟩

/-- Tokens written again with any gaps between them are the same tokens, also where no unknown
character is allowed. -/
theorem tokenize_spaced (policy : Policy) (source : String) (gap : Nat → Gap) :
    let tokens := (tokenize policy source).tokens
    let again := tokenize .strict (spaced gap (tokens.map (·.text)))
    again.failure = none ∧
      again.tokens.map (fun token => (token.kind, token.text)) =
        tokens.map (fun token => (token.kind, token.text)) := by
  intro tokens again
  obtain ⟨lexemes, cover, noFailure, same⟩ :=
    exists_cover_spaced (fun token member => standsAlone_of_mem_tokens member) gap .start
  have isAgain : again = Lexing.ofLexemes .strict lexemes := by
    rw [cover.eq_lexemesFrom]
    rfl
  rw [isAgain]
  exact ⟨noFailure, same⟩

end Mel

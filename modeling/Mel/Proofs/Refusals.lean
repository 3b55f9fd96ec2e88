import Mel.Diagnostic
import Mel.Proofs.Parsing
import Mel.Proofs.Places

/-!
# Where refusals point

What is reported about a source that is no program points at a place in it. A character that
no rule knows is a lexeme of its own. A refused token is one of the tokens, since parsers stay
in them. Both stand where their positions say. What is refused behind the last token points to
the end of the source.
-/

namespace Mel

namespace Rule

theorem anyCharacter_of_unknown :
    ∀ rule ∈ table, rule.action = .unknown → rule.pattern = .anyCharacter := by
  decide

/-- What no rule knows is taken one by one. -/
theorem length_of_unknown {text : List Char} {length : Nat}
    (matched : firstMatch? text = some (.unknown, length)) : length = 1 := by
  obtain ⟨rule, isRule, ruleMatched⟩ := List.exists_of_findSome?_eq_some matched
  obtain ⟨length, isLength, isMatch⟩ := Option.map_eq_some_iff.mp ruleMatched
  obtain ⟨isUnknown, rfl⟩ := Prod.mk.inj isMatch
  rw [anyCharacter_of_unknown rule isRule isUnknown, Pattern.matchLength?] at isLength
  split at isLength <;> cases isLength
  rfl

end Rule

theorem Cover.text_of_unknown {position : Position} {text : List Char} {lexemes : List Lexeme}
    (cover : Cover position text lexemes) {lexeme : Lexeme} (member : lexeme ∈ lexemes)
    (unknown : lexeme.action = .unknown) :
    ∃ character : Char, lexeme.text = String.ofList [character] := by
  induction cover with
  | nil => cases member
  | cons _ matched _ ih =>
      rcases List.mem_cons.mp member with rfl | member
      · cases unknown
        obtain ⟨character, rfl⟩ := List.length_eq_one_iff.mp (Rule.length_of_unknown matched)
        exact ⟨character, rfl⟩
      · exact ih member

/-- What stops the search for tokens is an unknown lexeme. -/
theorem exists_unknown_of_failure {policy : Policy} {lexemes : List Lexeme} {error : LexError}
    (failed : (Lexing.ofLexemes policy lexemes).failure = some error) :
    ∃ lexeme ∈ lexemes, lexeme.action = .unknown ∧ lexeme.error = error := by
  induction lexemes with
  | nil => cases failed
  | cons lexeme later ih =>
      have deeper (failed : (Lexing.ofLexemes policy later).failure = some error) :
          ∃ other ∈ lexeme :: later, other.action = .unknown ∧ other.error = error := by
        obtain ⟨other, member, isError⟩ := ih failed
        exact ⟨other, List.mem_cons_of_mem _ member, isError⟩
      cases isAction : lexeme.action with
      | emit kind =>
          simp only [Lexing.ofLexemes, isAction] at failed
          exact deeper failed
      | skip =>
          simp only [Lexing.ofLexemes, isAction] at failed
          exact deeper failed
      | unknown =>
          simp only [Lexing.ofLexemes, isAction] at failed
          cases policy with
          | lenient => exact deeper failed
          | strict => exact ⟨lexeme, List.mem_cons_self, isAction, Option.some.inj failed⟩

namespace Diagnostic

/-- The report points at this text of the source, and has its line and its column. -/
structure PointsAt (report : Diagnostic) (source text : String) : Prop where
  stands : StandsAt source text ⟨report.label.span.offset, report.line, report.column⟩
  length : report.label.span.length = text.utf8ByteSize

/-- The report points behind the source, and has the line and the column of the last token, or
those of the start of the source if there is no token. -/
structure PointsBehind (report : Diagnostic) (source : String) (tokens : List Token) : Prop where
  span : report.label.span = ⟨source.utf8ByteSize, 0⟩
  place : (report.line, report.column) = match tokens.getLast? with
    | some token => (token.position.line, token.position.column)
    | none => (1, 1)

/-- The report points into the source, between two of its characters or around some of them. -/
def PointsInto (report : Diagnostic) (source : String) : Prop :=
  ∃ before text behind, source = before ++ text ++ behind ∧
    report.label.span = ⟨before.utf8ByteSize, text.utf8ByteSize⟩

theorem PointsAt.pointsInto {report : Diagnostic} {source text : String}
    (points : report.PointsAt source text) : report.PointsInto source := by
  obtain ⟨⟨before, behind, isSource, isPlace⟩, length⟩ := points
  exact ⟨before, text, behind, isSource,
    congrArg₂ Span.mk (congrArg Position.offset isPlace) length⟩

theorem PointsBehind.pointsInto {report : Diagnostic} {source : String} {tokens : List Token}
    (points : report.PointsBehind source tokens) : report.PointsInto source :=
  ⟨source, "", "", by simp, points.span⟩

end Diagnostic

/-- The place that the report on an error has to point at. -/
def Pinned (source : String) (tokens : List Token) (report : Diagnostic) : SourceError → Prop
  | .lexical (.unexpectedCharacter character _) =>
      report.PointsAt source character.toString ∧
        report.message = "Unexpected character '" ++ character.toString ++ "'"
  | .lexical (.unterminatedString _) =>
      ∃ text, report.PointsAt source ("\"" ++ text) ∧
        report.label.span.offset + report.label.span.length = source.utf8ByteSize
  | .grammatical error =>
      match error.found with
      | some token =>
          token ∈ tokens ∧ report.PointsAt source token.text ∧
            report.message = "expected " ++ error.expected.text ++ ", found " ++
              ("'" ++ token.text ++ "' (" ++ token.kind.name ++ ")")
      | none => report.PointsBehind source tokens

theorem Pinned.pointsInto {source : String} {tokens : List Token} {report : Diagnostic}
    {error : SourceError} (pinned : Pinned source tokens report error) :
    report.PointsInto source := by
  cases error with
  | lexical error =>
      cases error with
      | unexpectedCharacter _ _ => exact pinned.1.pointsInto
      | unterminatedString _ => exact pinned.choose_spec.1.pointsInto
  | grammatical error =>
      simp only [Pinned] at pinned
      split at pinned
      · exact pinned.2.1.pointsInto
      · exact pinned.pointsInto

theorem StandsAt.size_le {source text : String} {position : Position}
    (stands : StandsAt source text position) :
    position.offset + text.utf8ByteSize ≤ source.utf8ByteSize := by
  obtain ⟨before, behind, rfl, rfl⟩ := stands
  simp only [Position.behind, String.utf8ByteSize_append]
  omega

/-- From a place on, the rest of the source stands there too. -/
theorem StandsAt.exists_rest {source text : String} {position : Position}
    (stands : StandsAt source text position) :
    ∃ rest, StandsAt source (text ++ rest) position ∧
      (text ++ rest).utf8ByteSize = source.utf8ByteSize - position.offset := by
  obtain ⟨before, behind, rfl, rfl⟩ := stands
  refine ⟨behind, ⟨before, "", by simp [String.append_assoc], rfl⟩, ?_⟩
  simp only [Position.behind, String.utf8ByteSize_append]
  omega

theorem pinned_of_lexeme {source : String} {lexeme : Lexeme} (member : lexeme ∈ lexemes source)
    (unknown : lexeme.action = .unknown) (tokens : List Token) (fileName : Option String) :
    Pinned source tokens ((SourceError.lexical lexeme.error).diagnose fileName source)
      (.lexical lexeme.error) := by
  obtain ⟨character, isText⟩ := (cover_lexemes source).text_of_unknown member unknown
  have stands := standsAt_of_mem_lexemes member
  rw [isText] at stands
  by_cases isQuote : character = '"'
  · subst isQuote
    have isError : lexeme.error = .unterminatedString lexeme.position := by
      rw [Lexeme.error, isText]
      rfl
    obtain ⟨rest, standsRest, size⟩ := stands.exists_rest
    have inside := stands.size_le
    rw [isError]
    refine ⟨rest, ⟨standsRest, size.symm⟩, ?_⟩
    simp only [SourceError.diagnose, SourceError.label, LexError.label]
    omega
  · have isError : lexeme.error = .unexpectedCharacter character lexeme.position := by
      rw [Lexeme.error, isText, String.toList_ofList]
      split
      · rename_i isHead
        exact (isQuote (List.cons.inj isHead).1).elim
      · rename_i isNil
        cases isNil
      · rename_i isHead
        rw [(List.cons.inj isHead).1]
    have size : (String.ofList [character]).utf8ByteSize = character.utf8Size := by simp
    rw [isError]
    exact ⟨⟨stands, size.symm⟩, rfl⟩

theorem pinned_of_locate {policy : Policy} {source : String} {rest : List Token}
    (left : rest <:+ (tokenize policy source).tokens) (expectation : Expectation)
    (fileName : Option String) :
    let error := .grammatical (.locate (tokenize policy source).tokens rest expectation)
    Pinned source (tokenize policy source).tokens (SourceError.diagnose fileName source error)
      error := by
  cases rest with
  | nil =>
      refine ⟨rfl, ?_⟩
      change (Position.line _, Position.column _) = _
      cases (tokenize policy source).tokens.getLast? <;> rfl
  | cons token rest =>
      have member := left.subset List.mem_cons_self
      exact ⟨member, ⟨standsAt_of_mem_lexemes (lexeme_mem_of_token member), rfl⟩, rfl⟩

theorem pinned_of_readSource {α : Type} {parse : List Token → Except ParseError α}
    (locates : ∀ tokens error, parse tokens = .error error →
      ∃ expectation rest, rest <:+ tokens ∧ error = .locate tokens rest expectation)
    {policy : Policy} {source : String} {error : SourceError}
    (refused : readSource parse policy source = .error error) (fileName : Option String) :
    Pinned source (tokenize policy source).tokens (error.diagnose fileName source) error := by
  simp only [readSource] at refused
  cases isFailure : (tokenize policy source).failure with
  | some lexical =>
      rw [isFailure] at refused
      cases refused
      obtain ⟨lexeme, member, unknown, rfl⟩ := exists_unknown_of_failure isFailure
      exact pinned_of_lexeme member unknown _ fileName
  | none =>
      rw [isFailure] at refused
      cases isParse : parse (tokenize policy source).tokens with
      | ok result =>
          rw [isParse] at refused
          cases refused
      | error grammatical =>
          rw [isParse] at refused
          cases refused
          obtain ⟨expectation, rest, left, rfl⟩ := locates _ _ isParse
          exact pinned_of_locate left expectation fileName

/-- The report on a source that is refused, as a program or as an expression, points into it, to
the place at which it is refused. -/
theorem refused_sources_are_pinned (policy : Policy) (source : String) (fileName : Option String)
    (error : SourceError)
    (refused : readProgram policy source = .error error ∨
      readExpression policy source = .error error) :
    (error.diagnose fileName source).PointsInto source ∧
      Pinned source (tokenize policy source).tokens (error.diagnose fileName source) error := by
  have pinned : Pinned source (tokenize policy source).tokens
      (error.diagnose fileName source) error := by
    rcases refused with refused | refused
    · refine pinned_of_readSource (fun tokens error isError => ?_) refused fileName
      exact Parser.run_eq_error (Parser.takes_program _) isError
    · refine pinned_of_readSource (fun tokens error isError => ?_) refused fileName
      exact Parser.run_eq_error (Parser.takes_expression _) isError
  exact ⟨pinned.pointsInto, pinned⟩

/-- A parenthesis that closes nothing, on the line behind a character of two bytes. -/
theorem refused_sources_are_pinned_parenthesis :
    let error := .grammatical ⟨.expression, some ⟨.rightParen, ")", ⟨5, 2, 2⟩⟩, 2, 2⟩
    readExpression .strict "~ä\n )" = .error error ∧
      (SourceError.diagnose none "~ä\n )" error).PointsInto "~ä\n )" ∧
      Pinned "~ä\n )" (tokenize .strict "~ä\n )").tokens (SourceError.diagnose none "~ä\n )" error)
        error := by
  intro error
  have lexing : tokenize .strict "~ä\n )" = ⟨[⟨.rightParen, ")", ⟨5, 2, 2⟩⟩], none⟩ := by
    decide +kernel
  have refused : readExpression .strict "~ä\n )" = .error error := by
    rw [readExpression, readSource, lexing]
    rfl
  exact ⟨refused, refused_sources_are_pinned .strict "~ä\n )" none error (.inr refused)⟩

end Mel

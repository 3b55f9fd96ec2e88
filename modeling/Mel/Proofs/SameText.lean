import Mel.Proofs.Literals
import Mel.Proofs.Readback
import Mel.Proofs.Relexing
import Mel.Run

/-!
# Programs with the same text

Two programs that were read and are written in the same way cannot be told apart by running them.
What the text leaves out plays no part: the operands behind suffix operators, how a number was
counted, and which of its two forms a constant has.

Programs may differ in the bodies of the functions that they leave behind. So a session goes on
after them, in which any functions are called and any programs run.
-/

namespace Mel

namespace Token

theorem isName_text {token : Token} (alone : token.StandsAlone)
    (isIdentifier : token.kind = .identifier) : IsName token.text := by
  have onlyRule : ∀ rule ∈ Rule.table, rule.action = .emit .identifier →
      rule.pattern = .identifier := by decide
  obtain ⟨rule, isRule, ruleMatched⟩ := List.exists_of_findSome?_eq_some alone
  obtain ⟨length, isLength, isFound⟩ := Option.map_eq_some_iff.mp ruleMatched
  rw [isIdentifier, Prod.mk.injEq] at isFound
  rw [onlyRule rule isRule isFound.1, isFound.2, Pattern.matchLength?] at isLength
  cases isText : token.text.toList with
  | nil =>
      rw [isText] at isLength
      cases isLength
  | cons first later =>
      rw [isText, Pattern.nameLength?] at isLength
      split at isLength
      · rename_i isStart
        refine ⟨first, later, isText, isStart, ?_⟩
        have allTaken : (later.takeWhile Pattern.isNamePart).length = later.length := by
          have := Option.some.inj isLength
          rw [List.length_cons] at this
          omega
        have isWhole := (List.takeWhile_prefix Pattern.isNamePart).eq_of_length allTaken
        exact List.takeWhile_eq_self_iff.mp isWhole
      · cases isLength

end Token

namespace RealLiteral

theorem ofText?_le {text : String} {literal : RealLiteral} (read : ofText? text = some literal) :
    literal.whole ≤ text.length ∧ ∀ fraction ∈ literal.fraction, fraction ≤ text.length := by
  have wholeAtMost := (List.takeWhile_sublist (· ≠ ':') (l := text.toList)).length_le
  have restAtMost := (List.dropWhile_sublist (· ≠ ':') (l := text.toList)).length_le
  rw [String.length_toList] at wholeAtMost restAtMost
  unfold ofText? at read
  dsimp only at read
  split at read
  · cases read
    refine ⟨wholeAtMost, fun _ isFraction => ?_⟩
    cases isFraction
  · rename_i mark fraction isRest
    split at read
    · cases read
    · cases read
      refine ⟨wholeAtMost, fun _ isFraction => ?_⟩
      cases isFraction
      rw [isRest, List.length_cons] at restAtMost
      omega

end RealLiteral

theorem length_text_le {policy : Policy} {source : String} {token : Token}
    (member : token ∈ (tokenize policy source).tokens) : token.text.length ≤ source.length := by
  obtain ⟨before, behind, isSource, _⟩ := standsAt_of_mem_lexemes (lexeme_mem_of_token member)
  rw [isSource, String.length_append, String.length_append]
  exact Nat.le_trans (Nat.le_add_left ..) (Nat.le_add_right ..)

/-- Is a program read, from tokens of sources of which a machine can count the characters? -/
def Block.IsParsed (program : Block) : Prop :=
  ∃ tokens, parseProgram tokens = .ok program ∧ ∀ token ∈ tokens, ∃ policy source,
    token ∈ (tokenize policy source).tokens ∧ source.length < 2 ^ 64

theorem isParsed_of_readProgram {policy : Policy} {source : String} {program : Block}
    (read : readProgram policy source = .ok program) (small : source.length < 2 ^ 64) :
    program.IsParsed := by
  rw [readProgram, readSource] at read
  split at read
  · cases read
  · refine ⟨(tokenize policy source).tokens, ?_,
      fun token member => ⟨policy, source, member, small⟩⟩
    cases isRead : parseProgram (tokenize policy source).tokens with
    | error error =>
        rw [isRead] at read
        cases read
    | ok block =>
        rw [isRead] at read
        exact congrArg Except.ok (Except.ok.inj read)

/-- Is no variable of a program named like a constant is written? -/
def Block.AvoidsKeywords (program : Block) : Prop :=
  ∀ keyword ∈ keywords, .variable keyword ∉ blockAtoms program

instance (program : Block) : Decidable program.AvoidsKeywords :=
  inferInstanceAs (Decidable (∀ keyword ∈ keywords, .variable keyword ∉ blockAtoms program))

theorem Block.IsParsed.readable {program : Block} (parsed : program.IsParsed)
    (avoids : program.AvoidsKeywords) : Readable (blockAtoms program) := by
  obtain ⟨tokens, read, fromSources⟩ := parsed
  intro atom isAtom
  obtain ⟨token, isToken, isOf⟩ := takenFrom_parseProgram read atom isAtom
  obtain ⟨policy, source, member, small⟩ := fromSources token isToken
  have alone := standsAlone_of_mem_tokens member
  cases atom with
  | «variable» name =>
      obtain ⟨isIdentifier, rfl⟩ := isOf
      exact ⟨Token.isName_text alone isIdentifier, fun isKeyword => avoids _ isKeyword isAtom⟩
  | symbol name =>
      obtain ⟨isIdentifier, rfl⟩ := isOf
      exact Token.isName_text alone isIdentifier
  | number literal =>
      obtain ⟨whole, fraction⟩ := RealLiteral.ofText?_le isOf.2
      have atMost := length_text_le member
      exact RealLiteral.isFinite_value (by omega) fun number isNumber =>
        (fraction number isNumber).trans_lt (atMost.trans_lt small)

/-- What can be asked of a machine. -/
inductive Request where
  | run (block : Block)
  | call (name : String) (arguments : List Value)

def Request.step (options : Options) (fuel : Nat) : Request → Exec (Option Value)
  | .run block => do
      interpret options fuel block
      return none
  | .call name arguments => some <$> Exec.callFunction options (execute options fuel) name arguments

/-- What can be seen of a machine: all but the bodies of its functions. -/
def Machine.surface (machine : Machine) : Machine :=
  { machine with
    functions := ⟨machine.functions.entries.map fun (name, function) =>
      (name, { function with body := [] })⟩ }

/-- What is seen of a session: how each request ends, and the machine that it leaves. -/
def Machine.session (machine : Machine) :
    List (Options × Nat × Request) → List (Except Failure (Option Value) × Machine)
  | [] => []
  | (options, fuel, request) :: later =>
      let ended := machine.perform (request.step options fuel)
      (ended.1, ended.2.surface) :: ended.2.session later

theorem Table.Alike.withoutBodies {first second : Table Function} (alike : first.Alike second) :
    (first.entries.map fun (name, function) => (name, { function with body := [] })) =
      second.entries.map fun (name, function) => (name, { function with body := [] }) := by
  rcases first with ⟨entries⟩
  rcases second with ⟨entries'⟩
  simp only [Table.Alike] at *
  induction alike with
  | nil => rfl
  | @cons entry entry' entries entries' same _ ih =>
      rw [List.map_cons, List.map_cons, ih, same.1, same.2.parameters]

theorem Machine.Alike.surface_eq {left right : Machine} (alike : left.Alike right) :
    left.surface = right.surface := by
  rw [surface, surface, alike.functions.withoutBodies, alike.machine]
  rfl

theorem Request.runsAlike_step (options : Options) (fuel : Nat) (request : Request) :
    Exec.RunsAlike (request.step options fuel) (request.step options fuel) := by
  cases request with
  | run block =>
      exact (Exec.runsAlike_interpret options fuel (Block.alike_refl block)).bind
        fun _ => Exec.runsAlike_pure none
  | call name arguments =>
      rw [step, map_eq_pure_bind]
      exact (Exec.runsAlike_callFunction (Exec.runsAlike_run options fuel).2 name arguments).bind
        fun value => Exec.runsAlike_pure (some value)

theorem Machine.Alike.perform {α : Type} {left right : Machine} (alike : left.Alike right)
    {first second : Exec α} (runs : Exec.RunsAlike first second) :
    (left.perform first).1 = (right.perform second).1 ∧
      (left.perform first).2.Alike (right.perform second).2 := by
  have ends := runs left right alike
  rw [Machine.perform, Machine.perform]
  generalize first left = ended, second right = ended' at ends ⊢
  cases ends with
  | ok result alike => exact ⟨rfl, alike⟩
  | error stop alike => exact ⟨rfl, alike⟩

theorem Machine.Alike.session_eq {left right : Machine} (alike : left.Alike right)
    (requests : List (Options × Nat × Request)) :
    left.session requests = right.session requests := by
  induction requests generalizing left right with
  | nil => rfl
  | cons item later ih =>
      obtain ⟨options, fuel, request⟩ := item
      obtain ⟨sameOutcome, alikeNext⟩ := alike.perform (request.runsAlike_step options fuel)
      simp only [session, sameOutcome, alikeNext.surface_eq, ih alikeNext]

/-- Programs that are written in the same way cannot be told apart: in no session does it matter
which of the two is run, neither at once nor later on. -/
theorem session_eq_of_text_eq {first second : Block} (parsed : first.IsParsed)
    (parsed' : second.IsParsed) (avoids : first.AvoidsKeywords) (avoids' : second.AvoidsKeywords)
    (same : first.text = second.text) (options : Options) (fuel : Nat) (machine : Machine)
    (later : List (Options × Nat × Request)) :
    machine.session ((options, fuel, .run first) :: later) =
      machine.session ((options, fuel, .run second) :: later) := by
  have alikePrograms := Block.alike_of_text (parsed.readable avoids) (parsed'.readable avoids') same
  have runs : Exec.RunsAlike ((Request.run first).step options fuel)
      ((Request.run second).step options fuel) :=
    (Exec.runsAlike_interpret options fuel alikePrograms).bind fun _ => Exec.runsAlike_pure none
  obtain ⟨sameOutcome, alike⟩ := machine.alike_refl.perform runs
  simp only [Machine.session, sameOutcome, alike.surface_eq, alike.session_eq]

/-- An operand that plays no part, and a bit as a constant or as a literal. -/
theorem session_eq_of_text_eq_bit :
    let first : Block := [.assign "x" (.suffix ⟨.integer, .factorial⟩ (.sentinel .bitOne)
      (some (.real ⟨2, none⟩)))]
    let second : Block := [.assign "x" (.suffix ⟨.integer, .factorial⟩ (.bits [true]) none)]
    readProgram .strict ":::Program start\nx = $$$$$$$$ $! ##\n;;;Program end" = .ok first ∧
      readProgram .strict ":::Program start\nx = ;;$$$$$$$$ $!\n;;;Program end" = .ok second ∧
      first.text = second.text ∧
      ∀ machine : Machine, machine.session [({}, 9, .run first), ({}, 9, .call "f" [.nil])] =
        machine.session [({}, 9, .run second), ({}, 9, .call "f" [.nil])] := by
  intro first second
  have lexing : tokenize .strict ":::Program start\nx = $$$$$$$$ $! ##\n;;;Program end" =
      ⟨[⟨.programStart, ":::Program start", ⟨0, 1, 1⟩⟩, ⟨.identifier, "x", ⟨17, 2, 1⟩⟩,
        ⟨.assign, "=", ⟨19, 2, 3⟩⟩, ⟨.sentinel .bitOne, "$$$$$$$$", ⟨21, 2, 5⟩⟩,
        ⟨.operator ⟨.integer, .factorial⟩, "$!", ⟨30, 2, 14⟩⟩, ⟨.realNumber, "##", ⟨33, 2, 17⟩⟩,
        ⟨.programEnd, ";;;Program end", ⟨36, 3, 1⟩⟩], none⟩ := by
    decide +kernel
  have lexing' : tokenize .strict ":::Program start\nx = ;;$$$$$$$$ $!\n;;;Program end" =
      ⟨[⟨.programStart, ":::Program start", ⟨0, 1, 1⟩⟩, ⟨.identifier, "x", ⟨17, 2, 1⟩⟩,
        ⟨.assign, "=", ⟨19, 2, 3⟩⟩, ⟨.bitsMark, ";;", ⟨21, 2, 5⟩⟩,
        ⟨.sentinel .bitOne, "$$$$$$$$", ⟨23, 2, 7⟩⟩,
        ⟨.operator ⟨.integer, .factorial⟩, "$!", ⟨32, 2, 16⟩⟩,
        ⟨.programEnd, ";;;Program end", ⟨35, 3, 1⟩⟩], none⟩ := by
    decide +kernel
  have read : readProgram .strict ":::Program start\nx = $$$$$$$$ $! ##\n;;;Program end" =
      .ok first := by
    rw [readProgram, readSource, lexing]
    rfl
  have read' : readProgram .strict ":::Program start\nx = ;;$$$$$$$$ $!\n;;;Program end" =
      .ok second := by
    rw [readProgram, readSource, lexing']
    rfl
  have same : first.text = second.text := by decide
  refine ⟨read, read', same, fun machine => ?_⟩
  exact session_eq_of_text_eq (isParsed_of_readProgram read (by decide))
    (isParsed_of_readProgram read' (by decide)) (by decide) (by decide) same _ _ machine _

end Mel

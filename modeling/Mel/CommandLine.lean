import Mel.Program.Written
import Mel.Run

/-!
# The command line

Three commands take a file with a source: one lists its tokens, one writes its
program as s-expressions, one runs it. All take `--strict`; the last one also takes
the limits of a run. Options stand before or behind the file, each at most once,
and after `--` nothing is an option.

The status tells failures apart: 2 for arguments that make no command, 74 for a
file that cannot be read, 65 for a source that is no program and 70 for an error
of the running program.
-/

namespace Mel

inductive Task where
  | tokenize
  | parse
  | run
deriving DecidableEq, Repr

def Task.ofName? : String → Option Task
  | "tokenize" => some .tokenize
  | "parse" => some .parse
  | "run" => some .run
  | _ => none

structure Command where
  task : Task
  file : String
  options : Options
deriving DecidableEq, Repr

namespace Command

/-- The arguments read so far. -/
structure Draft where
  file : Option String := none
  strict : Bool := false
  loopLimit : Option Nat := none
  depthLimit : Option Nat := none
deriving DecidableEq, Repr

/-- Reads a count: decimal digits, behind a plus sign or not, below `2 ^ 64`. -/
def count? (text : String) : Option Nat := do
  let digits := match text.toList with
    | '+' :: digits => digits
    | digits => digits
  if digits.isEmpty then none
  let count ← Floating.digits? digits
  if count < UInt64.size then some count else none

namespace Draft

def addFile (draft : Draft) (name : String) : Option Draft :=
  if draft.file.isNone ∧ name ≠ "" then some { draft with file := some name } else none

def addStrict (draft : Draft) : Option Draft :=
  if draft.strict then none else some { draft with strict := true }

/-- Sets the limit that an option names; the tasks that run nothing have no limits. -/
def addLimit (draft : Draft) (task : Task) (option value : String) : Option Draft := do
  let limit ← count? value
  match task, option with
  | .run, "--max-iterations" =>
      if draft.loopLimit.isSome then none else some { draft with loopLimit := some limit }
  | .run, "--max-depth" =>
      if draft.depthLimit.isSome then none else some { draft with depthLimit := some limit }
  | _, _ => none

/-- Does an argument begin like an option? A lone `-` is the name of a file. -/
def isOption (argument : String) : Bool :=
  match argument.toList with
  | '-' :: _ :: _ => true
  | _ => false

/-- Splits an argument at its first equals sign. -/
def inlineValue? (argument : String) : Option (String × String) :=
  let characters := argument.toList
  match characters.dropWhile (· ≠ '=') with
  | [] => none
  | _ :: value => some (String.ofList (characters.takeWhile (· ≠ '=')), String.ofList value)

/-- Reads the arguments behind the name of the task. -/
def read (task : Task) (draft : Draft) : (arguments : List String) → Option Draft
  | [] => some draft
  | argument :: rest =>
      if argument = "--" then
        rest.foldlM addFile draft
      else if argument = "--strict" then do
        read task (← draft.addStrict) rest
      else if isOption argument then
        match inlineValue? argument with
        | some (option, value) => do read task (← draft.addLimit task option value) rest
        | none => do
            let value ← rest.head?
            read task (← draft.addLimit task argument value) (rest.drop 1)
      else do
        read task (← draft.addFile argument) rest
termination_by arguments => arguments.length
decreasing_by all_goals simp only [List.length_cons, List.length_drop]; omega

end Draft

/-- The command that the arguments make. -/
def ofArguments? : List String → Option Command
  | [] => none
  | name :: rest => do
      let task ← Task.ofName? name
      let draft ← Draft.read task {} rest
      let file ← draft.file
      let policy := Policy.ofStrict draft.strict
      return ⟨task, file, ⟨policy, draft.loopLimit, draft.depthLimit.getD 128⟩⟩

/-- What a command leaves: its status and what it wrote to its output and about its failure. -/
structure Report where
  status : Nat
  output : Array UInt8
  complaint : String
deriving DecidableEq, Repr

namespace Report

def success (output : Array UInt8) : Report :=
  ⟨0, output, ""⟩

/-- The report about arguments that make no command. -/
def badUsage : Report :=
  ⟨2, #[],
    "usage: mel tokenize|parse|run FILE [--strict] [--max-iterations COUNT] [--max-depth COUNT]\n"⟩

def unreadable (file : String) : Report :=
  ⟨74, #[], "reading `" ++ file ++ "` failed\n"⟩

/-- The report about a source that is no program. -/
def badSource (output : Array UInt8) (error : SourceError) : Report :=
  let problem := match error with
    | .lexical (.unexpectedCharacter character _) =>
        "Unexpected character: " ++ character.toString
    | .lexical (.unterminatedString _) => "Unterminated string"
    | .grammatical refusal => refusal.message
  ⟨65, output, "[line " ++ toString error.line ++ "] Error: " ++ problem ++ "\n"⟩

def failed (output : Array UInt8) : Failure → Report
  | .source error => badSource output error
  | failure => ⟨70, output, "MEL Runtime Error: " ++ failure.message ++ "\n"⟩

end Report

def listTokens (policy : Policy) (source : String) : Report :=
  let lexing := tokenize policy source
  let listing := String.join (lexing.tokens.map fun token => token.listing ++ "\n")
  match lexing.failure with
  | none => .success listing.toUTF8.data
  | some error => .badSource listing.toUTF8.data (.lexical error)

def writeProgram (policy : Policy) (source : String) : Report :=
  match readProgram policy source with
  | .ok block => .success (block.text ++ "\n").toUTF8.data
  | .error error => .badSource #[] error

def runProgram (options : Options) (source : String) (input : List UInt8) : Report :=
  match run options ampleFuel source (.ofInput input none) with
  | (.ok _, machine) => .success machine.streams.written
  | (.error failure, machine) => .failed machine.streams.written failure

/-- Performs a command, given the bytes of its file, if it can be read, and of its input. -/
def perform (command : Command) (contents : Option ByteArray) (input : List UInt8) : Report :=
  match contents.bind String.fromUTF8? with
  | none => .unreadable command.file
  | some source =>
      match command.task with
      | .tokenize => listTokens command.options.policy source
      | .parse => writeProgram command.options.policy source
      | .run => runProgram command.options source input

end Command

end Mel

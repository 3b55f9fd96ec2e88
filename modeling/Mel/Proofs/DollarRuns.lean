import Mel.Proofs.BitLiterals
import Mel.Proofs.StringLiterals

/-!
# Runs of dollars

A run of dollars is cut into sentinels of eight, as long as there are eight of them, and what is
left over is one sentinel again. Operators of the integers begin with a dollar as well, but with a
single one, so that only a last dollar that is left over alone can belong to what follows the run.
-/

namespace Mel

namespace Lexing

def kinds (lexing : Lexing) : List Kind :=
  lexing.tokens.map Token.kind

/-- The complaint that stopped the search for tokens. -/
def complaint? (lexing : Lexing) : Option String :=
  lexing.failure.map LexError.message

theorem kinds_cons (token : Token) (lexing : Lexing) :
    (lexing.cons token).kinds = token.kind :: lexing.kinds := rfl

theorem complaint?_cons (token : Token) (lexing : Lexing) :
    (lexing.cons token).complaint? = lexing.complaint? := rfl

theorem kinds_moved (base : Position) (lexing : Lexing) :
    (lexing.moved base).kinds = lexing.kinds := by
  simp only [kinds, moved, List.map_map]
  rfl

theorem complaint?_moved (base : Position) (lexing : Lexing) :
    (lexing.moved base).complaint? = lexing.complaint? := by
  simp only [complaint?, moved, Option.map_map]
  congr 1
  funext error
  cases error <;> rfl

end Lexing

/-- The sentinel that is written with so many dollars. -/
def Sentinel.ofDollars? : Nat → Option Sentinel
  | 2 => some .no
  | 3 => some .yes
  | 4 => some .nil
  | 5 => some .empty
  | 6 => some .zero
  | 7 => some .bitZero
  | 8 => some .bitOne
  | _ => none

theorem Sentinel.ofDollars?_eq_some_iff {count : Nat} {constant : Sentinel} :
    ofDollars? count = some constant ↔ constant.dollars = count := by
  constructor
  · intro isSentinel
    unfold ofDollars? at isSentinel
    split at isSentinel <;> cases isSentinel <;> rfl
  · rintro rfl
    cases constant <;> rfl

theorem Sentinel.eq_of_ofDollars?_eq_none :
    ∀ count < 8, ofDollars? count = none → count = 0 ∨ count = 1 := by
  decide

/-- A text of so many dollars. -/
def dollarRun (count : Nat) : String :=
  String.ofList (List.replicate count '$')

namespace Rule

/-- Nothing longer than eight dollars begins with them. -/
theorem firstMatch?_eight (text : List Char) :
    firstMatch? (List.replicate Sentinel.bitOne.dollars '$' ++ text) =
      some (.emit (.sentinel .bitOne), Sentinel.bitOne.dollars) := by
  change firstMatch? ('$' :: (List.replicate 7 '$' ++ text)) = _
  rw [firstMatch?_cons, rulesFor_dollar]
  rfl

/-- A run of dollars that is no longer than eight is one sentinel. -/
theorem firstMatch?_dollars (constant : Sentinel) {text : List Char}
    (ends : constant = .bitOne ∨ text.head? ≠ some '$') :
    firstMatch? (List.replicate constant.dollars '$' ++ text) =
      some (.emit (.sentinel constant), constant.dollars) := by
  rcases ends with rfl | noDollar
  · exact firstMatch?_eight text
  · exact firstMatch?_sentinel constant noDollar

end Rule

theorem dollarRun_add (first later : Nat) :
    dollarRun (first + later) = dollarRun first ++ dollarRun later := by
  simp only [dollarRun, List.replicate_add, String.ofList_append]

section

variable (policy : Policy) (constant : Sentinel) {behind : String}
  (ends : constant = .bitOne ∨ behind.toList.head? ≠ some '$')
include ends

theorem tokenize_dollarRun_append :
    tokenize policy (dollarRun constant.dollars ++ behind) =
      ((tokenize policy behind).moved (.behind (dollarRun constant.dollars))).cons
        ⟨.sentinel constant, dollarRun constant.dollars, .start⟩ := by
  refine tokenize_append policy ?_ ?_
  · cases constant <;> exact List.cons_ne_nil _ _
  · rw [dollarRun, String.toList_ofList, List.length_replicate]
    exact Rule.firstMatch?_dollars constant ends

theorem kinds_dollarRun_append :
    (tokenize policy (dollarRun constant.dollars ++ behind)).kinds =
      .sentinel constant :: (tokenize policy behind).kinds := by
  rw [tokenize_dollarRun_append policy constant ends, Lexing.kinds_cons, Lexing.kinds_moved]

theorem complaint?_dollarRun_append :
    (tokenize policy (dollarRun constant.dollars ++ behind)).complaint? =
      (tokenize policy behind).complaint? := by
  rw [tokenize_dollarRun_append policy constant ends, Lexing.complaint?_cons,
    Lexing.complaint?_moved]

end

/-- Each eight dollars that a text begins with are one sentinel, whatever stands behind them. -/
theorem tokenize_eights (policy : Policy) (eights : Nat) (behind : String) :
    (tokenize policy (dollarRun (8 * eights) ++ behind)).kinds =
        List.replicate eights (.sentinel .bitOne) ++ (tokenize policy behind).kinds ∧
      (tokenize policy (dollarRun (8 * eights) ++ behind)).complaint? =
        (tokenize policy behind).complaint? := by
  induction eights with
  | zero =>
      have nothing : dollarRun (8 * 0) ++ behind = behind := String.empty_append
      rw [nothing]
      exact ⟨rfl, rfl⟩
  | succ eights ih =>
      have opening : dollarRun (8 * (eights + 1)) ++ behind =
          dollarRun Sentinel.bitOne.dollars ++ (dollarRun (8 * eights) ++ behind) := by
        rw [← String.append_assoc, ← dollarRun_add]
        congr 2
        simp only [Sentinel.dollars]
        omega
      rw [opening, kinds_dollarRun_append policy .bitOne (.inl rfl),
        complaint?_dollarRun_append policy .bitOne (.inl rfl), ih.1]
      exact ⟨rfl, ih.2⟩

/-- Fewer than eight dollars are one sentinel, or a single one that goes with what follows. -/
theorem tokenize_leftOver (policy : Policy) {count : Nat} (few : count < 8) {behind : String}
    (noDollar : behind.toList.head? ≠ some '$') :
    let rest := if count = 1 then "$" ++ behind else behind
    (tokenize policy (dollarRun count ++ behind)).kinds =
        (Sentinel.ofDollars? count).toList.map .sentinel ++ (tokenize policy rest).kinds ∧
      (tokenize policy (dollarRun count ++ behind)).complaint? =
        (tokenize policy rest).complaint? := by
  cases isSentinel : Sentinel.ofDollars? count with
  | some constant =>
      obtain rfl := Sentinel.ofDollars?_eq_some_iff.mp isSentinel
      have several : constant.dollars ≠ 1 := by cases constant <;> decide
      rw [if_neg several, kinds_dollarRun_append policy constant (.inr noDollar),
        complaint?_dollarRun_append policy constant (.inr noDollar)]
      exact ⟨rfl, rfl⟩
  | none =>
      have isRest : dollarRun count ++ behind = if count = 1 then "$" ++ behind else behind := by
        rcases Sentinel.eq_of_ofDollars?_eq_none count few isSentinel with rfl | rfl
        · exact String.empty_append
        · rfl
      rw [isRest]
      exact ⟨rfl, rfl⟩

/-- A run of dollars, as long as it may be and whatever follows it, is cut into sentinels of eight
and, of the rest, one more sentinel. A single dollar that is left over goes with what follows the
run. From there on the kinds of the tokens are those that the rest has on its own, and so is what
stops the search for them, if anything does. -/
theorem dollar_runs_are_cut_in_eights (policy : Policy) (count : Nat) {behind : String}
    (noDollar : behind.toList.head? ≠ some '$') :
    let rest := if count % 8 = 1 then "$" ++ behind else behind
    (tokenize policy (dollarRun count ++ behind)).kinds =
        List.replicate (count / 8) (.sentinel .bitOne) ++
          (Sentinel.ofDollars? (count % 8)).toList.map .sentinel ++ (tokenize policy rest).kinds ∧
      (tokenize policy (dollarRun count ++ behind)).complaint? =
        (tokenize policy rest).complaint? := by
  have opening : dollarRun count ++ behind =
      dollarRun (8 * (count / 8)) ++ (dollarRun (count % 8) ++ behind) := by
    rw [← String.append_assoc, ← dollarRun_add, Nat.div_add_mod]
  have eights := tokenize_eights policy (count / 8) (dollarRun (count % 8) ++ behind)
  have leftOver := tokenize_leftOver policy (Nat.mod_lt count (by decide)) noDollar
  rw [opening, eights.1, eights.2, leftOver.1, leftOver.2]
  exact ⟨(List.append_assoc _ _ _).symm, rfl⟩

/-- Of nine dollars in front of a sign, the last one makes an operator with it. -/
theorem dollar_runs_are_cut_in_eights_nine :
    "<=a".toList.head? ≠ some '$' ∧
      (tokenize .strict (dollarRun 9 ++ "<=a")).kinds =
        [.sentinel .bitOne, .operator ⟨.integer, .lessEqual⟩, .identifier] := by
  have noDollar : "<=a".toList.head? ≠ some '$' := by decide
  refine ⟨noDollar, ?_⟩
  rw [(dollar_runs_are_cut_in_eights .strict 9 noDollar).1]
  decide +kernel

end Mel

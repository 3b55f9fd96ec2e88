import Mel.Proofs.StepLaw

/-!
# Scope discipline

Frames are opened by calls and for loops, and the call depth is counted up and down
by calls. This file proves that no way out of these leaves a frame or a level
behind: returns, errors and halts at any nesting included.

An expression leaves every frame with the names it had. A statement can add names to
the current frame and leaves those below with the names they had. Both facts are one
law of steps; the comparison of two scopes is by the names of their frames, from the
top downwards, and says nothing of the values.
-/

namespace Mel

namespace Table

variable {α : Type}

theorem map_fst_subset_insertEntry (name : String) (value : α) (entries : List (String × α)) :
    entries.map Prod.fst ⊆ (insertEntry name value entries).map Prod.fst := by
  induction entries with
  | nil => exact List.nil_subset _
  | cons entry entries ih =>
      rcases entry with ⟨known, old⟩
      by_cases replaced : known = name
      · simp [insertEntry, replaced]
      · simp only [insertEntry, if_neg replaced, List.map_cons]
        exact List.cons_subset_cons known ih

/-- Binding a name loses no other name. -/
theorem names_subset_insert (table : Table α) (name : String) (value : α) :
    table.names ⊆ (table.insert name value).names :=
  map_fst_subset_insertEntry name value table.entries

end Table

namespace Scope

variable {α : Type}

theorem names_assignIn {name : String} {value : α} {frames later : List (Table α)}
    (assigned : assignIn name value frames = some later) :
    later.map Table.names = frames.map Table.names := by
  induction frames generalizing later with
  | nil => simp [assignIn] at assigned
  | cons frame frames ih =>
      simp only [assignIn] at assigned
      by_cases known : frame.contains name
      · simp only [if_pos known, Option.some.injEq] at assigned
        subst later
        simp [Table.names_insert_of_contains value known]
      · simp only [if_neg known, Option.map_eq_some_iff] at assigned
        rcases assigned with ⟨below, assignedBelow, rfl⟩
        simp [ih assignedBelow]

/-- Rebinding a name adds no name to any frame. -/
theorem names_assign? {scope later : Scope α} {name : String} {value : α}
    (assigned : scope.assign? name value = some later) :
    later.frames.map Table.names = scope.frames.map Table.names := by
  simp only [assign?] at assigned
  by_cases known : scope.current.contains name
  · simp only [if_pos known, Option.some.injEq] at assigned
    subst later
    simp [frames, define, Table.names_insert_of_contains value known]
  · simp only [if_neg known, Option.map_eq_some_iff] at assigned
    rcases assigned with ⟨below, assignedBelow, rfl⟩
    simp [frames, names_assignIn assignedBelow]

/-- Once the frames below an opened one have their names again, closing it restores all frames. -/
theorem names_pop {before later : Scope α}
    (outer : later.outer.map Table.names = before.push.outer.map Table.names) :
    later.pop.frames.map Table.names = before.frames.map Table.names := by
  cases below : later.outer with
  | nil => simp [below, push, frames] at outer
  | cons frame frames =>
      rw [below] at outer
      simpa [pop, below, push, Scope.frames] using outer

end Scope

namespace Machine

/-- What an expression does to the frames and the depth: no name comes or goes. -/
structure FramesKept (before later : Machine) : Prop where
  names : later.scope.frames.map Table.names = before.scope.frames.map Table.names
  depth : later.depth = before.depth

/-- What a statement does to the frames and the depth: names come to the current frame only. -/
structure FramesGrown (before later : Machine) : Prop where
  outer : later.scope.outer.map Table.names = before.scope.outer.map Table.names
  current : before.scope.current.names ⊆ later.scope.current.names
  depth : later.depth = before.depth

theorem FramesKept.grown {before later : Machine} (kept : before.FramesKept later) :
    before.FramesGrown later := by
  have names := kept.names
  simp only [Scope.frames, List.map_cons, List.cons.injEq] at names
  rcases names with ⟨current, outer⟩
  exact ⟨outer, by rw [current]; exact List.Subset.refl _, kept.depth⟩

theorem FramesGrown.trans {first second third : Machine} (early : first.FramesGrown second)
    (late : second.FramesGrown third) : first.FramesGrown third :=
  ⟨late.outer.trans early.outer, List.Subset.trans early.current late.current,
    late.depth.trans early.depth⟩

theorem FramesGrown.frameCount {before later : Machine} (grown : before.FramesGrown later) :
    later.scope.frames.length = before.scope.frames.length := by
  have outer := congrArg List.length grown.outer
  simp only [List.length_map] at outer
  simp [Scope.frames, outer]

end Machine

/-- The law of frames and depth. -/
def StepLaw.frames : StepLaw where
  expression := Machine.FramesKept
  statement := Machine.FramesGrown
  refl machine := ⟨rfl, rfl⟩
  expression_trans first second :=
    ⟨second.names.trans first.names, second.depth.trans first.depth⟩
  statement_trans first second := first.trans second
  weaken kept := kept.grown
  newArray machine items := ⟨rfl, rfl⟩
  extendArray machine ref items := ⟨rfl, rfl⟩
  assign assigned := ⟨Scope.names_assign? assigned, rfl⟩
  write machine bytes := ⟨rfl, rfl⟩
  limit machine := ⟨rfl, rfl⟩
  call := by
    intro machine later grown
    refine ⟨Scope.names_pop grown.outer, ?_⟩
    rw [Exec.leaveCall, grown.depth]
    rfl
  embedded inner := ⟨rfl, rfl⟩
  define machine name value := ⟨rfl, Table.names_subset_insert _ name value, rfl⟩
  defineFunction machine name function := ⟨rfl, List.Subset.refl _, rfl⟩
  readLine machine := ⟨rfl, List.Subset.refl _, rfl⟩
  put machine character := ⟨rfl, List.Subset.refl _, rfl⟩
  take direction count enough := ⟨rfl, List.Subset.refl _, rfl⟩
  frame grown := Machine.FramesKept.grown ⟨Scope.names_pop grown.outer, grown.depth⟩

/-- Runs of one program after another on the same machine, whatever each of them came to. -/
def Machine.afterAll (options : Options) (fuel : Nat) (machine : Machine) (blocks : List Block) :
    Machine :=
  blocks.foldl (fun machine block => (interpret options fuel block).after machine) machine

/-- Every law holds of all programs that run one after another. -/
theorem StepLaw.keeps_afterAll (law : StepLaw) (options : Options) (fuel : Nat) (machine : Machine)
    (blocks : List Block) : law.statement machine (machine.afterAll options fuel blocks) := by
  induction blocks generalizing machine with
  | nil => exact law.statement_refl machine
  | cons block blocks ih =>
      have first := law.keeps_interpret options fuel block machine
      exact law.statement_trans first (ih _)

/-- However an expression, a statement or a program ends, as many frames are open as before, at the
same depth; the frames below the current one have the names they had, and the current one has at
least those. An expression adds no name at all. So a fresh machine is back at one frame and depth
zero after any programs. -/
theorem scope_discipline (options : Options) (fuel : Nat) (machine : Machine) :
    (∀ expression,
      let later := (evaluate options fuel expression).after machine
      later.scope.frames.length = machine.scope.frames.length ∧ later.depth = machine.depth ∧
        later.scope.frames.map Table.names = machine.scope.frames.map Table.names) ∧
    (∀ statement,
      let later := (execute options fuel statement).after machine
      later.scope.frames.length = machine.scope.frames.length ∧ later.depth = machine.depth ∧
        later.scope.outer.map Table.names = machine.scope.outer.map Table.names ∧
          machine.scope.current.names ⊆ later.scope.current.names) ∧
    (∀ block,
      let later := (interpret options fuel block).after machine
      later.scope.frames.length = machine.scope.frames.length ∧ later.depth = machine.depth ∧
        later.scope.outer.map Table.names = machine.scope.outer.map Table.names ∧
          machine.scope.current.names ⊆ later.scope.current.names) ∧
    ∀ streams blocks,
      let later := (Machine.fresh streams 0).afterAll options fuel blocks
      later.scope.frames.length = 1 ∧ later.depth = 0 := by
  rcases StepLaw.frames.keeps_run options fuel with ⟨evaluated, executed⟩
  refine ⟨fun expression => ?_, fun statement => ?_, fun block => ?_, fun streams blocks => ?_⟩
  · have kept := evaluated expression machine
    exact ⟨kept.grown.frameCount, kept.depth, kept.names⟩
  · have grown := executed statement machine
    exact ⟨grown.frameCount, grown.depth, grown.outer, grown.current⟩
  · have grown := StepLaw.frames.keeps_interpret options fuel block machine
    exact ⟨grown.frameCount, grown.depth, grown.outer, grown.current⟩
  · have grown := StepLaw.frames.keeps_afterAll options fuel (.fresh streams 0) blocks
    exact ⟨grown.frameCount, grown.depth⟩

end Mel

import Mel.Table

/-!
# Scopes

A scope is a stack of frames, each a table of bindings, with the current frame on
top. There is always at least one frame. Names are looked up from the top
downwards, so a called function sees the variables of its caller.
-/

namespace Mel

structure Scope (α : Type) where
  current : Table α
  /-- The frames below the current one, from the top downwards. -/
  outer : List (Table α)
deriving Repr

namespace Scope

variable {α : Type}

/-- One frame without bindings. -/
def empty : Scope α := ⟨.empty, []⟩

/-- All frames, from the top downwards. -/
def frames (scope : Scope α) : List (Table α) :=
  scope.current :: scope.outer

def get? (scope : Scope α) (name : String) : Option α :=
  scope.frames.findSome? (·.get? name)

/-- Binds a name in the current frame and shadows what it is bound to below. -/
def define (scope : Scope α) (name : String) (value : α) : Scope α :=
  { scope with current := scope.current.insert name value }

/-- Rebinds a name in the highest of some frames that has it. -/
def assignIn (name : String) (value : α) : List (Table α) → Option (List (Table α))
  | [] => none
  | frame :: frames =>
      if frame.contains name then some (frame.insert name value :: frames)
      else (assignIn name value frames).map (frame :: ·)

/-- Rebinds a name where it is bound. -/
def assign? (scope : Scope α) (name : String) (value : α) : Option (Scope α) :=
  if scope.current.contains name then some (scope.define name value)
  else (assignIn name value scope.outer).map fun frames => { scope with outer := frames }

/-- Opens a frame. -/
def push (scope : Scope α) : Scope α :=
  ⟨.empty, scope.frames⟩

/-- Closes the current frame, unless it is the last one. -/
def pop (scope : Scope α) : Scope α :=
  match scope.outer with
  | [] => scope
  | frame :: frames => ⟨frame, frames⟩

@[simp]
theorem frames_push (scope : Scope α) : scope.push.frames = .empty :: scope.frames := rfl

end Scope

end Mel

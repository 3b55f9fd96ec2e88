import Mel.Proofs.Lockstep

/-!
# Whole runs in lockstep

Steps that are put together in the same way follow each other, for each way of
putting steps together. So whole runs do, under the options of the lockstep and with
the same fuel.
-/

namespace Mel.Lockstep

open Exec

variable {α β : Type} {lockstep : Lockstep}

theorem Follows.bind {left right : Exec α} {leftNext rightNext : α → Exec β}
    (kept : lockstep.Kept left right)
    (keptNext : ∀ result, lockstep.Kept (leftNext result) (rightNext result))
    (follows : lockstep.Follows left right)
    (followsNext : ∀ result, lockstep.Follows (leftNext result) (rightNext result)) :
    lockstep.Follows (left >>= leftNext) (right >>= rightNext) := by
  intro leader follower alike
  have matched := follows alike
  have moved := kept.leader leader
  have leftMoved := Keeps.after_bind (fun result => (keptNext result).leader) left leader
  have rightMoved := Keeps.after_bind (fun result => (keptNext result).follower) right follower
  simp only [after] at moved leftMoved rightMoved
  generalize leftEnd : left leader = leftResult at matched moved leftMoved
  generalize rightEnd : right follower = rightResult at matched rightMoved
  cases matched with
  | ok result alike =>
      rw [bind_of_ok leftEnd, bind_of_ok rightEnd]
      exact (followsNext result alike).before moved
  | error errors alike =>
      rw [bind_of_error leftEnd, bind_of_error rightEnd]
      exact .error errors alike
  | halt reason alike =>
      rw [bind_of_error leftEnd, bind_of_error rightEnd]
      exact .halt reason alike
  -- Here the two results are unrelated, so that only the law says something of what comes next.
  | parted parted => exact .parted (lockstep.parting.behind parted leftMoved rightMoved)

theorem Follows.catching {left right leftHandler rightHandler : Exec α}
    (kept : lockstep.Kept left right) (keptHandlers : lockstep.Kept leftHandler rightHandler)
    (follows : lockstep.Follows left right)
    (handlers : lockstep.Follows leftHandler rightHandler) :
    lockstep.Follows (catching left leftHandler) (catching right rightHandler) := by
  intro leader follower alike
  have matched := follows alike
  have moved := kept.leader leader
  have leftMoved := keptHandlers.leader.after_catching left leader
  have rightMoved := keptHandlers.follower.after_catching right follower
  simp only [after] at moved leftMoved rightMoved
  rw [catching_apply, catching_apply]
  rw [catching_apply] at leftMoved rightMoved
  generalize left leader = leftResult at *
  generalize right follower = rightResult at *
  cases matched with
  | ok result alike => exact .ok result alike
  | error errors alike => exact (handlers alike).before moved
  | halt reason alike => exact .halt reason alike
  | parted parted => exact .parted (lockstep.parting.behind parted leftMoved rightMoved)

/-- Machines that have run alike in between are alike once both have left, if leaving gives back
what entering has put aside. -/
theorem Follows.between {enter leave : Machine → Machine} {left right : Exec α}
    (kept : lockstep.Kept left right) (follows : lockstep.Follows left right)
    (entered : ∀ {leader follower}, lockstep.Alike leader follower →
      lockstep.Alike (enter leader) (enter follower))
    (returned : ∀ {leader follower left right}, lockstep.Alike leader follower →
      lockstep.Alike left right → (enter leader).FramesGrown left →
      (enter follower).FramesGrown right → lockstep.Alike (leave left) (leave right))
    (parted : ∀ {start left right}, lockstep.parting.parted (enter start) left right →
      lockstep.parting.parted start (leave left) (leave right)) :
    lockstep.Follows (between enter leave left) (between enter leave right) := by
  intro leader follower alike
  have matched := follows (entered alike)
  have leftGrown := lockstep.framesGrown (kept.leader (enter leader))
  have rightGrown := lockstep.framesGrown (kept.follower (enter follower))
  simp only [after] at leftGrown rightGrown
  simp only [Exec.between]
  generalize left (enter leader) = leftResult at *
  generalize right (enter follower) = rightResult at *
  cases matched with
  | ok result alike' => exact .ok result (returned alike alike' leftGrown rightGrown)
  | error errors alike' => exact .error errors (returned alike alike' leftGrown rightGrown)
  | halt reason alike' => exact .halt reason (returned alike alike' leftGrown rightGrown)
  | parted hasParted =>
      refine .parted ?_
      cases leftResult <;> cases rightResult <;> exact parted hasParted

theorem Follows.inFrame {left right : Exec α} (kept : lockstep.Kept left right)
    (follows : lockstep.Follows left right) :
    lockstep.Follows (inFrame left) (inFrame right) := by
  refine Follows.between kept follows ?_ ?_ lockstep.parting.frame
  · intro leader follower alike
    exact { alike with scope := lockstep.scopes.push alike.scope }
  · intro leader follower left right alike alike' leftGrown rightGrown
    exact { alike' with
      scope := lockstep.scopes.pop alike.scope alike'.scope leftGrown.outer rightGrown.outer }

theorem Follows.inCall {left right : Exec α} (kept : lockstep.Kept left right)
    (follows : lockstep.Follows left right) :
    lockstep.Follows (inCall left) (inCall right) := by
  refine Follows.between kept follows ?_ ?_ lockstep.parting.call
  · intro leader follower alike
    exact { alike with
      scope := lockstep.scopes.push alike.scope, depth := lockstep.deeper alike.depth }
  · intro leader follower left right alike alike' leftGrown rightGrown
    refine { alike' with scope := ?_, depth := ?_ }
    · exact lockstep.scopes.pop alike.scope alike'.scope leftGrown.outer rightGrown.outer
    · simp only [leaveCall, leftGrown.depth, rightGrown.depth]
      exact alike.depth

theorem limitCheck_embedded {parts : Prop} {error : Nat → RuntimeError}
    {limit limit' : Option Nat} (check : LimitCheck lockstep.errors parts error limit limit') :
    LimitCheck lockstep.errors parts (fun limit => .embeddedFailure (error limit)) limit
      limit' := by
  cases check with
  | pass => exact .pass
  | fail alike => exact .fail (lockstep.embedded alike)
  | part parted => exact .part parted

theorem Alike.behindEmbedded {leader follower left right : Machine}
    (alike : lockstep.Alike leader follower) (inner : lockstep.Alike left right) :
    lockstep.Alike (behindEmbedded leader left) (behindEmbedded follower right) :=
  { alike with
    streams := inner.streams
    history := by simp only [Exec.behindEmbedded, inner.history, alike.history] }

/-- Fresh machines with streams and depths that correspond are at the same point. -/
theorem alike_fresh {leader follower : Streams} {depth depth' : Nat}
    (streams : lockstep.streams leader follower) (depths : lockstep.depths depth depth') :
    lockstep.Alike (.fresh leader depth) (.fresh follower depth') :=
  ⟨lockstep.scopes.empty, streams, depths, rfl, rfl, rfl, rfl⟩

theorem Follows.runEmbedded {executeLeft executeRight : Statement → Exec Completion}
    {block : Block}
    (follows : lockstep.Follows (executeAll executeLeft block) (executeAll executeRight block)) :
    lockstep.Follows (runEmbedded executeLeft block) (runEmbedded executeRight block) := by
  intro leader follower alike
  have matched := follows (alike_fresh alike.streams (lockstep.deeper alike.depth))
  rw [runEmbedded_apply, runEmbedded_apply]
  generalize executeAll executeLeft block _ = left at *
  generalize executeAll executeRight block _ = right at *
  cases matched with
  | ok result inner => exact .ok () (alike.behindEmbedded inner)
  | error errors inner => exact .error (lockstep.embedded errors) (alike.behindEmbedded inner)
  | halt reason inner => exact .halt reason (alike.behindEmbedded inner)
  | parted parted =>
      have partedOutside : lockstep.parting.parted leader (behindEmbedded leader (machineOf left))
          (behindEmbedded follower (machineOf right)) := lockstep.parting.embedded parted
      refine .parted ?_
      rcases left with ⟨_, _⟩ | ⟨_ | _, _⟩ <;> rcases right with ⟨_, _⟩ | ⟨_ | _, _⟩ <;>
        exact partedOutside

theorem follows_pair {strength : Strength} {left right : Exec α}
    (pair : lockstep.Pair strength left right) : lockstep.Follows left right := by
  induction pair with
  | elementary isElementary => exact follows_elementary isElementary
  | weaken _ follows => exact follows
  | bind first next follows followsNext =>
      exact Follows.bind (Pair.kept first) (fun result => Pair.kept (next result)) follows
        followsNext
  | inFrame inside follows => exact Follows.inFrame (Pair.kept inside) follows
  | inCall inside follows => exact Follows.inCall (Pair.kept inside) follows
  | catching first handler follows followsHandler =>
      exact Follows.catching (Pair.kept first) (Pair.kept handler) follows followsHandler
  | unlessLooping started _ follows =>
      exact follows_unlessLimited (lockstep.loopLimit started) follows
  | unlessDeep _ follows =>
      intro leader follower alike
      exact follows_unlessLimited (lockstep.depthLimit alike.depth) follows alike
  | unlessDeepEmbedded _ follows =>
      intro leader follower alike
      have limits := limitCheck_embedded (lockstep.depthLimit alike.depth)
      exact follows_unlessLimited limits follows alike
  | runEmbedded _ follows => exact Follows.runEmbedded follows
  | exhausted => exact fun _ _ alike => .halt .outOfFuel alike
  | early isEarly _ => exact isEarly.elim

variable (lockstep) (fuel : Nat)

/-- Every run of a block by the leader is followed. -/
theorem follows_executeAll (block : Block) :
    lockstep.Follows (executeAll (execute lockstep.leader fuel) block)
      (executeAll (execute lockstep.follower fuel) block) :=
  follows_pair (parallel_executeAll (parallel_run lockstep.policy (.inl rfl)).2 block)

/-- Every run of a program by the leader is followed. -/
theorem follows_interpret (block : Block) :
    lockstep.Follows (interpret lockstep.leader fuel block)
      (interpret lockstep.follower fuel block) :=
  follows_pair (parallel_interpret lockstep.policy (.inl rfl) block)

end Mel.Lockstep

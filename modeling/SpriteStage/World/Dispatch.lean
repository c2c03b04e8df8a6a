import SpriteStage.World.Basic

/-!
Starting the handlers of an event: one thread for every handler and every live instance of its
actor, all in one new group.
-/

namespace SpriteStage.World

/-- What has to be started, before it belongs to a group. -/
structure Start where
  actor : Nat
  owner : Nat
  handler : Handler

/-- Actors as registered, then handlers as declared, then instances as drawn. -/
def starts (w : World) (trigger : Trigger) : List Start :=
  w.actors.flatMap fun a =>
    (a.handlersFor trigger).flatMap fun handler =>
      a.instances.map fun owner => ⟨a.id, owner, handler⟩

def startsOf (w : World) (trigger : Trigger) (owner : Nat) : List Start :=
  match w.member owner with
  | .ok (_, a) => (a.handlersFor trigger).map fun handler => ⟨a.id, owner, handler⟩
  | .error _ => []

/-- Queues a new group of threads, unless there is nothing to start. -/
def queueGroup (w : World) (starts : List Start) : Option Nat × World :=
  if starts.isEmpty then (none, w)
  else
    let id := w.lastGroup + 1
    (some id, { w with
      lastGroup := id
      groups := w.groups ++ [⟨id, starts.length⟩]
      spawns := w.spawns ++ starts.map fun s => ⟨id, s.actor, s.owner, s.handler⟩ })

def dispatch (w : World) (trigger : Trigger) : Option Nat × World := w.queueGroup (w.starts trigger)

def dispatchTo (w : World) (trigger : Trigger) (owner : Nat) : Option Nat × World :=
  w.queueGroup (w.startsOf trigger owner)

/-- Notes that a member of a group has ended. The group goes with its last member. -/
def leaveGroup (w : World) (id : Nat) : World :=
  { w with
    groups := w.groups.filterMap fun g =>
      if g.id = id then if g.live ≤ 1 then none else some { g with live := g.live - 1 } else some g }

theorem queueGroup_nil (w : World) : w.queueGroup [] = (none, w) := rfl

theorem spawns_queueGroup (w : World) (starts : List Start) :
    (w.queueGroup starts).2.spawns =
      w.spawns ++ starts.map fun s => ⟨w.lastGroup + 1, s.actor, s.owner, s.handler⟩ := by
  unfold queueGroup
  cases starts <;> simp

theorem instances_queueGroup (w : World) (starts : List Start) :
    (w.queueGroup starts).2.instances = w.instances := by
  unfold queueGroup
  split <;> rfl

end SpriteStage.World

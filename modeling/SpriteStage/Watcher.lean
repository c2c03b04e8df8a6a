import SpriteStage.Error

/-!
Attributes shown on the stage, each at most once for an instance.
-/

namespace SpriteStage

/-- The edges of the stage a watcher keeps a distance from. -/
structure WatcherPosition where
  top : Option Float := none
  left : Option Float := none
  bottom : Option Float := none
  right : Option Float := none

/-- A watcher cannot hang on two opposite edges. -/
def WatcherPosition.flaw? (p : WatcherPosition) : Option String :=
  if p.top.isSome && p.bottom.isSome then some "cannot give both \"top\" and \"bottom\" args"
  else if p.left.isSome && p.right.isSome then some "cannot give both \"left\" and \"right\" args"
  else none

structure Watcher where
  owner : Nat
  name : String
  label : String
  position : WatcherPosition

namespace Watcher

def shows (w : Watcher) (owner : Nat) (name : String) : Bool :=
  w.owner == owner && w.name == name

/-- Puts a watcher in the place of the one it renews, or at the end. -/
def put (w : Watcher) : List Watcher → List Watcher
  | [] => [w]
  | old :: rest => if old.shows w.owner w.name then w :: rest else old :: put w rest

def hide (owner : Nat) (name : String) (ws : List Watcher) : List Watcher :=
  ws.filter fun w => !w.shows owner name

theorem mem_put (w : Watcher) (ws : List Watcher) : w ∈ put w ws := by
  induction ws with
  | nil => simp [put]
  | cons old rest ih =>
    simp only [put]
    split
    · exact List.mem_cons_self
    · exact List.mem_cons_of_mem _ ih

theorem not_shows_of_mem_hide {owner : Nat} {name : String} {ws : List Watcher} {w : Watcher}
    (h : w ∈ hide owner name ws) : w.shows owner name = false := by
  simpa using (List.mem_filter.1 h).2

end Watcher

/-- A watcher with the text of its attribute, if that is set. -/
structure WatcherReading where
  watcher : Watcher
  value : Option String

end SpriteStage

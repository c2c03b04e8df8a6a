import SpriteStage.World.Dispatch

/-!
Making clones and deleting them. A clone is drawn right behind the instance it was made from.
-/

namespace SpriteStage

/-- What became of a request to delete an instance. -/
inductive Deletion where
  | deleted
  /-- The founder of a class is never deleted. -/
  | kept
  | alreadyGone
  deriving DecidableEq, Repr

namespace World

/-- The live sprite instance that a clone is to be made from. -/
def resolve (w : World) : CloneSource → Except CallError Nat
  | .className name =>
    match w.actorNamed? name with
    | none => .error (.cloneTarget name)
    | some a => if a.isSprite then .ok a.founder else .error (.cloneTarget name)
  | .member id =>
    match w.member id with
    | .error _ => .error (.cloneTarget (idText id))
    | .ok (_, a) => if a.isSprite then .ok id else .error (.cloneTarget a.name)

/-- Puts a new instance right before another one in drawing order. -/
def insertBefore (parent id : Nat) : List Nat → List Nat
  | [] => [id]
  | other :: rest => if other = parent then id :: other :: rest else other :: insertBefore parent id rest

/-- Makes a copy of an instance and queues the handlers for its start. -/
def createClone (w : World) (source : CloneSource) : Except CallError (Nat × World) :=
  match w.resolve source with
  | .error e => .error e
  | .ok parent =>
    match w.member parent with
    | .error e => .error e
    | .ok (i, a) =>
      let id := w.lastInstance + 1
      let w := { w with lastInstance := id, instances := w.instances ++ [i.cloned id] }
      let w := w.updateActor a.id fun a =>
        { a with instances := insertBefore parent id a.instances }
      .ok (id, (w.dispatchTo .startAsClone id).2)

/-- Takes a clone out of every table that mentions it. -/
def remove (w : World) (i : Instance) : World :=
  { w.updateActor i.actor (fun a => { a with instances := a.instances.filter (· ≠ i.id) }) with
    instances := w.instances.filter (·.id ≠ i.id)
    watchers := w.watchers.filter (·.owner ≠ i.id)
    gains := w.gains.remove (w.busOf i.id)
    deleted := w.deleted ++ [i.id] }

def deleteInstance (w : World) (id : Nat) : Deletion × World :=
  match w.instance? id with
  | none => (.alreadyGone, w)
  | some i => if i.isClone then (.deleted, w.remove i) else (.kept, w)

def removeClones (w : World) : World :=
  (w.instances.filter Instance.isClone).foldl (fun w i => (w.deleteInstance i.id).2) w

theorem mem_insertBefore {parent id other : Nat} {ids : List Nat} :
    other ∈ insertBefore parent id ids ↔ other = id ∨ other ∈ ids := by
  induction ids with
  | nil => simp [insertBefore]
  | cons head rest ih =>
    simp only [insertBefore]
    split <;> simp [ih]
    constructor <;> rintro (h | h | h) <;> simp [h]

theorem deleteInstance_founder {w : World} {id : Nat} {i : Instance} (h : w.instance? id = some i)
    (hi : i.isClone = false) : w.deleteInstance id = (.kept, w) := by
  simp [deleteInstance, h, hi]

end World

end SpriteStage

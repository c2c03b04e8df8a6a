import SpriteStage.Actor
import SpriteStage.Config
import SpriteStage.Device
import SpriteStage.Drawing

/-!
The world: everything that a call can touch. Threads are not part of it.
-/

namespace SpriteStage

/-- Threads started together by one event. -/
structure Group where
  id : Nat
  /-- Members that have not ended. -/
  live : Nat
  deriving DecidableEq, Repr

/-- A thread to create once the current resumption is over. -/
structure Spawn where
  group : Nat
  actor : Nat
  owner : Nat
  handler : Handler

structure Question where
  id : Nat
  thread : Nat
  owner : Nat
  prompt : Option String
  deriving DecidableEq, Repr

structure World where
  config : Config := {}
  actors : List Actor := []
  /-- Live instances in the order of their creation. -/
  instances : List Instance := []
  groups : List Group := []
  spawns : List Spawn := []
  /-- Instances deleted in the current resumption. -/
  deleted : List Nat := []
  stopRequested : Bool := false
  watchers : List Watcher := []
  /-- Questions, the oldest first. -/
  questions : List Question := []
  assets : List ((AssetKind × String) × Asset) := []
  gains : Gains := []
  bus : MixBus := {}
  keyboard : Keyboard := {}
  pointer : Pointer := {}
  /-- Failures reported, the oldest first. -/
  errors : List Report := []
  /-- Loop iterations counted outside any thread. -/
  importLoops : Nat := 0
  handles : List (String × Handle) := []
  /-- What was seen, the newest first. -/
  journal : List Entry := []
  /-- The newest identity given to an instance, a group and a question. -/
  lastInstance : Nat := 0
  lastGroup : Nat := 0
  lastQuestion : Nat := 0

namespace World

def instance? (w : World) (id : Nat) : Option Instance := w.instances.find? (·.id == id)

def isLive (w : World) (id : Nat) : Bool := w.instances.any (·.id == id)

def actorNamed? (w : World) (name : String) : Option Actor := w.actors.find? (·.name == name)

def stage? (w : World) : Option Actor := w.actors.find? (·.kind = .stage)

def className (w : World) (actor : Nat) : String := (w.actors[actor]?).elim "" (·.name)

def idText (id : Nat) : String := s!"#{id}"

def member (w : World) (id : Nat) : Except CallError (Instance × Actor) :=
  match w.instance? id with
  | none => .error (.instanceGone (idText id))
  | some i =>
    match w.actors[i.actor]? with
    | none => .error (.instanceGone (idText id))
    | some a => .ok (i, a)

/-- The name of an instance in reports: its class and identity, or the identity alone once it is
gone. -/
def label (w : World) (id : Nat) : String :=
  match w.instance? id with
  | some i => w.className i.actor ++ idText id
  | none => idText id

def busOf (w : World) (id : Nat) : String :=
  match w.instance? id with
  | some i => s!"{w.className i.actor}-{id}"
  | none => s!"gone-{id}"

def isSprite (w : World) (id : Nat) : Bool :=
  match w.member id with
  | .ok (_, a) => a.isSprite
  | .error _ => false

def record (w : World) (entry : Entry) : World := { w with journal := entry :: w.journal }

def report (w : World) (origin : Origin) (message : String) : World :=
  { w with errors := w.errors ++ [⟨origin, message⟩] }

def reshape (w : World) (id : Nat) (change : Figure → Figure) : World :=
  { w with
    instances := w.instances.map fun i =>
      if i.id = id then { i with figure := change i.figure } else i }

def updateActor (w : World) (id : Nat) (change : Actor → Actor) : World :=
  { w with actors := w.actors.map fun a => if a.id = id then change a else a }

/-- Counts one loop iteration outside any thread. -/
def noteImportLoop (w : World) : Except ProjectError Unit × World :=
  let count := w.importLoops + 1
  let max := w.config.maxImportLoopIterations
  (if max < count then .error (.runawayLoop count max) else .ok (), { w with importLoops := count })

def setMaxImportLoops (w : World) (max : Nat) : World :=
  { w with config := { w.config with maxImportLoopIterations := max } }

theorem reshape_actors (w : World) (id : Nat) (change : Figure → Figure) :
    (w.reshape id change).actors = w.actors := rfl

theorem instance?_reshape_of_ne (w : World) {id other : Nat} (h : other ≠ id)
    (change : Figure → Figure) : (w.reshape id change).instance? other = w.instance? other := by
  unfold instance? reshape
  induction w.instances with
  | nil => rfl
  | cons i rest ih =>
    by_cases hi : i.id = id
    · have hne : (i.id == other) = false := by simp [hi]; exact fun e => h e.symm
      simp [List.find?, hi] at ih ⊢
      simpa [hi ▸ hne] using ih
    · simp only [List.map_cons, hi, if_false, List.find?]
      split
      · rfl
      · exact ih

end World

end SpriteStage

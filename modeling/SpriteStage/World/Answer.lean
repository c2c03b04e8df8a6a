import SpriteStage.World.Clone
import SpriteStage.World.Scene

/-!
Answers to the requests of threads. A request that is refused gives no new world, so it leaves no
trace.
-/

namespace SpriteStage.World

abbrev Answer (α : Type) := Except CallError (α × World)

def tells {α : Type} (w : World) (answer : Except CallError α) : Answer α := answer.map (·, w)

def describe {α : Type} (w : World) (id : Nat) (f : Instance → Actor → α) : Answer α :=
  w.tells ((w.member id).map fun (i, a) => f i a)

def attribute? (w : World) (id : Nat) (name : String) : Except CallError Value :=
  match w.member id with
  | .error e => .error e
  | .ok (i, a) =>
    match i.figure.attributes.get? name with
    | some value => .ok value
    | none => .error (.noSuchAttribute name a.name)

def setAttribute (w : World) (id : Nat) (name : String) (value : Value) : Answer Unit :=
  match w.member id with
  | .error e => .error e
  | .ok _ => .ok ((), w.reshape id (·.setAttribute name value))

def move (w : World) (id : Nat) (motion : Motion) : Answer Unit :=
  match motion.check, w.member id with
  | .error e, _ => .error e
  | _, .error e => .error e
  | .ok _, .ok (_, a) =>
    if a.isSprite then .ok ((), w.reshape id motion.apply) else .error (.spriteOnly motion.name)

/-- Puts on a costume or backdrop of the actor, by its name. -/
def putOn (w : World) (id : Nat) (dress : Dress) (name : String) : Answer Unit :=
  match w.member id with
  | .error e => .error e
  | .ok (_, a) =>
    match a.costumeIndex? name with
    | none => .error (.unknownAppearance dress name a.name)
    | some index =>
      .ok ((), w.reshape id fun f => { f with look := { f.look with costume := index } })

/-- Costumes are for sprites; backdrops are not. -/
def wear (w : World) (id : Nat) (dress : Dress) (name : String) : Answer Unit :=
  match dress, w.isSprite id with
  | .costume, false => .error (.spriteOnly "switch_costume")
  | .backdrop, true => .error (.invalidArgument "switch_backdrop" "only the Stage has backdrops")
  | dress, _ => w.putOn id dress name

def showVariable (w : World) (id : Nat) (name : String) (label : Option String)
    (position : WatcherPosition) : Answer Unit :=
  match position.flaw? with
  | some reason => .error (.invalidArgument "show_variable" reason)
  | none =>
    .ok ((), { w with watchers := Watcher.put ⟨id, name, label.getD name, position⟩ w.watchers })

def play (w : World) (id : Nat) (name : String) : Answer Nat :=
  match w.member id with
  | .error e => .error e
  | .ok (_, a) =>
    match a.sound? name with
    | none => .error (.unknownSound name a.name)
    | some sound =>
      let (performance, bus) := w.bus.play
      .ok (performance, { w with bus := bus }.record (.bus (.play (w.busOf id) sound.locator)))

def setVolume (w : World) (id : Nat) (gain : Float) : Float × World :=
  let bus := w.busOf id
  let gains := w.gains.set bus gain
  let stored := gains.get bus
  (stored, { w with gains := gains }.record (.bus (.gain bus stored)))

def volume (w : World) (id : Nat) : Float := w.gains.get (w.busOf id)

def stopAllSounds (w : World) : World := w.record (.bus .stop)

def broadcast (w : World) (message : String) : Option Nat × World := w.dispatch (.message message)

def askQuestion (w : World) (h : Handle) (prompt : Option String) : Nat × World :=
  let id := w.lastQuestion + 1
  (id, { w with lastQuestion := id, questions := w.questions ++ [⟨id, h.thread, h.owner, prompt⟩] })

def answer (w : World) (id : Nat) : (r : Request) → Answer r.Reply
  | .className => w.describe id fun _ a => a.name
  | .isClone => w.describe id fun i _ => i.isClone
  | .instancesOf className =>
    match w.actorNamed? className with
    | some a => .ok (a.instances, w)
    | none => .error (.unknownClass className)
  | .get name => w.tells (w.attribute? id name)
  | .set name value => w.setAttribute id name value
  | .x => w.describe id fun i _ => i.figure.look.x
  | .y => w.describe id fun i _ => i.figure.look.y
  | .direction => w.describe id fun i _ => i.figure.look.direction
  | .move motion => w.move id motion
  | .wear dress name => w.wear id dress name
  | .appearanceName => w.describe id fun i a => (costume? a i).map (·.name)
  | .boundingBox => .ok (w.box? id, w)
  | .touching className => w.tells (w.touching id className)
  | .broadcast message => .ok ((), (w.broadcast message).2)
  | .createClone source => w.createClone source
  | .keyPressed name => w.tells ((Key.check name).map fun _ => w.keyboard.isHeld name)
  | .showVariable name label position => w.showVariable id name label position
  | .hideVariable name => .ok ((), { w with watchers := Watcher.hide id name w.watchers })
  | .startSound name => (w.play id name).map fun (_, w) => ((), w)
  | .setVolume gain => .ok (w.setVolume id gain)
  | .volume => .ok (w.volume id, w)
  | .stopAllSounds => .ok ((), w.stopAllSounds)

end SpriteStage.World

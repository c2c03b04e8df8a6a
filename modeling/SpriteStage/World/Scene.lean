import SpriteStage.World.Basic

/-!
Where instances are, which of them touch or lie under a point, and what there is to draw.
-/

namespace SpriteStage.World

def image? (w : World) (locator : String) : Option Asset := w.assets.lookup (.image, locator)

def costume? (a : Actor) (i : Instance) : Option Costume := a.costumes[i.figure.look.costume]?

/-- The box of a sprite instance, once the image of its costume has been loaded. -/
def box? (w : World) (id : Nat) : Option Box :=
  match w.member id with
  | .error _ => none
  | .ok (i, a) =>
    if a.isSprite then
      (costume? a i).bind fun costume =>
        (w.image? costume.locator).map fun image =>
          i.figure.look.box costume.centreX costume.centreY image.width image.height
    else none

def shownBox? (w : World) (id : Nat) : Option Box :=
  match w.instance? id with
  | some i => if i.figure.look.shown then w.box? id else none
  | none => none

/-- Whether a shown instance overlaps another shown instance of a class. -/
def touching (w : World) (id : Nat) (className : String) : Except CallError Bool :=
  match w.actorNamed? className with
  | none => .error (.unknownClass className)
  | some target =>
    if target.isSprite then
      match w.shownBox? id with
      | none => .ok false
      | some own =>
        .ok <| target.instances.any fun other =>
          other != id && (w.shownBox? other).any own.overlaps
    else .error (.spriteOnly "touching")

/-- The stage before the sprites, each in order of registration. -/
def actorsBackToFront (w : World) : List Actor :=
  w.actors.filter (fun a => !a.isSprite) ++ w.actors.filter Actor.isSprite

/-- The front-most shown sprite instance under a point. -/
def spriteAt? (w : World) (p : Point) : Option Nat :=
  (w.actors.filter Actor.isSprite).reverse.findSome? fun a =>
    a.instances.reverse.find? fun id => (w.shownBox? id).any (·.contains p)

/-- The shown instances that wear something, from back to front. -/
def drawn (w : World) : List (Instance × Actor × Costume) :=
  w.actorsBackToFront.flatMap fun a =>
    a.instances.filterMap fun id =>
      (w.instance? id).bind fun i =>
        if i.figure.look.shown then (costume? a i).map fun costume => (i, a, costume) else none

/-- The stage fills the screen; a sprite stands where its look says. -/
def imageOf (w : World) (i : Instance) (a : Actor) (costume : Costume) : Drawing :=
  let look := i.figure.look
  if a.isSprite then
    .image i.id (look.x - costume.centreX * look.size) (look.y + costume.centreY * look.size)
      look.size (look.direction - 90.0) costume.locator
  else
    .image i.id (-w.config.stage.halfWidth) w.config.stage.halfHeight 1.0 0.0 costume.locator

/-- A sprite that speaks has a bubble above its box, or at its centre while there is no box. -/
def bubbleOf? (w : World) (i : Instance) (a : Actor) : Option Drawing :=
  if a.isSprite then
    i.figure.speech.map fun content =>
      match w.box? i.id with
      | some box => .bubble i.id ((box.xMin + box.xMax) / 2.0) box.yMax content
      | none => .bubble i.id i.figure.look.x i.figure.look.y content
  else none

/-- All images, then all bubbles. -/
def drawings (w : World) : List Drawing :=
  w.drawn.map (fun (i, a, costume) => w.imageOf i a costume) ++
    w.drawn.filterMap fun (i, a, _) => w.bubbleOf? i a

def watcherReadings (w : World) : List WatcherReading :=
  w.watchers.map fun watcher =>
    ⟨watcher, (w.instance? watcher.owner).bind fun i =>
      (i.figure.attributes.get? watcher.name).map Value.display⟩

end SpriteStage.World

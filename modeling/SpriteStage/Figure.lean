import SpriteStage.Geometry
import SpriteStage.Number.Binary64
import SpriteStage.Value

/-!
What an instance owns: its attributes, its look and its speech; and the changes that can be made
to them.
-/

namespace SpriteStage

structure Look where
  x : Float := 0.0
  y : Float := 0.0
  /-- One is natural size. -/
  size : Float := 1.0
  /-- Degrees; ninety points to the right. -/
  direction : Float := 90.0
  shown : Bool := true
  costume : Nat := 0

/-- A heading brought between -180 and 180 degrees. -/
def heading (degrees : Float) : Float :=
  let d := remainder degrees 360.0
  if d > 180.0 then d - 360.0 else if d ≤ -180.0 then d + 360.0 else d

def Look.box (l : Look) (centreX centreY width height : Float) : Box :=
  let xMin := l.x - centreX * l.size
  let yMax := l.y + centreY * l.size
  ⟨xMin, xMin + width * l.size, yMax - height * l.size, yMax⟩

structure Figure where
  attributes : Fields := []
  look : Look := {}
  speech : Option String := none

def Figure.setAttribute (f : Figure) (name : String) (value : Value) : Figure :=
  { f with attributes := Fields.set name value f.attributes }

inductive Motion where
  | goTo (x y : Float)
  | setX (x : Float)
  | setY (y : Float)
  | changeX (d : Float)
  | changeY (d : Float)
  | setSize (size : Float)
  | appear
  | hide
  | turn (degrees : Float)
  | point (degrees : Float)
  | say (text : String)
  | sayNothing

namespace Motion

def name : Motion → String
  | .goTo .. => "go_to_xy"
  | .setX _ => "set_x"
  | .setY _ => "set_y"
  | .changeX _ => "change_x"
  | .changeY _ => "change_y"
  | .setSize _ => "set_size"
  | .appear => "show"
  | .hide => "hide"
  | .turn _ => "turn_degrees"
  | .point _ => "point_in_direction"
  | .say _ => "say"
  | .sayNothing => "say_nothing"

/-- A size must be a number that is not negative. -/
def check : Motion → Except CallError Unit
  | .setSize size =>
    if !size.isFinite || size < 0.0 then
      .error (.invalidArgument "set_size" "size must be non-negative")
    else .ok ()
  | _ => .ok ()

def onLook : Motion → Look → Look
  | .goTo x y, l => { l with x := x, y := y }
  | .setX x, l => { l with x := x }
  | .setY y, l => { l with y := y }
  | .changeX d, l => { l with x := l.x + d }
  | .changeY d, l => { l with y := l.y + d }
  | .setSize size, l => { l with size := size }
  | .appear, l => { l with shown := true }
  | .hide, l => { l with shown := false }
  | .turn degrees, l => { l with direction := heading (l.direction + degrees) }
  | .point degrees, l => { l with direction := heading degrees }
  | .say _, l => l
  | .sayNothing, l => l

def onSpeech : Motion → Option String → Option String
  | .say text, _ => some text
  | .sayNothing, _ => none
  | _, speech => speech

def apply (m : Motion) (f : Figure) : Figure :=
  { f with look := m.onLook f.look, speech := m.onSpeech f.speech }

theorem apply_attributes (m : Motion) (f : Figure) : (m.apply f).attributes = f.attributes := rfl

theorem onLook_costume (m : Motion) (l : Look) : (m.onLook l).costume = l.costume := by
  cases m <;> rfl

end Motion

structure Instance where
  id : Nat
  actor : Nat
  /-- The instance it was cloned from. -/
  parent : Option Nat
  figure : Figure

namespace Instance

def isClone (i : Instance) : Bool := i.parent.isSome

/-- A copy under a new identity, which remembers where it comes from. -/
def cloned (i : Instance) (id : Nat) : Instance := { i with id := id, parent := some i.id }

theorem figure_cloned (i : Instance) (id : Nat) : (i.cloned id).figure = i.figure := rfl

end Instance

end SpriteStage

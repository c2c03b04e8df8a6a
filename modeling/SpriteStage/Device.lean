import SpriteStage.Geometry

/-!
The keyboard and the pointer. What happens on them is queued until the next frame looks.
-/

namespace SpriteStage

structure Keyboard where
  held : List String := []
  /-- Keys that went down since the last look, oldest first. -/
  fresh : List String := []
  deriving DecidableEq, Repr

namespace Keyboard

/-- A press of a key that is held already is no new press. -/
def press (k : Keyboard) (name : String) : Keyboard :=
  if k.held.contains name then k else ⟨name :: k.held, k.fresh ++ [name]⟩

def release (k : Keyboard) (name : String) : Keyboard :=
  { k with held := k.held.filter (· ≠ name) }

def isHeld (k : Keyboard) (name : String) : Bool := k.held.contains name

def drained (k : Keyboard) : Keyboard := { k with fresh := [] }

theorem isHeld_press (k : Keyboard) (name : String) : (k.press name).isHeld name = true := by
  unfold press isHeld
  split <;> simp_all

theorem isHeld_release (k : Keyboard) (name : String) : (k.release name).isHeld name = false := by
  simp [release, isHeld]

theorem fresh_release (k : Keyboard) (name : String) : (k.release name).fresh = k.fresh := rfl

end Keyboard

structure Pointer where
  /-- Clicks since the last look, oldest first. -/
  clicks : List Point := []

namespace Pointer

def click (p : Pointer) (place : Point) : Pointer := ⟨p.clicks ++ [place]⟩

def drained (_ : Pointer) : Pointer := {}

end Pointer

end SpriteStage

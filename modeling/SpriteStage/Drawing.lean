/-!
What there is to draw, from back to front.
-/

namespace SpriteStage

inductive Drawing where
  /-- An image with its top left corner at a point; the rotation is clockwise from upright. -/
  | image (owner : Nat) (x y scale rotation : Float) (locator : String)
  /-- A speech bubble with its tip at a point. -/
  | bubble (owner : Nat) (tipX tipY : Float) (content : String)

def Drawing.owner : Drawing → Nat
  | .image owner .. => owner
  | .bubble owner .. => owner

end SpriteStage

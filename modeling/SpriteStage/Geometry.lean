/-!
Points and boxes in stage coordinates: the origin is the centre of the stage, `x` grows to the
right and `y` grows upwards.
-/

namespace SpriteStage

structure Point where
  x : Float
  y : Float

structure Box where
  xMin : Float
  xMax : Float
  yMin : Float
  yMax : Float

namespace Box

/-- Whether each box begins before the other ends, on both axes. -/
def overlaps (a b : Box) : Bool :=
  a.xMin < b.xMax && b.xMin < a.xMax && a.yMin < b.yMax && b.yMin < a.yMax

/-- Whether a point lies inside or on the edge. -/
def contains (b : Box) (p : Point) : Bool :=
  b.xMin ≤ p.x && p.x ≤ b.xMax && b.yMin ≤ p.y && p.y ≤ b.yMax

/-- Equality of the four numbers as numbers. -/
def same (a b : Box) : Bool :=
  a.xMin == b.xMin && a.xMax == b.xMax && a.yMin == b.yMin && a.yMax == b.yMax

theorem overlaps_comm (a b : Box) : a.overlaps b = b.overlaps a := by
  simp only [overlaps]
  cases decide (a.xMin < b.xMax) <;> cases decide (b.xMin < a.xMax) <;>
    cases decide (a.yMin < b.yMax) <;> cases decide (b.yMin < a.yMax) <;> rfl

end Box

end SpriteStage

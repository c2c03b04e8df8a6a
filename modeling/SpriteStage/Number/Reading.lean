import SpriteStage.Number.Shortest

/-!
The double nearest to a written decimal.
-/

namespace SpriteStage.Decimal

/-- Magnitudes from `10 ^ 400` on are infinite and those below `10 ^ -400` are zero. -/
def toFloat (d : Decimal) : Float :=
  let size := ((toString d.digits).length : Int) + d.exponent
  if d.digits = 0 then 0.0
  else if size > 400 then 1.0 / 0.0
  else if size < -400 then 0.0
  else if 0 ≤ d.exponent then Float.ofScientific d.digits false d.exponent.toNat
  else Float.ofScientific d.digits true (-d.exponent).toNat

/-- The decimal with the given figures before and after the point, times a power of ten. -/
def ofFigures (whole fraction : List Char) (power : Int) : Decimal :=
  let digits := (whole ++ fraction).foldl (fun n c => 10 * n + (c.toNat - 48)) 0
  ⟨digits, power - fraction.length⟩

end SpriteStage.Decimal

import SpriteStage.Number.Shortest

/-!
How numbers are written. Three dialects share the shortest digits and differ in when they turn to
an exponent and in whether a whole number keeps its `.0`.
-/

namespace SpriteStage

namespace Decimal

def figures (d : Decimal) : List Char := (toString d.digits).toList

/-- The power of ten of the leading digit. -/
def leading (d : Decimal) : Int := (d.figures.length : Int) - 1 + d.exponent

def positional (d : Decimal) : List Char :=
  let ds := d.figures
  if 0 ≤ d.exponent then ds ++ List.replicate d.exponent.toNat '0'
  else
    let after := (-d.exponent).toNat
    if after < ds.length then
      ds.take (ds.length - after) ++ '.' :: ds.drop (ds.length - after)
    else '0' :: '.' :: (List.replicate (after - ds.length) '0' ++ ds)

def scientific (d : Decimal) : List Char :=
  let tail := match d.figures with
    | [] => []
    | [x] => [x]
    | x :: y :: rest => x :: '.' :: y :: rest
  tail ++ 'e' :: (toString d.leading).toList

end Decimal

structure NumberStyle where
  exponential : Float → Decimal → Bool
  keepsPoint : Bool
  signsZero : Bool

namespace NumberStyle

def write (style : NumberStyle) (x : Float) : String :=
  match Binary64.ofFloat? x with
  | none => if x.isNaN then "NaN" else if x < 0.0 then "-inf" else "inf"
  | some b =>
    let d := Decimal.shortest b.mantissa b.exponent
    let shown := b.negative && (style.signsZero || b.mantissa != 0)
    let body :=
      if b.mantissa ≠ 0 && style.exponential x.abs d then d.scientific
      else if style.keepsPoint && decide (0 ≤ d.exponent) then d.positional ++ ['.', '0']
      else d.positional
    String.ofList (if shown then '-' :: body else body)

/-- Messages never use an exponent. -/
def message : NumberStyle := ⟨fun _ _ => false, false, true⟩

/-- Directives show small and large magnitudes with an exponent: below `10 ^ -4` or from `10 ^ 16`. -/
def detailed : NumberStyle := ⟨fun _ d => d.leading < -4 || 16 ≤ d.leading, true, true⟩

/-- Script text turns to an exponent above `9999999827968` and below the single-precision `1e-13`. -/
def script : NumberStyle :=
  ⟨fun x _ => x > 9999999827968.0 || x < Float.ofBits 0x3d3c25c260000000, true, false⟩

end NumberStyle

/-- A whole number of seconds or more, written without a fraction. -/
def wholeText (x : Float) : String :=
  match Binary64.ofFloat? x with
  | none => NumberStyle.message.write x
  | some b =>
    let magnitude := nearestEven (b.mantissa * twoTo b.exponent.toNat) (twoTo (-b.exponent).toNat)
    (if b.negative then "-" else "") ++ toString magnitude

end SpriteStage

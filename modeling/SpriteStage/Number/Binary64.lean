import SpriteStage.Number.Power

/-!
Doubles taken apart exactly. A finite double is `± mantissa · 2 ^ exponent`; the remainder of two
such numbers and the nearest whole count of nanoseconds are then questions about natural numbers.
-/

namespace SpriteStage

/-- A finite double as `± mantissa · 2 ^ exponent`. -/
structure Binary64 where
  negative : Bool
  mantissa : Nat
  exponent : Int
  deriving DecidableEq, Repr

namespace Binary64

/-- Reads the three fields of a double's word; `none` for infinities and NaN. -/
def ofBits? (word : Nat) : Option Binary64 :=
  let field : Nat := word / twoTo 52 % twoTo 11
  let fraction : Nat := word % twoTo 52
  let negative := decide (word / twoTo 63 % 2 = 1)
  if field = 2047 then none
  else if field = 0 then some ⟨negative, fraction, -1074⟩
  else some ⟨negative, twoTo 52 + fraction, (field : Int) - 1075⟩

def ofFloat? (x : Float) : Option Binary64 := ofBits? x.toBits.toNat

/-- The word of a number that a double holds exactly; magnitudes beyond the range become infinite. -/
def toBits (x : Binary64) : Nat :=
  let sign := if x.negative then twoTo 63 else 0
  if x.mantissa = 0 then sign
  else
    let unit := max ((Nat.log2 x.mantissa : Int) + x.exponent - 52) (-1074)
    let significand :=
      if unit ≤ x.exponent then x.mantissa * twoTo (x.exponent - unit).toNat
      else x.mantissa / twoTo (unit - x.exponent).toNat
    if significand < twoTo 52 then sign + significand
    else if 972 ≤ unit then sign + 2047 * twoTo 52
    else sign + (unit + 1075).toNat * twoTo 52 + (significand - twoTo 52)

def toFloat (x : Binary64) : Float := Float.ofBits (UInt64.ofNat x.toBits)

/-- What is left of `x` after taking away as many whole `y` as fit, with the sign of `x`. -/
def remainder (x y : Binary64) : Binary64 :=
  let unit := min x.exponent y.exponent
  let whole := x.mantissa * twoTo (x.exponent - unit).toNat
  let step := y.mantissa * twoTo (y.exponent - unit).toNat
  ⟨x.negative, whole % step, unit⟩

theorem remainder_negative (x y : Binary64) : (remainder x y).negative = x.negative := rfl

theorem remainder_mantissa_lt {x y : Binary64} (h : 0 < y.mantissa) :
    (remainder x y).mantissa <
      y.mantissa * twoTo (y.exponent - min x.exponent y.exponent).toNat :=
  Nat.mod_lt _ (Nat.mul_pos h (twoTo_pos _))

end Binary64

def remainder (x y : Float) : Float :=
  match Binary64.ofFloat? x, Binary64.ofFloat? y with
  | some a, some b => if b.mantissa = 0 then 0.0 / 0.0 else (a.remainder b).toFloat
  | some _, none => if y.isNaN then y else x
  | none, _ => 0.0 / 0.0

/-- The whole number nearest to `num / den`; a half goes to the even neighbour. -/
def nearestEven (num den : Nat) : Nat :=
  let whole := num / den
  let rest := num % den
  if 2 * rest < den then whole
  else if den < 2 * rest then whole + 1
  else whole + whole % 2

theorem nearestEven_one (num : Nat) : nearestEven num 1 = num := by
  simp [nearestEven, Nat.mod_one]

end SpriteStage

import SpriteStage.Number.Binary64

/-!
The shortest decimal that reads back as a given double. Among the decimals of one length the one
nearest to the double is taken, and an exact half goes away from zero.
-/

namespace SpriteStage

/-- The number `digits · 10 ^ exponent`. -/
structure Decimal where
  digits : Nat
  exponent : Int
  deriving DecidableEq, Repr

namespace Decimal

/-- A comparison of `a · 2 ^ i` with `b · 10 ^ j` in whole numbers. -/
def cross (a : Nat) (i : Int) (b : Nat) (j : Int) : Nat × Nat :=
  (a * twoTo i.toNat * tenTo (-j).toNat, b * tenTo j.toNat * twoTo (-i).toNat)

/-- The reals that round to `mantissa · 2 ^ exponent`, as quarters of its unit. -/
structure Span where
  low : Nat
  middle : Nat
  high : Nat
  closed : Bool

/-- Below the least significand of a binade the doubles lie twice as close. -/
def Span.around (mantissa : Nat) (exponent : Int) : Span where
  low := if mantissa = twoTo 52 ∧ -1074 < exponent then 4 * mantissa - 1 else 4 * mantissa - 2
  middle := 4 * mantissa
  high := 4 * mantissa + 2
  closed := mantissa % 2 = 0

/-- Whether `digits · 10 ^ place` lies in the span, whose quarters are `2 ^ unit`. -/
def Span.holds (s : Span) (unit : Int) (digits : Nat) (place : Int) : Bool :=
  let (low, x) := cross s.low unit digits place
  let (high, y) := cross s.high unit digits place
  if s.closed then decide (low ≤ x ∧ y ≤ high) else decide (low < x ∧ y < high)

/-- The greatest `t` with `10 ^ t ≤ mantissa · 2 ^ exponent`, for a positive mantissa. -/
def magnitude (mantissa : Nat) (exponent : Int) : Int :=
  let guess := ((Nat.log2 mantissa : Int) + exponent) * 30103 / 100000
  let reaches (t : Int) : Bool :=
    let (value, power) := cross mantissa exponent 1 t
    decide (power ≤ value)
  if reaches (guess + 1) then guess + 1 else if reaches guess then guess else guess - 1

/-- The neighbour of the value on the grid of `10 ^ place` that lies in the span, if one does. -/
def onGrid? (s : Span) (unit : Int) (place : Int) : Option Nat :=
  let (value, step) := cross s.middle unit 1 place
  let below := value / step
  let nearer := if 2 * (value % step) < step then below else below + 1
  let farther := if nearer = below then below + 1 else below
  if s.holds unit nearer place then some nearer
  else if s.holds unit farther place then some farther
  else none

/-- Takes trailing zeros of the digits into the exponent. -/
def trim : Nat → Decimal → Decimal
  | 0, d => d
  | fuel + 1, d =>
    if d.digits ≠ 0 ∧ d.digits % 10 = 0 then trim fuel ⟨d.digits / 10, d.exponent + 1⟩ else d

/-- Tries grids of one digit, two digits and so on. -/
def search (s : Span) (unit : Int) : Nat → Int → Decimal
  | 0, place => ⟨(onGrid? s unit place).getD 0, place⟩
  | more + 1, place =>
    match onGrid? s unit place with
    | some digits => ⟨digits, place⟩
    | none => search s unit more (place - 1)

/-- The shortest decimal that reads back as `mantissa · 2 ^ exponent`. Seventeen digits suffice. -/
def shortest (mantissa : Nat) (exponent : Int) : Decimal :=
  if mantissa = 0 then ⟨0, 0⟩
  else
    let s := Span.around mantissa exponent
    trim 20 (search s (exponent - 2) 17 (magnitude mantissa exponent))

end Decimal

end SpriteStage

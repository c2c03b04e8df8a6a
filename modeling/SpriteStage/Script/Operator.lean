import SpriteStage.Number.Binary64
import SpriteStage.Script.Fault

/-!
What operators do to values. Whole numbers have 64 bits and never wrap around; beside a float a
whole number counts as a float. Operators on simple values are known before a script runs
(`BinaryOp.onSimple`); those on lists and maps may compare what these hold, and may fail there.
-/

namespace SpriteStage.Script

def inRange (n : Int) : Bool := -(twoTo 63 : Int) ≤ n && n < twoTo 63

/-- A whole number of 64 bits with the bits of any whole number. -/
def wrapped (n : Int) : Int := Int.bmod n (twoTo 64)

/-- Where the left value stands in relation to the right one, if both are of one ordered kind. -/
def order? : Value → Value → Option Ordering
  | .int a, .int b => some (compare a b)
  | .char a, .char b => some (compare a b)
  | .text a, .text b => some (compare a b)
  | .char a, .text b => some (compare a.toString b)
  | .text a, .char b => some (compare a b.toString)
  | _, _ => none

def floats? : Value → Value → Option (Float × Float)
  | .float a, .float b => some (a, b)
  | .int a, .float b => some (Float.ofInt a, b)
  | .float a, .int b => some (a, Float.ofInt b)
  | _, _ => none

/-- How far floats may be apart that count as equal: the distance from one to the next float. -/
def tolerance : Float := Float.ofBits 0x3cb0000000000000

/-- Whether values of these two kinds are told apart without looking further. -/
def unlike (a b : Value) : Bool := a.fullTypeName != b.fullTypeName

namespace BinaryOp

def accepts : BinaryOp → Ordering → Bool
  | .eq, o => o = .eq
  | .ne, o => o ≠ .eq
  | .lt, o => o.isLT
  | .le, o => o.isLE
  | .gt, o => o.isGT
  | .ge, o => o.isGE
  | _, _ => false

def compares : BinaryOp → Bool
  | .eq | .ne | .lt | .le | .gt | .ge => true
  | _ => false

def onFloats : BinaryOp → Float → Float → Option Value
  | .add, a, b => some (.float (a + b))
  | .sub, a, b => some (.float (a - b))
  | .mul, a, b => some (.float (a * b))
  | .div, a, b => some (.float (a / b))
  | .rem, a, b => some (.float (SpriteStage.remainder a b))
  | .pow, a, b => some (.float (Float.pow a b))
  | .eq, a, b => some (.bool ((a - b).abs ≤ tolerance))
  | .ne, a, b => some (.bool ((a - b).abs > tolerance))
  | .lt, a, b => some (.bool (a < b))
  | .le, a, b => some (.bool (a ≤ b))
  | .gt, a, b => some (.bool (a > b))
  | .ge, a, b => some (.bool (a ≥ b))
  | _, _, _ => none

def bounded (op : BinaryOp) (a b n : Int) : Except Fault Value :=
  if inRange n then .ok (.int n) else .error (.overflow op a b)

/-- A power, with an exponent of 32 bits. Every base but 0, 1 and -1 leaves 64 bits by the power of
64, and these three have the same powers for all even exponents and for all odd ones. -/
def power (a b : Int) : Except Fault Value :=
  if b < 0 then .error (.negativePower a b)
  else if twoTo 32 ≤ b then .error (.overflow .pow a b)
  else if b < 64 ∨ a.natAbs ≤ 1 then bounded .pow a b (Int.pow a (if b < 64 then b else 62 + b % 2).toNat)
  else .error (.overflow .pow a b)

/-- The bits of a number moved up by some places, or down by a negative number of places. -/
def shifted (a places : Int) : Int :=
  if 64 ≤ places then 0
  else if 0 ≤ places then wrapped (a * twoTo places.toNat)
  else if places ≤ -64 then if a < 0 then -1 else 0
  else a.fdiv (twoTo (-places).toNat)

/-- A number by the bits of two others. -/
def bitwise (f : Nat → Nat → Nat) (a b : Int) : Int :=
  wrapped (f (a.emod (twoTo 64)).toNat (b.emod (twoTo 64)).toNat)

/-- Operators on whole numbers. Quotients are rounded toward zero. -/
def onInts : BinaryOp → Int → Int → Option (Except Fault Value)
  | .add, a, b => some (bounded .add a b (a + b))
  | .sub, a, b => some (bounded .sub a b (a - b))
  | .mul, a, b => some (bounded .mul a b (a * b))
  | .div, a, b =>
    some (if b = 0 then .error (.divisionByZero a) else bounded .div a b (a.tdiv b))
  | .rem, a, b =>
    some (if b = 0 ∨ ¬ inRange (a.tdiv b) then .error (.remainder a b) else .ok (.int (a.tmod b)))
  | .pow, a, b => some (power a b)
  | .shiftLeft, a, b => some (.ok (.int (shifted a b)))
  | .shiftRight, a, b => some (.ok (.int (shifted a (-b))))
  | .conj, a, b => some (.ok (.int (bitwise Nat.land a b)))
  | .disj, a, b => some (.ok (.int (bitwise Nat.lor a b)))
  | .differ, a, b => some (.ok (.int (bitwise Nat.xor a b)))
  | .upTo, a, b => some (.ok (.range a b false))
  | .through, a, b => some (.ok (.range a b true))
  | _, _, _ => none

/-- Operators on truth values, which have no order. -/
def onBools : BinaryOp → Bool → Bool → Option Value
  | .conj, a, b => some (.bool (a && b))
  | .disj, a, b => some (.bool (a || b))
  | .differ, a, b => some (.bool (a != b))
  | .eq, a, b => some (.bool (a == b))
  | .ne, a, b => some (.bool (a != b))
  | .lt, _, _ | .le, _, _ | .gt, _, _ | .ge, _, _ => some (.bool false)
  | _, _, _ => none

/-- Sums, differences and parts of texts and characters. -/
def onTexts : BinaryOp → Value → Value → Option Value
  | .add, .text a, .text b => some (.text (a ++ b))
  | .add, .text a, .char b => some (.text (a.push b))
  | .add, .char a, .text b => some (.text (a.toString ++ b))
  | .add, .char a, .char b => some (.text (a.toString ++ b.toString))
  | .add, .text a, .unit => some (.text a)
  | .add, .unit, .text b => some (.text b)
  | .sub, .text a, .text b => some (.text (a.replace b ""))
  | .sub, .text a, .char b => some (.text (a.replace b.toString ""))
  | .contains, .text a, .text b => some (.bool (b.isEmpty || (a.splitOn b).length > 1))
  | .contains, .text a, .char b => some (.bool (a.toList.contains b))
  | .contains, .map fields, .text name => some (.bool (Fields.get? fields name).isSome)
  | _, _, _ => none

/-- Whether a number lies in a range, and whether ranges of one kind are the same. -/
def onRanges : BinaryOp → Value → Value → Option Value
  | .contains, .range first last closed, .int n =>
    some (.bool (first ≤ n && (if closed then n ≤ last else n < last)))
  | .eq, .range a b c, .range a' b' c' =>
    if c = c' then some (.bool (a == a' && b == b')) else some (.bool false)
  | .ne, .range a b c, .range a' b' c' =>
    if c = c' then some (.bool (a != a' || b != b')) else some (.bool true)
  | _, _, _ => none

/-- The unit is equal to itself and in no order; values of different kinds are unequal and in no
order. -/
def onOthers (op : BinaryOp) (a b : Value) : Option Value :=
  if !op.compares then none
  else
    match a, b with
    | .unit, .unit => some (.bool (op = .eq))
    | _, _ => if unlike a b then some (.bool (op = .ne)) else none

/-- What an operator does to simple values; none if it takes more than that. -/
def onSimple (op : BinaryOp) (a b : Value) : Option (Except Fault Value) :=
  match a, b with
  | .int m, .int n =>
    match op.onInts m n with
    | some result => some result
    | none => if op.compares then some (.ok (.bool (op.accepts (compare m n)))) else none
  | .bool p, .bool q => (op.onBools p q).map .ok
  | _, _ =>
    match floats? a b with
    | some (x, y) => (op.onFloats x y).map .ok
    | none =>
      match onTexts op a b <|> onRanges op a b with
      | some value => some (.ok value)
      | none =>
        match order? a b with
        | some o => if op.compares then some (.ok (.bool (op.accepts o))) else none
        | none => (onOthers op a b).map .ok

def missing {α : Type} (op : BinaryOp) (a b : Value) : Except Fault α :=
  .error (.noFunction op.symbol [a, b])

end BinaryOp

def truth? : Option (Except Fault Value) → Option Bool
  | some (.ok (.bool b)) => some b
  | _ => none

mutual

def equal : Value → Value → Except Fault Bool
  | .list as, .list bs => if as.length = bs.length then allEqual as bs else .ok false
  | .map as, .map bs => if as.length = bs.length then fieldsEqual as bs else .ok false
  | a, b =>
    match truth? (BinaryOp.eq.onSimple a b) with
    | some answer => .ok answer
    | none => BinaryOp.eq.missing a b

def allEqual : List Value → List Value → Except Fault Bool
  | a :: as, b :: bs =>
    match equal a b with
    | .ok true => allEqual as bs
    | other => other
  | _, _ => .ok true

def fieldsEqual : List (String × Value) → List (String × Value) → Except Fault Bool
  | (name, a) :: as, (other, b) :: bs =>
    if name = other then
      match equal a b with
      | .ok true => fieldsEqual as bs
      | answer => answer
    else .ok false
  | _, _ => .ok true

end

def holds (value : Value) : List Value → Except Fault Bool
  | [] => .ok false
  | item :: items =>
    match equal item value with
    | .ok false => holds value items
    | answer => answer

namespace BinaryOp

/-- What an operator does to two values. A text takes up the text of anything. -/
def apply (op : BinaryOp) (a b : Value) : Except Fault Value :=
  match op.onSimple a b with
  | some result => result
  | none =>
    match op, a, b with
    | .eq, _, _ => (equal a b).map .bool
    | .ne, .list _, .list _ | .ne, .map _, .map _ => (equal a b).map fun same => .bool (!same)
    | .add, .text s, _ => .ok (.text (s ++ b.printed))
    | .add, _, .text s => .ok (.text (a.printed ++ s))
    | .add, .list as, .list bs => .ok (.list (as ++ bs))
    | .add, .map as, .map bs =>
      .ok (.map (bs.foldl (fun fields (name, value) => Fields.set name value fields) as))
    | _, _, _ => op.missing a b

/-- Combines the value in a place with another; a list takes up the new value. -/
def combine (op : BinaryOp) (old value : Value) : Except Fault Value :=
  match op, old, value with
  | .add, .list items, .list more => .ok (.list (items ++ more))
  | .add, .list items, _ => .ok (.list (items ++ [value]))
  | _, _, _ => op.apply old value

theorem bounded_of_inRange {op : BinaryOp} {a b n : Int} (h : inRange n = true) :
    bounded op a b n = .ok (.int n) := by
  simp [bounded, h]

theorem apply_of_onSimple {op : BinaryOp} {a b : Value} {result : Except Fault Value}
    (h : op.onSimple a b = some result) : op.apply a b = result := by
  simp [apply, h]

end BinaryOp

namespace UnaryOp

def apply (op : UnaryOp) (value : Value) : Except Fault Value :=
  match op, value with
  | .minus, .int n => if inRange (-n) then .ok (.int (-n)) else .error .negation
  | .minus, .float x => .ok (.float (-x))
  | .plus, .int n => .ok (.int n)
  | .plus, .float x => .ok (.float x)
  | .negate, .bool b => .ok (.bool (!b))
  | _, _ => .error (.noFunction op.symbol [value])

end UnaryOp

end SpriteStage.Script

import SpriteStage.Number.Binary64
import SpriteStage.Script.Part
import SpriteStage.Script.Routine.Basic

/-!
Routines on numbers, and the larger and the smaller of two values.
-/

namespace SpriteStage.Script.Routine

/-- The whole part of a float, as a number of 64 bits. What is no number counts as 0, and the least
float above all numbers of 64 bits as the largest of them. -/
def truncate (x : Float) : Except Fault Value :=
  match Binary64.ofFloat? x with
  | none => if x.isNaN then .ok (.int 0) else .error (.truncation x)
  | some b =>
    let size := b.mantissa * twoTo b.exponent.toNat / twoTo (-b.exponent).toNat
    let n : Int := if b.negative then -size else size
    if inRange n then .ok (.int n)
    else if n = twoTo 63 then .ok (.int (n - 1))
    else .error (.truncation x)

/-- The digits of a number of 64 bits in a base of at most 16. -/
def digits (base : Nat) (n : Int) : String :=
  String.ofList (Nat.toDigits base (n.emod (twoTo 64)).toNat)

def onInt (n : Int) (name : String) (arguments : List Value) : Option (Inquiry Effect) :=
  match name, arguments with
  | "abs", [] =>
    if inRange (-n) then pure (.int n.natAbs) else fail (.magnitude n)
  | "sign", [] => pure (.int n.sign)
  | "to_int", [] => pure (.int n)
  | "to_float", [] => pure (.float (Float.ofInt n))
  | "is_zero", [] | "is_odd", [] | "is_even", [] => (property? name (.int n)).bind pure
  | "to_hex", [] => pure (.text (digits 16 n))
  | "to_octal", [] => pure (.text (digits 8 n))
  | "to_binary", [] => pure (.text (digits 2 n))
  | "range", [.int last] => pure (.range n last false)
  | "range", [.int last, .int step] =>
    if step = 0 then fail (.calling "range" .stepOfZero) else pure (.steps n last step)
  | _, _ => none

def function? : String → Option (Float → Float)
  | "abs" => some Float.abs
  | "sqrt" => some Float.sqrt
  | "exp" => some Float.exp
  | "ln" => some Float.log
  | "log" => some Float.log10
  | "sin" => some Float.sin
  | "cos" => some Float.cos
  | "tan" => some Float.tan
  | "asin" => some Float.asin
  | "acos" => some Float.acos
  | "atan" => some Float.atan
  | "sinh" => some Float.sinh
  | "cosh" => some Float.cosh
  | "tanh" => some Float.tanh
  | _ => none

def onFloat (x : Float) (name : String) (arguments : List Value) : Option (Inquiry Effect) :=
  match name, arguments with
  | "to_int", [] => settle (truncate x)
  | "sign", [] =>
    if x.isNaN then fail .signOfNaN
    else pure (.int (if x < 0.0 then -1 else if 0.0 < x then 1 else 0))
  | "atan", [.float y] => pure (.float (Float.atan2 x y))
  | "log", [.float base] => pure (.float (Float.log x / Float.log base))
  | _, [] =>
    match function? name with
    | some f => pure (.float (f x))
    | none => (property? name (.float x)).bind pure
  | _, _ => none

/-- The larger or the smaller of two values of a kind. Of two numbers of which one is a float, it is a
float. -/
def extreme (largest : Bool) (a b : Value) : Option Value :=
  let op : BinaryOp := if largest then .ge else .le
  match floats? a b with
  | some (x, y) =>
    match op.onFloats x y with
    | some (.bool true) => some (.float x)
    | _ => some (.float y)
  | none =>
    match a, b with
    | .int _, .int _ | .char _, .char _ | .text _, .text _ =>
      (order? a b).map fun o => if op.accepts o then a else b
    | _, _ => none

def onNumber (name : String) (arguments : List Value) : Option (Inquiry Effect) :=
  match name, arguments with
  | "max", [a, b] => (extreme true a b).bind pure
  | "min", [a, b] => (extreme false a b).bind pure
  | _, .int n :: rest => onInt n name rest
  | _, .float x :: rest => onFloat x name rest
  | "to_int", [.char c] => pure (.int c.toNat)
  | _, _ => none

end SpriteStage.Script.Routine

import SpriteStage.Number.Reading
import SpriteStage.Script.Token.Basic
import SpriteStage.Toml.Literal

/-!
Numbers in scripts. Underscores may stand anywhere after the first digit and mean nothing.
-/

namespace SpriteStage.Script.Token

def digitsOf (base : Nat) (digits : List Char) : Nat :=
  digits.foldl (fun n c => base * n + Toml.digit c) 0

/-- The figures, the point and the power in front of a text, and what follows them. A point belongs
to the number if a digit follows, or something that can be neither a name nor a further point; the
mark of a power does if digits or a sign follow. There is one point at most, before the power. -/
def numeral : Bool → Bool → List Char → List Char × List Char
  | _, _, [] => ([], [])
  | pointed, powered, c :: rest =>
    let joined (more : List Char) (after : List Char × List Char) : List Char × List Char :=
      (more ++ after.1, after.2)
    if c = '_' then numeral pointed powered rest
    else if c.isDigit then joined [c] (numeral pointed powered rest)
    else if c = '.' ∧ ¬ pointed ∧ ¬ powered then
      match rest.head? with
      | none => ([], c :: rest)
      | some d =>
        if d.isDigit then joined ['.'] (numeral true powered rest)
        else if d = '.' ∨ isWordStart d then ([], c :: rest)
        else joined ['.', '0'] (numeral true powered rest)
    else if (c = 'e' ∨ c = 'E') ∧ ¬ powered then
      match rest with
      | [] => ([], c :: rest)
      | d :: more =>
        if d.isDigit then joined ['e'] (numeral pointed true (d :: more))
        else if d = '+' ∨ d = '-' then joined ['e', d] (numeral pointed true more)
        else ([], c :: d :: more)
    else ([], c :: rest)
  termination_by _ _ cs => cs.length

def power? : List Char → Option Int
  | [] => some 0
  | ['e', '-'] | ['e', '+'] => none
  | 'e' :: '-' :: digits => some (-(digitsOf 10 digits : Int))
  | 'e' :: '+' :: digits => some (digitsOf 10 digits)
  | _ :: digits => some (digitsOf 10 digits)

/-- A number in decimal. A whole number that does not fit into 64 bits is read as a float. -/
def decimal? (negative : Bool) (cs : List Char) : Option (Token × List Char) :=
  let (written, rest) := numeral false false cs
  let figures := written.takeWhile (· ≠ 'e')
  let power := written.dropWhile (· ≠ 'e')
  let whole := figures.takeWhile (· ≠ '.')
  let n : Int := if negative then -(digitsOf 10 whole : Int) else digitsOf 10 whole
  if whole.length = written.length ∧ -(twoTo 63 : Int) ≤ n ∧ n < twoTo 63 then some (.int n, rest)
  else
    (power? power).map fun exponent =>
      let fraction := (figures.dropWhile (· ≠ '.')).drop 1
      let x := (Decimal.ofFigures whole fraction exponent).toFloat
      (.float (if negative then -x else x), rest)

/-- A number in another base. The digits that may stand in it are not all digits of the base. -/
def based? (base : Nat) (cs : List Char) : Option (Token × List Char) :=
  let isDigit (c : Char) : Bool := if base = 16 then Toml.isHex c else c.isDigit
  let isPart (c : Char) : Bool := isDigit c || c = '_'
  let digits := (cs.takeWhile isPart).filter (· ≠ '_')
  let n := digitsOf base digits
  if digits.isEmpty ∨ digits.any (fun c => base ≤ Toml.digit c) ∨ twoTo 64 ≤ n then none
  else some (.int (Int.bmod n (twoTo 64)), cs.dropWhile isPart)

def base? : Char → Option Nat
  | 'x' | 'X' => some 16
  | 'o' | 'O' => some 8
  | 'b' | 'B' => some 2
  | _ => none

def number? (cs : List Char) : Option (Token × List Char) :=
  match cs with
  | '0' :: rest =>
    match rest.dropWhile (· = '_') with
    | c :: digits =>
      match base? c with
      | some base => based? base digits
      | none => decimal? false cs
    | [] => decimal? false cs
  | _ => decimal? false cs

end SpriteStage.Script.Token

import SpriteStage.Number.Reading
import SpriteStage.Toml.Basic

/-!
Unquoted values: numbers, truth values, dates and times of day.
-/

namespace SpriteStage.Toml

def isBinary (c : Char) : Bool := c = '0' || c = '1'

def isOctal (c : Char) : Bool := '0' ≤ c && c ≤ '7'

def digit (c : Char) : Nat :=
  if c.isDigit then c.toNat - '0'.toNat
  else if 'a' ≤ c && c ≤ 'f' then c.toNat - 'a'.toNat + 10
  else c.toNat - 'A'.toNat + 10

def isHex (c : Char) : Bool := c.isDigit || ('a' ≤ c && c ≤ 'f') || ('A' ≤ c && c ≤ 'F')

/-- The digits of a run in which single underscores stand between digits only. -/
def ungroup (isDigit : Char → Bool) : Bool → List Char → Option (List Char)
  | after, [] => if after then some [] else none
  | after, c :: rest =>
    if c = '_' then if after then ungroup isDigit false rest else none
    else if isDigit c then (ungroup isDigit true rest).map (c :: ·)
    else none

def number (base : Nat) (digits : List Char) : Nat :=
  digits.foldl (fun n c => base * n + digit c) 0

/-- A whole number in decimal; zero is the only one that starts with a zero. -/
def whole? (cs : List Char) : Option (List Char) :=
  (ungroup Char.isDigit false cs).bind fun digits =>
    match digits with
    | '0' :: _ :: _ => none
    | _ => some digits

/-- Whether a sign stands in front, and what follows it. -/
def signed : List Char → Bool × List Char
  | '-' :: rest => (true, rest)
  | '+' :: rest => (false, rest)
  | cs => (false, cs)

def bounded (n : Int) : Option Toml :=
  if -(twoTo 63 : Int) ≤ n ∧ n < twoTo 63 then some (.int n) else none

def int? : List Char → Option Toml
  | '0' :: 'x' :: cs => (ungroup isHex false cs).bind (bounded <| number 16 ·)
  | '0' :: 'o' :: cs => (ungroup isOctal false cs).bind (bounded <| number 8 ·)
  | '0' :: 'b' :: cs => (ungroup isBinary false cs).bind (bounded <| number 2 ·)
  | cs =>
    let (negative, cs) := signed cs
    (whole? cs).bind fun digits =>
      bounded (if negative then -(number 10 digits : Int) else number 10 digits)

def power? (cs : List Char) : Option Int :=
  let (negative, cs) := signed cs
  (ungroup Char.isDigit false cs).map fun digits =>
    if negative then -(number 10 digits : Int) else number 10 digits

/-- A number with a fraction, an exponent or both. One above the range is refused. -/
def float? (cs : List Char) : Option Toml :=
  let (negative, cs) := signed cs
  let give (x : Float) : Option Toml :=
    if negative then some (.float (-x)) else if x.isInf then none else some (.float x)
  if cs = ['i', 'n', 'f'] then some (.float (if negative then -1.0 / 0.0 else 1.0 / 0.0))
  else if cs = ['n', 'a', 'n'] then some (.float (0.0 / 0.0))
  else
    let isMark (c : Char) : Bool := c = 'e' || c = 'E'
    let figures := cs.takeWhile fun c => !isMark c
    let whole := figures.takeWhile (· ≠ '.')
    let power := match cs.dropWhile fun c => !isMark c with
      | [] => some 0
      | _ :: cs => power? cs
    let fraction := match figures.dropWhile (· ≠ '.') with
      | [] => if cs.any isMark then some [] else none
      | _ :: cs => ungroup Char.isDigit false cs
    match whole? whole, fraction, power with
    | some whole, some fraction, some power =>
      give (Decimal.ofFigures whole fraction power).toFloat
    | _, _, _ => none

def pair? : List Char → Option Nat
  | [a, b] => if a.isDigit && b.isDigit then some (number 10 [a, b]) else none
  | _ => none

def isLeap (year : Nat) : Bool := year % 4 = 0 && (year % 100 != 0 || year % 400 = 0)

def daysIn (year month : Nat) : Nat :=
  if month = 2 then if isLeap year then 29 else 28
  else if month = 4 ∨ month = 6 ∨ month = 9 ∨ month = 11 then 30
  else 31

/-- A date such as `1979-05-27`, given as its ten characters. -/
def isDate (cs : List Char) : Bool :=
  match cs with
  | [a, b, c, d, '-', e, f, '-', g, h] =>
    match pair? [a, b], pair? [c, d], pair? [e, f], pair? [g, h] with
    | some century, some year, some month, some day =>
      1 ≤ month && month ≤ 12 && 1 ≤ day && day ≤ daysIn (100 * century + year) month
    | _, _, _, _ => false
  | _ => false

/-- The offset from universal time that may end a date with a time of day. -/
def isOffset : List Char → Bool
  | [] => true
  | ['Z'] => true
  | ['z'] => true
  | [sign, a, b, ':', c, d] =>
    (sign = '+' || sign = '-') &&
      (pair? [a, b]).any (· ≤ 23) && (pair? [c, d]).any (· ≤ 59)
  | _ => false

/-- A time of day such as `07:32:00.5`, with an offset if one is allowed. -/
def isTime (offset : Bool) (cs : List Char) : Bool :=
  match cs with
  | a :: b :: ':' :: c :: d :: ':' :: e :: f :: rest =>
    let ends (cs : List Char) : Bool := if offset then isOffset cs else cs.isEmpty
    (pair? [a, b]).any (· ≤ 23) && (pair? [c, d]).any (· ≤ 59) && (pair? [e, f]).any (· ≤ 60) &&
      match rest with
      | '.' :: rest =>
        let fraction := rest.takeWhile Char.isDigit
        !fraction.isEmpty && ends (rest.dropWhile Char.isDigit)
      | rest => ends rest
  | _ => false

/-- A date, a time of day, or a date followed by a time of day. -/
def isMoment (cs : List Char) : Bool :=
  isTime false cs ||
    (isDate (cs.take 10) &&
      match cs.drop 10 with
      | [] => true
      | mark :: time => (mark = 'T' || mark = 't' || mark = ' ') && isTime true time)

def literal? (cs : List Char) : Option Toml :=
  if cs = ['t', 'r', 'u', 'e'] then some (.bool true)
  else if cs = ['f', 'a', 'l', 's', 'e'] then some (.bool false)
  else if isMoment cs then some .moment
  else (float? cs).or (int? cs)

/-- Characters that an unquoted value may hold. -/
def isLiteral (c : Char) : Bool :=
  c.isAlphanum || c = '_' || c = '-' || c = '+' || c = '.' || c = ':'

/-- The characters of an unquoted value. One space may stand between a date and a time of day. -/
def literalRun (cs : List Char) : List Char × List Char :=
  let run := cs.takeWhile isLiteral
  let rest := cs.dropWhile isLiteral
  match rest with
  | ' ' :: c :: _ =>
    if isDate run && c.isDigit then
      (run ++ ' ' :: (rest.drop 1).takeWhile isLiteral, (rest.drop 1).dropWhile isLiteral)
    else (run, rest)
  | _ => (run, rest)

end SpriteStage.Toml

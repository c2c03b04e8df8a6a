import SpriteStage.Script.Token.Number
import SpriteStage.Script.Token.Quotation

/-!
How a script falls into words. A word is taken off the front of the characters; blanks and comments
between words are passed over.
-/

namespace SpriteStage.Script.Token

/-- Passes over blanks and comments. A comment between slash and star may hold others, and ends with
the script at the latest. -/
def skip : Nat → Bool → List Char → List Char
  | 0, false, cs =>
    match cs with
    | [] => []
    | '/' :: '/' :: rest => skip 0 true rest
    | '/' :: '*' :: rest => skip 1 false rest
    | c :: rest => if Text.isBlank c then skip 0 false rest else c :: rest
  | 0, true, cs =>
    match cs with
    | [] => []
    | c :: rest => if c = '\n' ∨ c = '\r' then skip 0 false rest else skip 0 true rest
  | depth + 1, _, cs =>
    match cs with
    | [] => []
    | '/' :: '*' :: rest => skip (depth + 2) false rest
    | '*' :: '/' :: rest => skip depth false rest
    | _ :: rest => skip (depth + 1) false rest
  termination_by _ _ cs => cs.length

def symbol? (cs : List Char) : Option (Token × List Char) :=
  let candidates := [3, 2, 1].map fun n => String.ofList (cs.take n)
  let fits (s : String) : Bool :=
    (symbols.contains s && !(s == "!in" && (cs[3]?).any isWord)) || nonSymbols.contains s
  match candidates.find? fits with
  | none => none
  | some s => if symbols.contains s then some (.symbol s, cs.drop s.length) else none

/-- The column of a character, counted from one, by what stands in front of it. -/
def columnAfter (before : List Char) : Nat :=
  (before.reverse.takeWhile (· ≠ '\n')).length + 1

def quoted? (column : Nat) : List Char → Option (Token × List Char)
  | '"' :: rest =>
    (quotation? '"' column .plain 0 [] rest).map fun (s, rest) => (.text (String.ofList s), rest)
  | '\x27' :: '\x27' :: _ => none
  | '\x27' :: rest =>
    match quotation? '\x27' column .plain 0 [] rest with
    | some ([c], rest) => some (.char c, rest)
    | _ => none
  | cs =>
    let signs := (cs.takeWhile (· = '#')).length
    (raw? signs [] (cs.drop (signs + 1))).map fun (s, rest) => (.text (String.ofList s), rest)

def startsQuotation (cs : List Char) : Bool :=
  match cs with
  | '"' :: _ | '\x27' :: _ => true
  | '#' :: _ => (cs.dropWhile (· = '#')).head? = some '"'
  | _ => false

/-- The first word of some characters that are not blank. After a word that expects a value, a minus
belongs to the digits that follow it. -/
def first? (column : Nat) (signed : Bool) (cs : List Char) : Option (Token × List Char) :=
  if startsQuotation cs then quoted? column cs
  else
    match cs with
    | [] => none
    | c :: rest =>
      if c.isDigit then number? cs
      else if signed ∧ c = '-' ∧ (rest.head?).any Char.isDigit then decimal? true rest
      else if isWordStart c then
        (ofWord? (String.ofList (cs.takeWhile isWord))).map fun t => (t, cs.dropWhile isWord)
      else symbol? cs

/-- A piece of a template, and the braces that are open in the templates around what follows. -/
def piece? (outer : List Nat) (cs : List Char) : Option (Token × List Nat × List Char) :=
  (template? [] cs).map fun (s, code, rest) =>
    if code then (.piece (String.ofList s), 0 :: outer, rest)
    else (.text (String.ofList s), outer, rest)

/-- All words of a script, with as much fuel as it has characters. The numbers count the braces that
are open in the code part of each template around. -/
def scan? (source : List Char) : Nat → Bool → List Nat → List Char → Option (List Token)
  | fuel, signed, braces, cs =>
    match fuel, skip 0 false cs with
    | _, [] => some []
    | 0, _ => none
    | fuel + 1, '\x60' :: rest =>
      match piece? braces (templateBody rest) with
      | some (token, braces, rest) => (scan? source fuel false braces rest).map (token :: ·)
      | none => none
    | fuel + 1, c :: rest =>
      let column :=
        if startsQuotation (c :: rest) then
          columnAfter (source.take (source.length - (rest.length + 1)))
        else 0
      match first? column signed (c :: rest) with
      | none => none
      | some (token, rest) =>
        let goOn (braces : List Nat) : Option (List Token) :=
          (scan? source fuel token.expectsValue braces rest).map (token :: ·)
        match token, braces with
        | .symbol "\x7b", depth :: outer | .symbol "#\x7b", depth :: outer =>
          goOn ((depth + 1) :: outer)
        | .symbol "\x7d", depth :: outer =>
          if 1 < depth then goOn ((depth - 1) :: outer)
          else
            match piece? outer rest with
            | some (next, braces, rest) =>
              (scan? source fuel false braces rest).map fun tokens => token :: next :: tokens
            | none => none
        | _, _ => goOn braces

def ofText? (source : String) : Option (List Token) :=
  let cs := source.toList
  scan? cs cs.length true [] cs

end SpriteStage.Script.Token

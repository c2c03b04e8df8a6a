import SpriteStage.Script.Part
import SpriteStage.Script.Routine.Collection
import SpriteStage.Text.Blank

/-!
Routines on texts. A text changes in its place; a character counts as a text of one character where
something is looked for.
-/

namespace SpriteStage.Script.Routine

/-- Where a run of characters stands first, counted from a place. -/
def runPlace (run : List Char) (place : Nat) : List Char → Option Nat
  | [] => if run.isEmpty then some place else none
  | c :: cs => if run.isPrefixOf (c :: cs) then some place else runPlace run (place + 1) cs

/-- The pieces between the places where a run of characters stands. At most so many pieces are made;
the last one holds the rest. `piece` is what has been read of the next one, from the last to the
first. -/
def pieces (run : List Char) : Nat → (piece : List Char) → List Char → List String
  | _, piece, [] => [String.ofList piece.reverse]
  | 0, piece, c :: cs => pieces run 0 (c :: piece) cs
  | left + 1, piece, c :: cs =>
    if run.isPrefixOf (c :: cs) then
      String.ofList piece.reverse :: pieces run left [] ((c :: cs).drop (max 1 run.length))
    else pieces run (left + 1) (c :: piece) cs
  termination_by _ _ cs => cs.length
  decreasing_by
    all_goals simp only [List.length_cons, List.length_drop]
    all_goals omega

/-- The pieces of a text at most; an empty run stands before and after every character. -/
def splitAt (run : String) (count : Nat) (s : String) : List String :=
  if run.isEmpty then
    if count ≤ 1 then [s]
    else if s.length + 2 ≤ count then
      "" :: s.toList.map Char.toString ++ [""]
    else
      let cs := s.toList
      "" :: (cs.take (count - 2)).map Char.toString ++ [String.ofList (cs.drop (count - 2))]
  else pieces run.toList (count - 1) [] s.toList

def words : (word : List Char) → List Char → List String
  | word, [] => if word.isEmpty then [] else [String.ofList word.reverse]
  | word, c :: cs =>
    if Text.isBlank c then
      if word.isEmpty then words [] cs else String.ofList word.reverse :: words [] cs
    else words (c :: word) cs

def trim (s : String) : String :=
  let back (cs : List Char) : List Char := (cs.dropWhile Text.isBlank).reverse
  String.ofList (back (back s.toList))

def run? : Value → Option String
  | .text s => some s
  | .char c => some c.toString
  | _ => none

def texts (parts : List String) : Value := .list (parts.map .text)

/-- What is looked for in a text, with the position from which on. -/
def indexOf (s part : String) (start : Int) : Value :=
  let cs := s.toList
  let n := (counted cs.length start).toNat
  if cs.isEmpty ∨ 0 < start ∧ cs.length ≤ n then .int (-1)
  else
    match runPlace part.toList n (cs.drop n) with
    | some place => .int place
    | none => .int (-1)

/-- A place where a text falls into two. -/
def halves (s : String) (i : Int) : List String :=
  let n := (counted s.length i).toNat
  [String.ofList (s.toList.take n), String.ofList (s.toList.drop n)]

def onText (s : String) (name : String) (arguments : List Value) : Option (Inquiry Effect) :=
  let cs := s.toList
  match name, arguments with
  | "len", [] => pure (.int s.length)
  | "is_empty", [] => pure (.bool s.isEmpty)
  | "bytes", [] => pure (.int s.utf8ByteSize)
  | "get", [.int i] =>
    pure ((((position? cs.length i).bind (cs[·]?)).map Value.char).getD .unit)
  | "set", [.int i, .char c] =>
    match position? cs.length i with
    | some n => changing (.text (String.ofList (cs.set n c))) .unit
    | none => pure .unit
  | "append", [value] => changing (.text (s ++ value.printed)) .unit
  | "clear", [] => changing (.text "") .unit
  | "truncate", [.int n] => changing (.text (String.ofList (cs.take n.toNat))) .unit
  | "trim", [] => changing (.text (trim s)) .unit
  | "pop", [] =>
    changing (.text (String.ofList cs.dropLast)) ((cs.getLast?.map Value.char).getD .unit)
  | "pop", [.int n] =>
    let kept := cs.length - n.toNat
    changing (.text (String.ofList (cs.take kept))) (.text (String.ofList (cs.drop kept)))
  | "to_upper", [] => pure (.text s.toUpper)
  | "to_lower", [] => pure (.text s.toLower)
  | "make_upper", [] => changing (.text s.toUpper) .unit
  | "make_lower", [] => changing (.text s.toLower) .unit
  | "starts_with", [.text part] => pure (.bool (part.toList.isPrefixOf cs))
  | "ends_with", [.text part] => pure (.bool (part.toList.isSuffixOf cs))
  | "index_of", [part] => (run? part).bind fun part => pure (indexOf s part 0)
  | "index_of", [part, .int start] => (run? part).bind fun part => pure (indexOf s part start)
  | "sub_string", _ =>
    (Stretch.all? cs.length arguments).bind fun t => pure (.text (String.ofList (t.middle cs)))
  | "crop", _ =>
    (Stretch.all? cs.length arguments).bind fun t =>
      changing (.text (String.ofList (t.middle cs))) .unit
  | "replace", [part, other] =>
    match run? part, run? other with
    | some part, some other =>
      changing (.text (other.intercalate (splitAt part (cs.length + 2) s))) .unit
    | _, _ => none
  | "remove", [part] =>
    (run? part).bind fun part => changing (.text (String.join (splitAt part (cs.length + 2) s))) .unit
  | "split", [] => pure (texts (words [] cs))
  | "split", [.int i] => pure (texts (halves s i))
  | "split", [part] => (run? part).bind fun part => pure (texts (splitAt part (cs.length + 2) s))
  | "split", [part, .int count] =>
    (run? part).bind fun part => pure (texts (splitAt part (max 1 count.toNat) s))
  | _, _ => none

end SpriteStage.Script.Routine

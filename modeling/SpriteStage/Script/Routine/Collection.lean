import SpriteStage.Script.Part
import SpriteStage.Script.Routine.Basic

/-!
Routines on lists and maps.
-/

namespace SpriteStage.Script.Routine

/-- A stretch of something of some size: how much stands in front of it, and how long it is. A negative
start counts from the end. -/
structure Stretch where
  start : Nat
  length : Nat
  deriving DecidableEq, Repr

namespace Stretch

def ofStart (size : Nat) (start length : Int) : Stretch :=
  let start := min (counted size start).toNat size
  ⟨start, min length.toNat (size - start)⟩

/-- The stretch from one position to another; here negative positions are the start. -/
def ofRange (size : Nat) (first last : Int) (closed : Bool) : Stretch :=
  let first := max first 0
  let last := max last first
  ofStart size first (last - first + if closed then 1 else 0)

/-- What the numbers or the range in front of some arguments stand for, and the other arguments. -/
def read? (size : Nat) : List Value → Option (Stretch × List Value)
  | .int start :: .int length :: rest => some (ofStart size start length, rest)
  | .range first last closed :: rest => some (ofRange size first last closed, rest)
  | _ => none

/-- The stretch that arguments stand for. One number stands for all that follows it. -/
def all? (size : Nat) (arguments : List Value) : Option Stretch :=
  match arguments, read? size arguments with
  | [.int start], _ => some (ofStart size start size)
  | _, some (stretch, []) => some stretch
  | _, _ => none

def front {α : Type} (s : Stretch) (items : List α) : List α := items.take s.start

def middle {α : Type} (s : Stretch) (items : List α) : List α := (items.drop s.start).take s.length

def back {α : Type} (s : Stretch) (items : List α) : List α := items.drop (s.start + s.length)

theorem front_middle_back {α : Type} (s : Stretch) (items : List α) :
    s.front items ++ s.middle items ++ s.back items = items := by
  simp only [front, middle, back]
  rw [← List.drop_drop, List.append_assoc, List.take_append_drop, List.take_append_drop]

end Stretch

def placeOf (value : Value) (place : Nat) : List Value → Except Fault Value
  | [] => .ok (.int (-1))
  | item :: items =>
    match equal item value with
    | .ok true => .ok (.int place)
    | .ok false => placeOf value (place + 1) items
    | .error fault => .error fault

def onList (items : List Value) (name : String) (arguments : List Value) :
    Option (Inquiry Effect) :=
  match name, arguments with
  | "push", [value] => changing (.list (items ++ [value])) .unit
  | "append", [.list more] => changing (.list (items ++ more)) .unit
  | "pop", [] => changing (.list items.dropLast) (items.getLast?.getD .unit)
  | "shift", [] => changing (.list items.tail) (items.head?.getD .unit)
  | "insert", [.int i, value] =>
    let n := (counted items.length i).toNat
    changing (.list (items.take n ++ value :: items.drop n)) .unit
  | "remove", [.int i] =>
    match position? items.length i with
    | some n => changing (.list (items.eraseIdx n)) (items[n]?.getD .unit)
    | none => pure .unit
  | "get", [.int i] => pure (((position? items.length i).bind (items[·]?)).getD .unit)
  | "set", [.int i, value] =>
    match position? items.length i with
    | some n => changing (.list (items.set n value)) .unit
    | none => pure .unit
  | "clear", [] => changing (.list []) .unit
  | "truncate", [.int n] => changing (.list (items.take n.toNat)) .unit
  | "chop", [.int n] => changing (.list (items.drop (items.length - n.toNat))) .unit
  | "reverse", [] => changing (.list items.reverse) .unit
  | "len", [] => pure (.int items.length)
  | "is_empty", [] => pure (.bool items.isEmpty)
  | "contains", [value] => settle ((holds value items).map .bool)
  | "index_of", [value] => settle (placeOf value 0 items)
  | "index_of", [value, .int start] =>
    let n := (Stretch.ofStart items.length start 0).start
    settle (placeOf value n (items.drop n))
  | "extract", _ => (Stretch.all? items.length arguments).bind fun s => pure (.list (s.middle items))
  | "split", [.int start] =>
    let n := (Stretch.ofStart items.length start 0).start
    changing (.list (items.take n)) (.list (items.drop n))
  | "drain", _ =>
    match Stretch.read? items.length arguments with
    | some (s, []) => changing (.list (s.front items ++ s.back items)) (.list (s.middle items))
    | _ => none
  | "retain", _ =>
    match Stretch.read? items.length arguments with
    | some (s, []) => changing (.list (s.middle items)) (.list (s.front items ++ s.back items))
    | _ => none
  | "splice", _ =>
    match Stretch.read? items.length arguments with
    | some (s, [.list more]) => changing (.list (s.front items ++ more ++ s.back items)) .unit
    | _ => none
  | _, _ => none

def onMap (fields : List (String × Value)) (name : String) (arguments : List Value) :
    Option (Inquiry Effect) :=
  match name, arguments with
  | "len", [] => pure (.int fields.length)
  | "is_empty", [] => pure (.bool fields.isEmpty)
  | "contains", [.text key] => pure (.bool (Fields.get? fields key).isSome)
  | "get", [.text key] => pure ((Fields.get? fields key).getD .unit)
  | "set", [.text key, value] => changing (.map (Fields.set key value fields)) .unit
  | "remove", [.text key] =>
    changing (.map (Fields.remove fields key)) ((Fields.get? fields key).getD .unit)
  | "clear", [] => changing (.map []) .unit
  | "mixin", [.map more] => changing (.map (Fields.ofList (fields ++ more))) .unit
  | "fill_with", [.map more] => changing (.map (Fields.ofList (more ++ fields))) .unit
  | "keys", [] => pure (.list (fields.map fun field => .text field.1))
  | "values", [] => pure (.list (fields.map (·.2)))
  | _, _ => none

end SpriteStage.Script.Routine

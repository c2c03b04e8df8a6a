import SpriteStage.Script.Operator
import SpriteStage.Script.Query

/-!
Parts of values: items of lists, fields of maps, characters of texts, bits of numbers, properties, and
the attributes of an instance. To change a part is to make a new whole, except that an instance
changes in the project.
-/

namespace SpriteStage.Script

inductive Part where
  | property (name : String)
  | index (value : Value)

/-- An index counted from the front; negative ones count from the end. -/
def counted (size : Nat) (index : Int) : Int := if index < 0 then index + size else index

def position? (size : Nat) (index : Int) : Option Nat :=
  if 0 ≤ counted size index ∧ counted size index < size then some (counted size index).toNat
  else none

theorem position?_lt {size : Nat} {index : Int} {n : Nat} (h : position? size index = some n) :
    n < size := by
  unfold position? at h
  split at h
  · have := Option.some.inj h
    omega
  · simp at h

/-- Properties of values that no script has made, which can only be read. -/
def property? : String → Value → Option Value
  | "len", .list items => some (.int items.length)
  | "is_empty", .list items => some (.bool items.isEmpty)
  | "len", .text s => some (.int s.length)
  | "is_empty", .text s => some (.bool s.isEmpty)
  | "bytes", .text s => some (.int s.utf8ByteSize)
  | "is_zero", .int n => some (.bool (n = 0))
  | "is_odd", .int n => some (.bool (n % 2 ≠ 0))
  | "is_even", .int n => some (.bool (n % 2 = 0))
  | "is_zero", .float x => some (.bool (x == 0.0))
  | "floor", .float x => some (.float x.floor)
  | "ceiling", .float x => some (.float x.ceil)
  | "round", .float x => some (.float x.round)
  | "int", .float x => some (.float (if x < 0.0 then x.ceil else x.floor))
  | "fraction", .float x => some (.float (x - if x < 0.0 then x.ceil else x.floor))
  | "is_nan", .float x => some (.bool x.isNaN)
  | "is_finite", .float x => some (.bool x.isFinite)
  | "is_infinite", .float x => some (.bool x.isInf)
  | "start", .range first _ _ => some (.int first)
  | "end", .range _ last _ => some (.int last)
  | "is_inclusive", .range _ _ closed => some (.bool closed)
  | "is_exclusive", .range _ _ closed => some (.bool (!closed))
  | "is_empty", .range first last closed =>
    some (.bool (if closed then last < first else last ≤ first))
  | "name", .routine name _ => some (.text name)
  | "is_anonymous", .routine .. => some (.bool false)
  | "name", .decl d => some (.text d.name)
  | "tag", _ => some (.int 0)
  | _, _ => none

/-- The positions in a text from which on and up to which a range goes. Negative positions count from
the end; the first of them must be in the text. -/
def bounds (size : Nat) (first last : Int) (closed : Bool) : Except Fault (Nat × Nat) :=
  match if 0 ≤ first then some first.toNat else position? size first with
  | none => .error (.outsideText size first)
  | some start => .ok (start, (counted size last).toNat + if closed then 1 else 0)

def slice (s : String) (first last : Int) (closed : Bool) : Except Fault String :=
  (bounds s.length first last closed).map fun (start, stop) =>
    String.ofList ((s.toList.drop start).take (stop - start))

def withSlice (s : String) (first last : Int) (closed : Bool) (other : String) :
    Except Fault String :=
  (bounds s.length first last closed).map fun (start, stop) =>
    String.ofList (s.toList.take start) ++ other ++ String.ofList (s.toList.drop stop)

/-- The bits within a range: how many bits are below them, and how many they are. -/
def field (first last : Int) (closed : Bool) : Except Fault (Nat × Nat) :=
  if first < 0 ∨ 64 ≤ first then .error (.outsideBits 64 first)
  else if last < 0 ∨ 64 ≤ last then .error (.outsideBits 64 last)
  else .ok (first.toNat, (last - first + if closed then 1 else 0).toNat)

/-- Some bits of a number, as a number. It is negative if the topmost bit is among them and set. -/
def bits (n first last : Int) (closed : Bool) : Except Fault Int :=
  (field first last closed).map fun (below, width) =>
    let shifted := n.fdiv (twoTo below)
    if below + width = 64 then shifted else shifted.emod (twoTo width)

def withBits (n first last : Int) (closed : Bool) (other : Int) : Except Fault Int :=
  (field first last closed).map fun (below, width) =>
    let old := (n.fdiv (twoTo below)).emod (twoTo width)
    wrapped (n + (other.emod (twoTo width) - old) * twoTo below)

def bit (n : Int) (place : Nat) : Bool := n.fdiv (twoTo place) % 2 = 1

def withBit (n : Int) (place : Nat) (on : Bool) : Int :=
  if bit n place = on then n
  else wrapped (if on then n + twoTo place else n - twoTo place)

namespace Part

/-- The part of a whole. A property that every value has comes before an attribute. -/
def get (part : Part) (whole : Value) : Attempt Value :=
  match part, whole with
  | .property name, .map fields => .ok ((Fields.get? fields name).getD .unit)
  | .property name, _ =>
    match property? name whole with
    | some value => .ok value
    | none =>
      match whole with
      | .handle h => .request h (.get name)
      | _ => .fault (.noProperty name whole.typeName)
  | .index (.int i), .list items =>
    match position? items.length i with
    | some n => .ok ((items[n]?).getD .unit)
    | none => .fault (.outsideList items.length i)
  | .index (.int i), .text s =>
    match position? s.length i with
    | some n => .ok (.char ((s.toList[n]?).getD ' '))
    | none => .fault (.outsideText s.length i)
  | .index (.int i), .int n =>
    match position? 64 i with
    | some place => .ok (.bool (bit n place))
    | none => .fault (.outsideBits 64 i)
  | .index (.range first last closed), .text s => .done ((slice s first last closed).map .text)
  | .index (.range first last closed), .int n => .done ((bits n first last closed).map .int)
  | .index (.text name), .map fields => .ok ((Fields.get? fields name).getD .unit)
  | .index (.text name), .handle h => .request h (.get name)
  | .index key, .list _ | .index key, .text _ | .index key, .int _ => .fault (.unexpected key "i64")
  | .index key, .map _ => .fault (.unexpected key "string")
  | .index key, _ => .fault (.noIndexer whole.typeName key.typeName)

/-- The whole with another value for the part. A character counted from the end of a text is put at
as many places from its start. -/
def set (part : Part) (whole value : Value) : Attempt Value :=
  match part, whole with
  | .property name, .map fields => .ok (.map (Fields.set name value fields))
  | .property name, _ =>
    match name, value, whole with
    | "tag", .int _, _ => .ok whole
    | _, _, .handle h => (Attempt.request h (.set name value)).andThen fun _ => .ok whole
    | _, _, _ => .fault (.readOnlyProperty name whole.typeName value.typeName)
  | .index (.int i), .list items =>
    match position? items.length i with
    | some n => .ok (.list (items.set n value))
    | none => .fault (.outsideList items.length i)
  | .index (.int i), .text s =>
    match position? s.length i, value with
    | some _, .char c => .ok (.text (String.ofList (s.toList.set i.natAbs c)))
    | some _, _ => .fault (.unexpected value "char")
    | none, _ => .fault (.outsideText s.length i)
  | .index (.int i), .int n =>
    match position? 64 i, value with
    | some place, .bool on => .ok (.int (withBit n place on))
    | some _, _ => .fault (.unexpected value "bool")
    | none, _ => .fault (.outsideBits 64 i)
  | .index (.range first last closed), .text s =>
    .done ((withSlice s first last closed value.display).map .text)
  | .index (.range first last closed), .int n =>
    match value with
    | .int other => .done ((withBits n first last closed other).map .int)
    | _ => .done ((field first last closed).bind fun _ => .error (.unexpected value "integer"))
  | .index (.text name), .map fields => .ok (.map (Fields.set name value fields))
  | .index (.text name), .handle h =>
    (Attempt.request h (.set name value)).andThen fun _ => .ok whole
  | .index key, .list _ | .index key, .text _ | .index key, .int _ => .fault (.unexpected key "i64")
  | .index key, .map _ => .fault (.unexpected key "string")
  | .index key, _ => .fault (.noIndexSetter whole.typeName key.typeName value.typeName)

/-- Whether the part lies within the whole, so that to change the part changes the whole. The other
parts are copies. -/
def isWithin (part : Part) (whole : Value) : Bool :=
  match part, whole with
  | .property name, .map fields | .index (.text name), .map fields =>
    (Fields.get? fields name).isSome
  | .index (.int _), .list _ => true
  | _, _ => false

/-- The whole with a changed part put back. Where a part can only be read, the whole stays as it
is. -/
def putInto (part : Part) (whole changed : Value) : Attempt Value :=
  (set part whole changed).bind fun
    | .error (.readOnlyProperty ..) | .error (.noIndexSetter ..) => .done (.ok whole)
    | result => .done result

/-- Puts a changed part back into the wholes around it, the innermost first. -/
def putBack : List (Value × Part) → Value → Attempt Value
  | [], value => .ok value
  | (whole, part) :: outer, value =>
    (putInto part whole value).andThen fun changed => putBack outer changed

/-- The whole once the part at the end of the way has been looked up to be combined with a value: the
map it belongs to has a field for it from then on. -/
def lookedUp : List Part → Value → Value
  | [], whole => whole
  | part :: parts, whole =>
    match part, whole with
    | .property name, .map fields | .index (.text name), .map fields =>
      match Fields.get? fields name with
      | some inner => .map (Fields.set name (lookedUp parts inner) fields)
      | none => if parts.isEmpty then .map (Fields.set name .unit fields) else whole
    | .index (.int i), .list items =>
      match (position? items.length i).bind fun n => (items[n]?).map (n, ·) with
      | some (n, inner) => .list (items.set n (lookedUp parts inner))
      | none => whole
    | _, _ => whole

/-- Whether the whole finds what an index stands for by a rule of its own. -/
def isForeign (part : Part) (whole : Value) : Bool :=
  match part, whole with
  | .property _, _ | .index _, .list _ | .index _, .map _ | .index _, .text _
  | .index _, .int _ => false
  | .index _, _ => true

/-- Assigns to the part at the end of the way, combined with what is there if an operator is given,
and gives the changed whole. Where a foreign index finds nothing, the value is taken as it is. -/
def assign (combine : Option (Value → Value → Except Fault Value)) (value : Value) :
    List Part → Value → Attempt Value
  | [], whole =>
    match combine with
    | none => .ok value
    | some combine => .done (combine whole value)
  | [part], whole =>
    match combine with
    | none => set part whole value
    | some combine =>
      (get part whole).bind fun
        | .ok old =>
          match combine old value with
          | .ok new => set part whole new
          | .error fault => .done (.error fault)
        | .error fault =>
          if part.isForeign whole then set part whole value else .done (.error fault)
  | part :: parts, whole =>
    (get part whole).andThen fun inner =>
      (assign combine value parts inner).andThen fun changed => putInto part whole changed

end Part

end SpriteStage.Script

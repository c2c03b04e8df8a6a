import SpriteStage.Number.Style
import SpriteStage.Text.Quoted
import SpriteStage.Trigger

/-!
Values that attributes and scripts hold, and their text. There are two wordings: scripts have one of
their own for what they print or join to a text, and the stage has another for what it shows and for
messages. Each has a detailed form, which lists and maps use for what they hold.
-/

namespace SpriteStage

/-- A thread's way to act on the project: the thread itself and the instance it runs for. -/
structure Handle where
  thread : Nat
  owner : Nat
  deriving DecidableEq, Repr

structure Costume where
  name : String
  locator : String
  /-- Offset of the centre from the left edge of the image. -/
  centreX : Float := 0.0
  /-- Offset of the centre from the top edge of the image. -/
  centreY : Float := 0.0

structure Sound where
  name : String
  locator : String
  deriving DecidableEq, Repr

inductive Pause where
  | nextFrame
  | waitSeconds (seconds : Float)
  | broadcastAndWait (message : String)
  | askAndWait (prompt : Option String)
  | playSoundUntilDone (name : String)
  | deleteThisClone
  | stopAll

structure Directive where
  pause : Pause
  next : Option String

structure HandlerName where
  eventType : String
  argument : String
  function : String
  deriving DecidableEq, Repr

/-- An actor class under construction in a script, with attribute values of type `V`. -/
structure Declaration (V : Type) where
  name : String
  kind : ActorKind
  costumes : List Costume := []
  sounds : List Sound := []
  attributes : List (String × V) := []
  position : Option (Float × Float) := none
  size : Option Float := none
  hidden : Bool := false
  handlers : List HandlerName := []

inductive Value where
  | unit
  | bool (b : Bool)
  | int (n : Int)
  | float (x : Float)
  | char (c : Char)
  | text (s : String)
  | list (items : List Value)
  | map (fields : List (String × Value))
  | range (first last : Int) (closed : Bool)
  /-- The numbers from the first on by steps, before the last. -/
  | steps (first last step : Int)
  /-- A script function with the arguments it has been given already. -/
  | routine (name : String) (given : List Value)
  | decl (declaration : Declaration Value)
  | directive (directive : Directive)
  | handle (handle : Handle)

/-- Named values, ordered by name. -/
abbrev Fields := List (String × Value)

namespace Fields

def get? (fields : Fields) (name : String) : Option Value := fields.lookup name

def set (name : String) (value : Value) : Fields → Fields
  | [] => [(name, value)]
  | field :: rest =>
    if name = field.1 then (name, value) :: rest
    else if name < field.1 then (name, value) :: field :: rest
    else field :: set name value rest

def remove (fields : Fields) (name : String) : Fields := fields.filter (·.1 ≠ name)

def names (fields : Fields) : List String := fields.map (·.1)

/-- The fields of a list in the order of their names. The last of several of one name counts. -/
def ofList (fields : List (String × Value)) : Fields :=
  fields.foldl (fun known (name, value) => set name value known) []

theorem get?_set (name : String) (value : Value) (fields : Fields) :
    get? (set name value fields) name = some value := by
  induction fields with
  | nil => simp [set, get?]
  | cons field rest ih =>
    obtain ⟨key, old⟩ := field
    simp only [set]
    split
    · simp [get?]
    · split
      · simp [get?]
      · rename_i h _
        have hne : (name == key) = false := by simpa using h
        simpa [get?, List.lookup_cons, hne] using ih

theorem get?_set_of_ne {name other : String} (h : other ≠ name) (value : Value) (fields : Fields) :
    get? (set name value fields) other = get? fields other := by
  have hne : (other == name) = false := by simpa using h
  induction fields with
  | nil => simp [set, get?, List.lookup_cons, hne]
  | cons field rest ih =>
    obtain ⟨key, old⟩ := field
    simp only [set]
    split
    · rename_i heq
      subst heq
      simp [get?, List.lookup_cons, hne]
    · split
      · simp [get?, List.lookup_cons, hne]
      · simp only [get?, List.lookup_cons] at ih ⊢
        split
        · rfl
        · exact ih

end Fields

/-- Types by which an attribute may be read. -/
inductive ValueType where
  | int
  | float
  | bool
  | text
  deriving DecidableEq, Repr

def Pause.detail : Pause → String
  | .nextFrame => "NextFrame"
  | .waitSeconds seconds => s!"WaitSeconds({NumberStyle.detailed.write seconds})"
  | .broadcastAndWait message => s!"BroadcastAndWait({Text.quoted message})"
  | .askAndWait none => "AskAndWait(None)"
  | .askAndWait (some prompt) => s!"AskAndWait(Some({Text.quoted prompt}))"
  | .playSoundUntilDone name => s!"PlaySoundUntilDone({Text.quoted name})"
  | .deleteThisClone => "DeleteThisClone"
  | .stopAll => "StopAll"

def Directive.detail (d : Directive) : String :=
  let next := match d.next with
    | none => "None"
    | some name => s!"Some({Text.quoted name})"
  "Directive \x7b action: " ++ d.pause.detail ++ ", then: " ++ next ++ " \x7d"

/-- Who words a value: a script, or the stage around it. -/
inductive Wording where
  | script
  | stage
  deriving DecidableEq, Repr

namespace Value

def typeName : Value → String
  | .unit => "()"
  | .bool _ => "bool"
  | .int _ => "i64"
  | .float _ => "f64"
  | .char _ => "char"
  | .text _ => "string"
  | .list _ => "array"
  | .map _ => "map"
  | .range _ _ false => "range"
  | .range _ _ true => "range="
  | .steps .. => "range"
  | .routine .. => "Fn"
  | .decl _ => "ActorDecl"
  | .directive _ => "Directive"
  | .handle _ => "Instance"

/-- The name of a value's type in full, with the place of its definition. -/
def fullTypeName : Value → String
  | .range _ _ false => "core::ops::range::Range<i64>"
  | .range _ _ true => "core::ops::range::RangeInclusive<i64>"
  | .steps .. => "rhai::packages::iter_basic::StepRange<i64>"
  | .decl _ => "stagecraft_core::api::declare::ActorDecl"
  | .directive _ => "stagecraft_core::api::directive::Directive"
  | .handle _ => "stagecraft_core::api::instance::ScriptInstance"
  | value => value.typeName

def has (type : ValueType) : Value → Bool
  | .int _ => type = .int
  | .float _ => type = .float
  | .bool _ => type = .bool
  | .text _ => type = .text
  | _ => false

/-- A range whose end is the largest number is written without an end. -/
def rangeText (first last : Int) (closed : Bool) : String :=
  toString first ++ (if closed then "..=" else "..") ++
    (if last = twoTo 63 - 1 then "" else toString last)

mutual

/-- The detailed form of a value. Only the stage sets characters and names in quotation marks and
shows the arguments that a function has been given already. -/
def detail (w : Wording) : Value → String
  | .unit => "()"
  | .bool b => if b then "true" else "false"
  | .int n => toString n
  | .float x => NumberStyle.detailed.write x
  | .char c =>
    match w with
    | .script => c.toString
    | .stage => Text.quotedChar c
  | .text s => Text.quoted s
  | .list items => "[" ++ ", ".intercalate (details w items) ++ "]"
  | .map fields => "#\x7b" ++ ", ".intercalate (fieldDetails w fields) ++ "\x7d"
  | .range first last closed => rangeText first last closed
  | .routine name given =>
    match w with
    | .script => "Fn(" ++ name ++ ")"
    | .stage => "Fn(" ++ ", ".intercalate (Text.quoted name :: details w given) ++ ")"
  | value =>
    match w with
    | .script => value.typeName
    | .stage => value.fullTypeName

def details (w : Wording) : List Value → List String
  | [] => []
  | item :: items => detail w item :: details w items

def fieldDetails (w : Wording) : List (String × Value) → List String
  | [] => []
  | (name, value) :: fields =>
    (Text.quoted name ++ ": " ++ detail w value) :: fieldDetails w fields

end

def worded (w : Wording) : Value → String
  | .unit => ""
  | .float x => NumberStyle.script.write x
  | .char c => c.toString
  | .text s => s
  | .routine name _ => "Fn(" ++ name ++ ")"
  | value => value.detail w

def display (value : Value) : String := value.worded .stage

def printed (value : Value) : String := value.worded .script

end Value

end SpriteStage

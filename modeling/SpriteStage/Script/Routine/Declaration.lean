import SpriteStage.Script.Routine.Basic

/-!
Routines that declare actor classes. Each adds to the declaration it is called on and gives the
declaration again, so that calls can be chained.
-/

namespace SpriteStage.Script.Routine

abbrev Declared := Declaration Value

/-- The declaration with something added, as a value and in the place it came from. -/
def declaring (d : Declared) : Option (Inquiry Effect) := changing (.decl d) (.decl d)

def trying (result : Except Fault Declared) : Option (Inquiry Effect) :=
  match result with
  | .ok d => declaring d
  | .error fault => fail fault

def addHandler (d : Declared) (eventType argument : String) (function : Value) :
    Except Fault Declared := do
  match ← continuation function with
  | some name => return { d with handlers := d.handlers ++ [⟨eventType, argument, name⟩] }
  | none => throw (.text s!"handler for \"{eventType}\" must name a function")

def addCostume (d : Declared) (name locator : String) (x y : Value) : Except Fault Declared := do
  let x ← number "centre x" x
  let y ← number "centre y" y
  return { d with costumes := d.costumes ++ [⟨name, locator, x, y⟩] }

def withSize (d : Declared) (size : Value) : Except Fault Declared := do
  let x ← number "size" size
  if !x.isFinite || x < 0.0 then
    throw (.text ("size must be a non-negative number, not " ++ NumberStyle.message.write x))
  return { d with size := some x }

def withPosition (d : Declared) (x y : Value) : Except Fault Declared := do
  let x ← number "x" x
  let y ← number "y" y
  return { d with position := some (x, y) }

/-- A later value for an attribute takes the place of an earlier one, at the end. -/
def withAttribute (d : Declared) (name : String) (value : Value) : Declared :=
  { d with attributes := d.attributes.filter (·.1 ≠ name) ++ [(name, value)] }

theorem lookup_withAttribute (d : Declared) (name : String) (value : Value) :
    (withAttribute d name value).attributes.lookup name = some value := by
  have h (fields : List (String × Value)) :
      (fields.filter (·.1 ≠ name) ++ [(name, value)]).lookup name = some value := by
    induction fields with
    | nil => simp
    | cons field rest ih =>
      obtain ⟨key, old⟩ := field
      by_cases hf : key = name
      · simpa [hf] using ih
      · have hne : (name == key) = false := by simpa using fun e => hf e.symm
        simpa [hf, List.lookup_cons, hne] using ih
  exact h d.attributes

def ofDeclaration (d : Declared) (name : String) (arguments : List Value) :
    Option (Inquiry Effect) :=
  match name, arguments with
  | "costume", [.text key, .text locator] =>
    declaring { d with costumes := d.costumes ++ [⟨key, locator, 0.0, 0.0⟩] }
  | "costume", [.text key, .text locator, x, y] => trying (addCostume d key locator x y)
  | "backdrop", [.text key, .text locator] =>
    declaring { d with costumes := d.costumes ++ [⟨key, locator, 0.0, 0.0⟩] }
  | "sound", [.text key, .text locator] =>
    declaring { d with sounds := d.sounds ++ [⟨key, locator⟩] }
  | "set", [.text key, value] => declaring (withAttribute d key value)
  | "go_to_xy", [x, y] => trying (withPosition d x y)
  | "set_size", [size] => trying (withSize d size)
  | "hide", [] => declaring { d with hidden := true }
  | "when", [.text eventType, function] => trying (addHandler d eventType "" function)
  | "when", [.text eventType, .text argument, function] =>
    trying (addHandler d eventType argument function)
  | _, _ => none

def newDeclaration (name : String) (arguments : List Value) : Option (Inquiry Effect) :=
  match name, arguments with
  | "sprite", [.text className] => pure (.decl { name := className, kind := .sprite })
  | "stage", [.text className] => pure (.decl { name := className, kind := .stage })
  | _, _ => none

end SpriteStage.Script.Routine

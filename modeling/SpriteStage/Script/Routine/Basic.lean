import SpriteStage.Script.Query

/-!
Routines: the functions that scripts may call without defining them. This module says what a routine
may do and how arguments are read.
-/

namespace SpriteStage.Script

structure Effect where
  value : Except Fault Value
  /-- What becomes of the first argument, if the routine changes it. -/
  receiver : Option Value := none
  issues : Bool := false
  /-- Whether the run ends here with the value. -/
  exits : Bool := false

namespace Effect

def ok (value : Value) : Effect := { value := .ok value }

def fault (fault : Fault) : Effect := { value := .error fault }

end Effect

/-- What a call comes to: none if no routine takes these arguments. -/
abbrev Routine := List Value → Option (Inquiry Effect)

namespace Routine

def pure (value : Value) : Option (Inquiry Effect) := some (.done (.ok value))

def fail (fault : Fault) : Option (Inquiry Effect) := some (.done (.fault fault))

def changing (receiver value : Value) : Option (Inquiry Effect) :=
  some (.done { value := .ok value, receiver := some receiver })

def settle (result : Except Fault Value) : Option (Inquiry Effect) :=
  some (.done { value := result })

def attempt (a : Attempt Value) : Option (Inquiry Effect) :=
  some (a.bind fun result => .done { value := result })

def number (what : String) : Value → Except Fault Float
  | .float x => .ok x
  | .int n => .ok (Float.ofInt n)
  | value => .error (.text s!"{what} must be a number, not {value.fullTypeName}")

def continuation : Value → Except Fault (Option String)
  | .unit => .ok none
  | .routine name _ => .ok (some name)
  | .text name => .ok (some name)
  | value => .error (.text s!"continuation must be a function name, not {value.fullTypeName}")

end Routine

end SpriteStage.Script

import SpriteStage.Script.Routine.Collection
import SpriteStage.Script.Routine.Number
import SpriteStage.Script.Routine.Text
import SpriteStage.Script.Token.Basic

/-!
Routines on plain values: printing, functions by name, and those on values of one kind.
-/

namespace SpriteStage.Script.Routine

def byName (name : String) : Option (Inquiry Effect) :=
  if Token.isFunctionName name then pure (.routine name [])
  else if !Token.isReserved name then fail (.unknownName name)
  else if Token.isName name then fail (.reservedName name)
  else fail (.reservedSymbol name)

def exit (value : Value) : Option (Inquiry Effect) :=
  some (.done { value := .ok value, exits := true })

def recording (entry : Entry) : Option (Inquiry Effect) :=
  attempt ((Attempt.always (.record entry) rfl).andThen fun _ => .ok .unit)

def onAnything (name : String) (arguments : List Value) : Option (Inquiry Effect) :=
  match name, arguments with
  | "print", [] => recording (.print "")
  | "print", [value] => recording (.print value.printed)
  | "debug", [] => recording (.debug "")
  | "debug", [value] => recording (.debug (value.detail .script))
  | "type_of", [value] => pure (.text value.typeName)
  | "is_shared", [_] => pure (.bool false)
  | "tag", [_] => pure (.int 0)
  | "to_string", [value] => pure (.text value.printed)
  | "to_debug", [value] => pure (.text (value.detail .script))
  | "Fn", [.text key] => byName key
  | "Fn", [value] => fail (.unexpected value "string")
  | "name", [.routine key _] => pure (.text key)
  | "is_anonymous", [.routine ..] => pure (.bool false)
  | "exit", [] => exit .unit
  | "exit", [value] => exit value
  | _, _ => none

/-- Routines on ranges, which ask what the properties and operators tell as well. -/
def onRange (range : Value) (name : String) (arguments : List Value) : Option (Inquiry Effect) :=
  match name, arguments with
  | "contains", [value] => (BinaryOp.contains.onSimple range value).bind settle
  | "start", [] | "end", [] | "is_inclusive", [] | "is_exclusive", [] | "is_empty", [] =>
    (property? name range).bind pure
  | _, _ => none

def onKind (name : String) (arguments : List Value) : Option (Inquiry Effect) :=
  match name, arguments with
  | "contains", [.text s, part] => (BinaryOp.contains.onTexts (.text s) part).bind pure
  | _, .list items :: rest => onList items name rest
  | _, .map fields :: rest => onMap fields name rest
  | _, .text s :: rest => onText s name rest
  | _, .range first last closed :: rest => onRange (.range first last closed) name rest
  | _, _ => none

def general (name : String) (arguments : List Value) : Option (Inquiry Effect) :=
  onAnything name arguments <|> onKind name arguments <|> onNumber name arguments

end SpriteStage.Script.Routine

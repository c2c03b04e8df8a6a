import SpriteStage.Script.Routine.Declaration
import SpriteStage.Script.Routine.Directive
import SpriteStage.Script.Routine.General
import SpriteStage.Script.Routine.Instance

/-!
The table of all routines.
-/

namespace SpriteStage.Script.Routine

/-- Routines that only the scripts of a project know. -/
def ofProject (name : String) (arguments : List Value) : Option (Inquiry Effect) :=
  match name, arguments with
  | "register", [.decl d] =>
    some (.ask (.declare d) fun (reply : Except String Unit) =>
      match reply with
      | .ok () => .done (.ok .unit)
      | .error reason => .done (.fault (.text reason)))
  | "set_max_import_loop_iterations", [.int n] =>
    some (.ask (.limitLoops n) fun _ => .done (.ok .unit))
  | "yield_until_next_frame", [] =>
    some (.ask .countLoop fun (reply : Option (Except ProjectError Unit)) =>
      match reply with
      | none => .done (issue .nextFrame none)
      | some (.ok ()) => .done (.ok .unit)
      | some (.error e) => .done (.fault (.text e.message)))
  | _, _ => none

def find? (inProject : Bool) (name : String) (arguments : List Value) : Option (Inquiry Effect) :=
  let specific := match arguments with
    | .handle h :: rest => ofInstance h name rest
    | .decl d :: rest => ofDeclaration d name rest
    | _ => none
  (if inProject then ofProject name arguments else none) <|> specific <|>
    newDeclaration name arguments <|> ofDirective name arguments <|> general name arguments

end SpriteStage.Script.Routine

import SpriteStage.Behavior
import SpriteStage.Script.Fault

/-!
What a running script asks of the project around it.
-/

namespace SpriteStage.Script

inductive Query where
  /-- A script has no way to begin a wait other than by pausing. -/
  | call (call : Call) (awaits : call.startsWait = false)
  | declare (declaration : Declaration Value)
  | limitLoops (max : Int)
  /-- Counts a loop iteration outside any thread; there is no answer inside one. -/
  | countLoop

def Query.Reply : Query → Type
  | .call c _ => c.Reply
  | .declare _ => Except String Unit
  | .limitLoops _ => Unit
  | .countLoop => Option (Except ProjectError Unit)

abbrev Inquiry (α : Type) := Dialogue Query Query.Reply α

abbrev Attempt (α : Type) := Inquiry (Except Fault α)

namespace Attempt

def ok {α : Type} (result : α) : Attempt α := .done (.ok result)

def fault {α : Type} (fault : Fault) : Attempt α := .done (.error fault)

def andThen {α β : Type} (a : Attempt α) (f : α → Attempt β) : Attempt β :=
  a.bind fun
    | .ok result => f result
    | .error fault => .done (.error fault)

def request (h : Handle) (r : Request) : Attempt r.Reply :=
  .ask (.call (.request h r) rfl) fun (reply : Except CallError r.Reply) =>
    .done (reply.mapError fun e => .text e.message)

/-- A call that is always granted. -/
def always (call : Call) (awaits : call.startsWait = false) : Attempt call.Reply :=
  .ask (.call call awaits) fun (reply : call.Reply) => .done (.ok reply)

end Attempt

end SpriteStage.Script

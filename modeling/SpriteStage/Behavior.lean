import SpriteStage.Dialogue
import SpriteStage.Journal
import SpriteStage.Request

/-!
The bodies of threads. A behavior makes calls, which are answered at once, and pauses, after which
it goes on with what the pause came to; in between it may turn into the behavior of a routine that
is known by name.
-/

namespace SpriteStage

/-- What a running body can do at once. Everything is done through a handle, which need not be the
handle of the running thread. -/
inductive Call where
  | request (handle : Handle) (request : Request)
  | pushRate (handle : Handle) (perFrame : Nat)
  | popRate (handle : Handle)
  /-- Begins a wait without pausing for it; answers what it came to, if that is known at once. -/
  | start (handle : Handle) (wait : Wait)
  | keep (name : String) (handle : Handle)
  | kept (name : String)
  | record (entry : Entry)

def Call.Reply : Call → Type
  | .request _ r => Except CallError r.Reply
  | .start _ wait => Option (Except CallError wait.Reply)
  | .kept _ => Option Handle
  | .pushRate .. | .popRate _ | .keep .. | .record _ => Unit

/-- Whether a call begins a wait that nothing pauses for. -/
def Call.startsWait : Call → Bool
  | .start .. => true
  | _ => false

abbrev Calls (α : Type) := Dialogue Call Call.Reply α

/-- A routine known by name, called through a handle. -/
structure Jump where
  handle : Handle
  routine : String
  arguments : List Value := []

inductive Behavior where
  | finish
  | fail (failure : Failure)
  | call (call : Call) (next : call.Reply → Behavior)
  | pause (wait : Wait) (next : Except CallError wait.Reply → Behavior)
  | jump (target : Jump)

def Behavior.after {α : Type} : Calls α → (α → Behavior) → Behavior
  | .done result, k => k result
  | .ask question next, k => .call question fun reply => after (next reply) k

abbrev Library := Jump → Behavior

end SpriteStage

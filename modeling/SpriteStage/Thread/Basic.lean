import SpriteStage.Actor
import SpriteStage.Thread.State

/-!
Threads. Between a running body and the scheduler stands a mailbox: the body leaves there why it
pauses, the scheduler what the pause came to.
-/

namespace SpriteStage

structure Mailbox where
  pending : Option Suspension := none
  resume : Option (Except CallError String) := none
  rates : LoopRates

inductive Body where
  | start (behavior : Behavior)
  | waiting (wait : Wait) (next : Except CallError wait.Reply → Behavior)

structure Thread where
  id : Nat
  group : Nat
  actor : Nat
  owner : Nat
  label : String
  state : ThreadState := .runnable
  mailbox : Mailbox
  body : Body

def Thread.handle (t : Thread) : Handle := ⟨t.id, t.owner⟩

/-- What a pause came to, by what was left in the mailbox. Only an answer carries a text. -/
def Wait.outcome : (wait : Wait) → Option (Except CallError String) → Except CallError wait.Reply
  | .ask _, some (.ok answer) => .ok answer
  | .ask _, some (.error e) => .error e
  | .ask _, none => .error (.invalidArgument "ask_and_wait" "answer was a ()")
  | .outside, _ => .ok ()
  | .yield, r | .delete, r | .stopAll, r => r.elim (.ok ()) (·.map fun _ => ())
  | .seconds _, r => r.elim (.ok ()) (·.map fun _ => ())
  | .broadcastAndWait _, r => r.elim (.ok ()) (·.map fun _ => ())
  | .playUntilDone _, r => r.elim (.ok ()) (·.map fun _ => ())

/-- Waiting for something outside the project leaves the mailbox alone. -/
def Wait.collects : Wait → Bool
  | .outside => false
  | _ => true

/-- A live thread as it is listed. -/
structure ThreadInfo where
  thread : Nat
  group : Nat
  className : String
  owner : Nat
  handler : String
  state : ThreadState

def ThreadInfo.display (i : ThreadInfo) : String :=
  s!"{threadText i.thread} ({groupText i.group}) {i.className}#{i.owner}.{i.handler}: " ++
    i.state.display

end SpriteStage

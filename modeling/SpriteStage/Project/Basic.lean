import SpriteStage.Thread.Basic
import SpriteStage.World.Answer

/-!
A project: a world, the threads that run in it, and the loads it waits for. This module says how
calls are answered, how threads come and go, and how everything is stopped.
-/

namespace SpriteStage

/-- How a wait begins: with something to wait for, or at once with what it came to. -/
inductive Begun (α : Type) where
  | suspends (suspension : Suspension)
  | passes (outcome : Except CallError α)

structure Project where
  world : World := {}
  /-- Live threads in the order of their creation. -/
  threads : List Thread := []
  lastThread : Nat := 0
  /-- Loads that have not been settled, in the order in which they were asked for. -/
  loads : List Load := []
  frame : Nat := 0
  library : Library := fun _ => .finish

namespace Project

def new (config : Config) : Except ProjectError Project :=
  config.check.map fun _ => { world := { config := config } }

def thread? (p : Project) (id : Nat) : Option Thread := p.threads.find? (·.id == id)

def updateThread (p : Project) (id : Nat) (change : Thread → Thread) : Project :=
  { p with threads := p.threads.map fun t => if t.id = id then change t else t }

def updateMailbox (p : Project) (id : Nat) (change : Mailbox → Mailbox) : Project :=
  p.updateThread id fun t => { t with mailbox := change t.mailbox }

def updateWorld (p : Project) (change : World → World) : Project :=
  { p with world := change p.world }

def begin (p : Project) (h : Handle) : (wait : Wait) → Begun wait.Reply × Project
  | .yield =>
    match p.thread? h.thread with
    | none => (.suspends .nextFrame, p)
    | some t =>
      let (yields, rates) := t.mailbox.rates.lap
      if yields then
        (.suspends .nextFrame, p.updateMailbox h.thread fun m => { m with rates := rates })
      else
        (.passes (.ok ()),
          p.updateMailbox h.thread fun m => { m with rates := rates, resume := none })
  | .seconds seconds =>
    if seconds.isFinite then (.suspends (.timer (if seconds > 0.0 then seconds else 0.0)), p)
    else
      (.passes (.error (.invalidArgument "wait_seconds" "duration must be a finite number")), p)
  | .broadcastAndWait message =>
    let (group, world) := p.world.broadcast message
    (.suspends (group.elim .nextFrame .group), { p with world := world })
  | .ask prompt =>
    let (question, world) := p.world.askQuestion h prompt
    (.suspends (.answer question), { p with world := world })
  | .playUntilDone name =>
    match p.world.play h.owner name with
    | .error e => (.passes (.error e), p)
    | .ok (performance, world) => (.suspends (.performance performance), { p with world := world })
  | .delete =>
    let (deletion, world) := p.world.deleteInstance h.owner
    let p := { p with world := world }
    if deletion = .kept then
      (.passes (.ok ()), p.updateMailbox h.thread fun m => { m with resume := none })
    else (.suspends .terminate, p)
  | .stopAll =>
    (.suspends .terminate, p.updateWorld fun w => { w with stopRequested := true })
  | .outside =>
    let left := (p.thread? h.thread).bind (·.mailbox.pending)
    (.suspends (left.getD .nextFrame), p)

def answer : (call : Call) → Project → call.Reply × Project
  | .request h r, p =>
    match p.world.answer h.owner r with
    | .ok (reply, world) => (.ok reply, { p with world := world })
    | .error e => (.error e, p)
  | .pushRate h perFrame, p =>
    ((), p.updateMailbox h.thread fun m => { m with rates := m.rates.push perFrame })
  | .popRate h, p => ((), p.updateMailbox h.thread fun m => { m with rates := m.rates.pop })
  | .start h wait, p =>
    match p.begin h wait with
    | (.passes outcome, p) => (some outcome, p)
    | (.suspends suspension, p) =>
      (none, p.updateMailbox h.thread fun m => { m with pending := some suspension })
  | .keep name h, p =>
    ((), p.updateWorld fun w => { w with handles := (name, h) :: w.handles })
  | .kept name, p => (p.world.handles.lookup name, p)
  | .record entry, p => ((), p.updateWorld (·.record entry))

def make {α : Type} (p : Project) (calls : Calls α) : α × Project := calls.run answer p

/-- Takes a thread out: it leaves its group, and its question is withdrawn. -/
def endThread (p : Project) (id : Nat) : Project :=
  match p.thread? id with
  | none => p
  | some t =>
    { p with
      threads := p.threads.filter (·.id ≠ id)
      world := { p.world.leaveGroup t.group with
        questions := p.world.questions.filter (·.thread ≠ id) } }

/-- Makes a thread of a queued start, unless its instance is gone. -/
def launch (p : Project) (s : Spawn) : Project :=
  if p.world.isLive s.owner then
    let id := p.lastThread + 1
    { p with
      lastThread := id
      threads := p.threads ++ [{
        id := id, group := s.group, actor := s.actor, owner := s.owner, label := s.handler.label
        mailbox := { rates := .new p.world.config.defaultLoopIterationsPerFrame }
        body := .start (s.handler.body ⟨id, s.owner⟩) }] }
  else p.updateWorld (·.leaveGroup s.group)

def launchAll (p : Project) : Project :=
  p.world.spawns.foldl launch (p.updateWorld fun w => { w with spawns := [] })

/-- Ends every thread, deletes every clone, forgets groups, starts and questions, and silences the
mix bus. -/
def stopEverything (p : Project) : Project :=
  { p with
    threads := []
    world := { p.world.removeClones with
      deleted := []
      groups := []
      spawns := []
      questions := []
      stopRequested := false }.stopAllSounds }

/-- What a resumption leaves to be done: a stop, or the end of the threads of deleted instances and
the start of new ones. -/
def settle (p : Project) : Project :=
  if p.world.stopRequested then p.stopEverything
  else
    let doomed := (p.threads.filter fun t => p.world.deleted.contains t.owner).map (·.id)
    (doomed.foldl endThread (p.updateWorld fun w => { w with deleted := [] })).launchAll

theorem answer_error {p : Project} {h : Handle} {r : Request} {e : CallError}
    (hr : p.world.answer h.owner r = .error e) : p.answer (.request h r) = (.error e, p) := by
  simp [answer, hr]

theorem threads_stopEverything (p : Project) : p.stopEverything.threads = [] := rfl

theorem groups_stopEverything (p : Project) : p.stopEverything.world.groups = [] := rfl

end Project

end SpriteStage

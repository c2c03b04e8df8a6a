import SpriteStage.Project.Basic

/-!
Frames. A frame makes one pass over the threads that live at its start, in the order of their
creation, and resumes each one whose wait is over. A body that goes from routine to routine without
pausing is cut off after so many laps; then there is no next state.
-/

namespace SpriteStage

/-- How far a behavior gets before it pauses, ends or turns into a routine. -/
inductive Halt where
  | finished
  | failed (failure : Failure)
  | suspended (suspension : Suspension) (body : Body)
  | jumps (target : Jump)

inductive Resumption where
  | finished
  | failed (failure : Failure)
  | suspended (suspension : Suspension) (body : Body)

namespace Project

/-- Runs a behavior as far as it gets. Whatever it waits for takes the place of what it had left in
the mailbox before. -/
def run (h : Handle) : Behavior → Project → Halt × Project
  | .finish, p => (.finished, p)
  | .fail failure, p => (.failed failure, p)
  | .call call next, p =>
    let (reply, p) := p.answer call
    run h (next reply) p
  | .pause wait next, p =>
    match p.begin h wait with
    | (.passes outcome, p) => run h (next outcome) p
    | (.suspends suspension, p) =>
      (.suspended suspension (.waiting wait next),
        p.updateMailbox h.thread fun m => { m with pending := none })
  | .jump target, p => (.jumps target, p)

def runOn? (h : Handle) : Nat → Behavior → Project → Option (Resumption × Project)
  | 0, _, _ => none
  | laps + 1, behavior, p =>
    match run h behavior p with
    | (.finished, p) => some (.finished, p)
    | (.failed failure, p) => some (.failed failure, p)
    | (.suspended suspension body, p) => some (.suspended suspension body, p)
    | (.jumps target, p) => runOn? h laps (p.library target) p

/-- What a thread does next, and the project with its mailbox emptied as far as that looks at it. -/
def wake (p : Project) (t : Thread) : Behavior × Project :=
  match t.body with
  | .start behavior => (behavior, p)
  | .waiting wait next =>
    (next (wait.outcome t.mailbox.resume),
      if wait.collects then p.updateMailbox t.id fun m => { m with resume := none } else p)

def reportFailure (p : Project) (t : Thread) (failure : Failure) : Project :=
  p.updateWorld fun w =>
    w.report (.thread (w.className t.actor) (w.label t.owner) t.label) failure.message

def step? (laps : Nat) (p : Project) (id : Nat) : Option Project :=
  match p.thread? id with
  | none => some p
  | some t =>
    let (behavior, p) := (p.updateThread id fun t => { t with state := .runnable }).wake t
    match runOn? t.handle laps behavior p with
    | none => none
    | some (.finished, p) => some (p.endThread id).settle
    | some (.failed failure, p) => some ((p.reportFailure t failure).endThread id).settle
    | some (.suspended suspension body, p) =>
      match ThreadState.ofSuspension? suspension with
      | none => some (p.endThread id).settle
      | some state => some (p.updateThread id fun t => { t with state := state, body := body }).settle

/-- Timers tolerate this much rounding. -/
def timerTolerance : Float := 1e-6

inductive Readiness where
  | gone
  | orphaned
  | waiting
  | due
  deriving DecidableEq, Repr

/-- Whether a thread is due. Asking counts one frame off its timer, and hands it the failure of a
performance it waits for. -/
def readiness (p : Project) (id : Nat) : Readiness × Project :=
  match p.thread? id with
  | none => (.gone, p)
  | some t =>
    if p.world.isLive t.owner then
      match t.state with
      | .runnable => (.due, p)
      | .nextFrame => (.due, p)
      | .timer remaining =>
        let remaining := remaining - p.world.config.frameSeconds
        (if remaining ≤ timerTolerance then .due else .waiting,
          p.updateThread id fun t => { t with state := .timer remaining })
      | .group group => (if p.world.groups.any (·.id == group) then .waiting else .due, p)
      | .answer _ => (.waiting, p)
      | .performance performance =>
        match p.world.bus.status performance with
        | .playing => (.waiting, p)
        | .finished => (.due, p)
        | .failed reason =>
          (.due, p.updateMailbox id fun m =>
            { m with resume := some (.error (.invalidArgument "play_sound_until_done" reason)) })
    else (.orphaned, p)

def turn? (laps : Nat) (p : Project) (id : Nat) : Option (Bool × Project) :=
  match p.readiness id with
  | (.gone, p) => some (false, p)
  | (.waiting, p) => some (false, p)
  | (.orphaned, p) => some (false, p.endThread id)
  | (.due, p) => (p.step? laps id).map (true, ·)

def pass? (laps : Nat) : List Nat → Project → Option (List Nat × Project)
  | [], p => some ([], p)
  | id :: ids, p =>
    match p.turn? laps id with
    | none => none
    | some (resumed, p) =>
      (pass? laps ids p).map fun (rest, p) => (if resumed then id :: rest else rest, p)

/-- Starts the handlers for a click: those of the sprite under it, or else those of the stage. -/
def click (w : World) (place : Point) : World :=
  match w.spriteAt? place with
  | some owner => (w.dispatchTo .spriteClicked owner).2
  | none => (w.dispatch .stageClicked).2

/-- Starts the handlers for keys and clicks since the last frame, the keys first. -/
def launchInput (p : Project) : Project :=
  (p.updateWorld fun w =>
    let keyed := w.keyboard.fresh.foldl (fun w name => (w.dispatch (.keyPressed name)).2)
      { w with keyboard := w.keyboard.drained }
    w.pointer.clicks.foldl click { keyed with pointer := w.pointer.drained }).launchAll

/-- Settles the loads that are ready: an asset is stored under what was asked for, an error is
reported. The others stay in their order. -/
def poll (p : Project) : Project :=
  p.loads.foldl
    (fun p load =>
      match load.result? with
      | none => { p with loads := p.loads ++ [load] }
      | some (.ok asset) =>
        p.updateWorld fun w => { w with assets := ((load.kind, load.locator), asset) :: w.assets }
      | some (.error e) => p.updateWorld (·.report .asset e.message))
    { p with loads := [] }

def prepare (p : Project) : Project := ({ p with frame := p.frame + 1 }.poll).launchInput

def frame? (laps : Nat) (p : Project) : Option (List Nat × Project) :=
  pass? laps (p.prepare.threads.map (·.id)) p.prepare

end Project

end SpriteStage

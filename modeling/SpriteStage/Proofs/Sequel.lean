import SpriteStage.Proofs.Pacing
import SpriteStage.Proofs.Runaway

namespace SpriteStage

open Project

namespace Script

section Directives

-- The constructors that are told what to go on with, by what they are given before that.
inductive Routine.Pauses : String → List Value → Except Fault Pause → Prop where
  | nextFrame : Pauses "next_frame" [] (.ok .nextFrame)
  | waitSeconds (seconds : Value) : Pauses "wait_seconds" [seconds] (waitSeconds seconds)
  | broadcastAndWait (message : String) :
      Pauses "broadcast_and_wait" [.text message] (.ok (.broadcastAndWait message))
  | askAndWait (prompt : Value) : Pauses "ask_and_wait" [prompt] (askAndWait prompt)
  | playSoundUntilDone (name : String) :
      Pauses "play_sound_until_done" [.text name] (.ok (.playSoundUntilDone name))
  | deleteThisClone : Pauses "delete_this_clone" [] (.ok .deleteThisClone)

-- What a value names to go on with: of a pointer the function alone, and nothing that it carries.
inductive Routine.Names : Value → Option String → Prop where
  | nothing : Names .unit none
  | text (name : String) : Names (.text name) (some name)
  | pointer (name : String) (given : List Value) : Names (.routine name given) (some name)

theorem Routine.continuation_eq_ok {value : Value} {next : Option String} :
    continuation value = .ok next ↔ Names value next := by
  constructor
  · intro h
    unfold continuation at h
    split at h
    · cases h
      exact .nothing
    · cases h
      exact .pointer _ _
    · cases h
      exact .text _
    · cases h
  · rintro (_ | _ | _) <;> rfl

theorem Routine.ofDirective_of_pauses {name : String} {front : List Value} {value : Value}
    {pause : Except Fault Pause} (h : Pauses name front pause) :
    ofDirective name (front ++ [value]) = andThen pause value := by
  cases h <;> rfl

theorem Routine.issue_of_names {name : String} {front : List Value} {value : Value} {pause : Pause}
    {next : Option String} (h : Pauses name front (.ok pause)) (hn : Names value next) :
    ofDirective name (front ++ [value]) = some (.done (issue pause next)) := by
  rw [ofDirective_of_pauses h, andThen, continuation_eq_ok.2 hn]

end Directives

end Script

def Pause.asks : Pause → Bool
  | .askAndWait _ => true
  | _ => false

-- What a pause tells the function that goes on after it: the answer, if it has asked for one.
def Pause.tells : (pause : Pause) → pause.wait.Reply → List Value
  | .askAndWait _, (answer : String) => [.text answer]
  | .nextFrame, _ | .waitSeconds _, _ | .broadcastAndWait _, _ | .playSoundUntilDone _, _
  | .deleteThisClone, _ | .stopAll, _ => []

namespace Directive

-- The function to go on with. Nothing goes on after everything has been stopped.
def follower? (d : Directive) : Option String :=
  match d.pause with
  | .stopAll => none
  | _ => d.next

def sequel (h : Handle) (d : Directive) : Except CallError d.pause.wait.Reply → Behavior
  | .ok reply => Script.goOn h d.follower? (d.pause.tells reply)
  | .error e => .fail (.call e)

-- The body of a thread that waits for the pause of a directive.
def body (h : Handle) (d : Directive) : Body := .waiting d.pause.wait (d.sequel h)

end Directive

theorem Script.perform_eq (h : Handle) (d : Directive) :
    perform h d = .pause d.pause.wait (d.sequel h) := by
  obtain ⟨pause, next⟩ := d
  cases pause with
  | stopAll =>
    refine congrArg (Behavior.pause _) (funext fun outcome => ?_)
    cases outcome <;> rfl
  | _ =>
    refine congrArg (Behavior.pause _) (funext fun outcome => ?_)
    cases outcome with
    | error e => rfl
    | ok reply => cases next <;> rfl

-- What concerns a thread: a function that it calls, in the project that it does so, or an answer.
inductive Cue where
  | call (target : Jump) (p : Project)
  | answer (text : String)

namespace Script

variable {setting : Setting} {h : Handle} {first target : Jump} {p q : Project} {d : Directive}
  {cues earlier : List Cue}

-- The directive that a call gives back, if it gives one back.
def directive? (setting : Setting) (target : Jump) (p : Project) : Option Directive :=
  match (Calling.result setting target.handle ⟨target.routine, target.arguments, p⟩).1.result with
  | .ok (.directive d) => some d
  | _ => none

-- What a thread has to call next, by what has concerned it so far, the last first.
def due? (setting : Setting) (first : Jump) : List Cue → Option Jump
  | [] => some first
  | .call target p :: _ =>
    (directive? setting target p).bind fun d =>
      if d.pause.asks then none else d.follower?.map (⟨target.handle, ·, []⟩)
  | .answer text :: .call target p :: _ =>
    (directive? setting target p).bind fun d =>
      if d.pause.asks then d.follower?.map (⟨target.handle, ·, [.text text]⟩) else none
  | .answer _ :: _ => none

-- Every call was due when it was made.
def Orderly (setting : Setting) (first : Jump) : List Cue → Prop
  | [] => True
  | .answer _ :: cues => Orderly setting first cues
  | .call target _ :: cues => due? setting first cues = some target ∧ Orderly setting first cues

end Script

namespace Project

variable {h : Handle} {p q : Project} {laps id : Nat}

-- What a body turns into, one function after another.
def jumpsOn (h : Handle) : Nat → Behavior → Project → List Cue
  | 0, _, _ => []
  | laps + 1, behavior, p =>
    match run h behavior p with
    | (.jumps target, q) => jumpsOn h laps (q.library target) q ++ [.call target q]
    | _ => []

-- The functions that a thread calls in its turn, the last first.
def turnJumps (laps : Nat) (p : Project) (id : Nat) : List Cue :=
  match p.readiness id with
  | (.due, p) =>
    (p.thread? id).elim [] fun t => jumpsOn t.handle laps (p.woken t).1 (p.woken t).2
  | _ => []

end Project

namespace Script.Calling

variable {setting : Setting} {h : Handle} {c c' : Calling} {pause : Pause} {first : Jump}
  {earlier : List Cue} {p q : Project} {laps : Nat} {r : Resumption} {suspension : Suspension}
  {body : Body}

theorem directive?_eq_some {d : Directive} : directive? setting (c.jump h) c.project = some d ↔
    (c.result setting h).1.result = .ok (.directive d) := by
  change (match (c.result setting h).1.result with
    | .ok (.directive d) => some d
    | _ => none) = some d ↔ _
  split
  · rename_i d' hd
    rw [hd]
    exact ⟨fun h => by cases h; rfl, fun h => by cases h; rfl⟩
  · rename_i hn
    exact ⟨nofun, fun h => absurd h (hn d)⟩

theorem due?_of_leads (hl : c.Leads setting h pause c') :
    due? setting first (.call (c.jump h) c.project :: earlier) = some (c'.jump h) := by
  cases hl with
  | mk hr hd hn hp =>
    rename_i f q d function
    have hdirective : directive? setting (c.jump h) c.project = some d :=
      directive?_eq_some.2 (by rw [hr]; exact hd)
    obtain ⟨pause, next⟩ := d
    simp only [due?, hdirective, Option.bind_some]
    obtain rfl : next = some function := hn
    cases hp <;> rfl

-- A call that ends in a pause has given back the directive that it pauses for.
theorem directive_of_suspended
    (hr : Project.run h (library setting (c.jump h)) c.project = (.suspended suspension body, q)) :
    ∃ d, directive? setting (c.jump h) c.project = some d ∧ body = d.body h := by
  rw [run_library] at hr
  unfold conclude at hr
  split at hr
  · cases hr
  · rename_i d hd
    refine ⟨d, directive?_eq_some.2 hd, ?_⟩
    rw [perform_eq, Project.run] at hr
    split at hr
    · rename_i outcome mid hb
      cases outcome with
      | error e => cases hr
      | ok reply =>
        simp only [Directive.sequel, goOn] at hr
        split at hr <;> cases hr
    · cases hr
      rfl
  · split at hr <;> cases hr

-- How the calls of a resumption follow each other, and where they leave the thread.
theorem orderly_runOn (hlib : c.project.library = library setting)
    (ho : Orderly setting first (.call (c.jump h) c.project :: earlier))
    (hr : runOn? h laps (library setting (c.jump h)) c.project = some (r, q)) :
    ∃ (last : Calling) (others : List Cue),
      jumpsOn h laps (library setting (c.jump h)) c.project ++
          .call (c.jump h) c.project :: earlier = .call (last.jump h) last.project :: others ∧
        Orderly setting first (.call (last.jump h) last.project :: others) ∧
        ∀ suspension body, r = .suspended suspension body →
          ∃ d, directive? setting (last.jump h) last.project = some d ∧ body = d.body h := by
  induction laps generalizing c earlier with
  | zero => cases hr
  | succ laps ih =>
    simp only [runOn?] at hr
    simp only [jumpsOn]
    split at hr
    · rename_i mid hm
      rw [hm]
      cases hr
      exact ⟨c, earlier, rfl, ho, fun _ _ he => by cases he⟩
    · rename_i mid hm
      rw [hm]
      cases hr
      exact ⟨c, earlier, rfl, ho, fun _ _ he => by cases he⟩
    · rename_i suspension body mid hm
      rw [hm]
      cases hr
      refine ⟨c, earlier, rfl, ho, ?_⟩
      rintro _ _ ⟨⟩
      exact directive_of_suspended hm
    · rename_i target mid hm
      obtain ⟨pause, c', hl, rfl, rfl⟩ := leads_of_run hm
      have hlib' : c'.project.library = library setting := hl.library.trans hlib
      rw [hlib'] at hr
      rw [hm]
      dsimp only
      rw [hlib', List.append_assoc]
      exact ih hlib' ⟨due?_of_leads hl, ho⟩ hr

end Script.Calling

-- How a thread stands between its turns, by what has concerned it so far.
inductive Script.Poised (setting : Setting) (first : Jump) (t : Thread) : List Cue → Prop where
  | begins (hh : first.handle = t.handle) (hb : t.body = .start (.jump first)) :
      Poised setting first t []
  | waits {target : Jump} {p : Project} {earlier : List Cue} {d : Directive}
      (hd : directive? setting target p = some d) (hh : target.handle = t.handle)
      (hb : t.body = d.body t.handle) (hr : t.mailbox.resume = none)
      (hs : d.pause.asks = true → ∃ n, t.state = .answer n) :
      Poised setting first t (.call target p :: earlier)
  | answered {target : Jump} {p : Project} {earlier : List Cue} {d : Directive} {text : String}
      (hd : directive? setting target p = some d) (hh : target.handle = t.handle)
      (hb : t.body = d.body t.handle) (ha : d.pause.asks = true)
      (hr : t.mailbox.resume = some (.ok text)) :
      Poised setting first t (.answer text :: .call target p :: earlier)

-- The failure of a performance that a thread has waited for.
def Thread.Disappointed (p : Project) (t : Thread) (e : CallError) : Prop :=
  ∃ n reason, t.state = .performance n ∧ p.world.bus.status n = .failed reason ∧
    e = .invalidArgument "play_sound_until_done" reason

namespace Project

variable {p : Project} {t u : Thread}

-- What a thread that is due finds in its mailbox.
theorem heard_readiness (ht : p.thread? t.id = some t) (hd : (p.readiness t.id).1 = .due)
    (hu : (p.readiness t.id).2.thread? t.id = some u) :
    u.body = t.body ∧ u.handle = t.handle ∧ (∀ n, t.state ≠ .answer n) ∧
      (u.mailbox.resume = t.mailbox.resume ∨
        ∃ e, t.Disappointed p e ∧ u.mailbox.resume = some (.error e)) := by
  unfold readiness at hd hu
  simp only [ht] at hd hu
  split at hu
  · rename_i hlive
    rw [if_pos hlive] at hd
    have hasks : ∀ n, t.state ≠ .answer n := fun n hn => by
      rw [hn] at hd
      cases hd
    cases hs : t.state with
    | answer n => exact absurd hs (hasks n)
    | timer remaining =>
      simp only [hs] at hu
      rw [thread?_updateThread (by intro; rfl), ht] at hu
      cases hu
      exact ⟨rfl, rfl, hs ▸ hasks, .inl rfl⟩
    | performance n =>
      simp only [hs] at hd hu
      cases hb : p.world.bus.status n with
      | failed reason =>
        simp only [hb, updateMailbox] at hu
        rw [thread?_updateThread (by intro; rfl), ht] at hu
        cases hu
        exact ⟨rfl, rfl, hs ▸ hasks, .inr ⟨_, ⟨n, reason, hs, hb, rfl⟩, rfl⟩⟩
      | _ =>
        simp only [hb, ht] at hu
        cases hu
        exact ⟨rfl, rfl, hs ▸ hasks, .inl rfl⟩
    | _ =>
      simp only [hs, ht] at hu
      cases hu
      exact ⟨rfl, rfl, hs ▸ hasks, .inl rfl⟩
  · rename_i hgone
    rw [if_neg hgone] at hd
    cases hd

end Project

namespace Script.Poised

variable {setting : Setting} {first : Jump} {cues : List Cue} {p : Project} {t u : Thread}

-- What a thread goes on with when it is due.
inductive Wakes (setting : Setting) (first : Jump) (cues : List Cue) (p : Project) (t u : Thread) :
    Behavior → Prop where
  | calls {target : Jump} (hd : due? setting first cues = some target)
      (hh : target.handle = u.handle) : Wakes setting first cues p t u (.jump target)
  | ends (hd : due? setting first cues = none) : Wakes setting first cues p t u .finish
  | fails {e : CallError} (he : t.Disappointed p e) :
      Wakes setting first cues p t u (.fail (.call e))

theorem wakes (hp : Poised setting first t cues) (ht : p.thread? t.id = some t)
    (hd : (p.readiness t.id).1 = .due) (hu : (p.readiness t.id).2.thread? t.id = some u)
    (w : Project) : Wakes setting first cues p t u (w.woken u).1 := by
  obtain ⟨hbody, hhandle, hasks, hheard⟩ := heard_readiness ht hd hu
  cases hp with
  | begins hh hb =>
    simp only [woken, wake, hbody, hb]
    exact .calls rfl (hh.trans hhandle.symm)
  | waits hd hh hb hr hs =>
    rename_i target q earlier d
    have hnot : d.pause.asks = false := by
      by_contra hne
      obtain ⟨n, hn⟩ := hs (by simpa using hne)
      exact hasks n hn
    have hdue : due? setting first (.call target q :: earlier) =
        d.follower?.map (⟨target.handle, ·, []⟩) := by
      simp only [due?, hd, Option.bind_some, hnot, Bool.false_eq_true, if_false]
    have hwoken : (w.woken u).1 = d.sequel t.handle (d.pause.wait.outcome u.mailbox.resume) := by
      simp only [woken, wake, hbody, hb, Directive.body]
    rw [hwoken]
    obtain ⟨pause, next⟩ := d
    rcases hheard with hsame | ⟨e, he, herror⟩
    · rw [hsame, hr]
      cases pause with
      | askAndWait prompt => cases hnot
      | stopAll => exact .ends hdue
      | _ =>
        cases next with
        | none => exact .ends hdue
        | some function =>
          exact .calls (hdue.trans (by rw [hh]; rfl)) hhandle.symm
    · rw [herror]
      cases pause with
      | askAndWait prompt => cases hnot
      | _ => exact .fails he
  | answered hd hh hb ha hr =>
    rename_i target q earlier d text
    have hdue : due? setting first (.answer text :: .call target q :: earlier) =
        d.follower?.map (⟨target.handle, ·, [.text text]⟩) := by
      simp only [due?, hd, Option.bind_some, ha, if_true]
    have hwoken : (w.woken u).1 = d.sequel t.handle (d.pause.wait.outcome u.mailbox.resume) := by
      simp only [woken, wake, hbody, hb, Directive.body]
    rw [hwoken]
    obtain ⟨pause, next⟩ := d
    cases pause with
    | askAndWait prompt =>
      rcases hheard with hsame | ⟨e, he, herror⟩
      · rw [hsame, hr]
        cases next with
        | none => exact .ends hdue
        | some function => exact .calls (hdue.trans (by rw [hh]; rfl)) hhandle.symm
      · rw [herror]
        exact .fails he
    | _ => cases ha

-- How a resumption goes, by the functions that it calls and by what it comes to.
inductive Runs (setting : Setting) (first : Jump) (cues : List Cue) (p : Project) (t u : Thread)
    (jumps : List Cue) (r : Resumption) : Prop where
  | calls {target : Jump} {q : Project} {later others : List Cue} {latest : Calling}
      (hd : due? setting first cues = some target) (hj : jumps = later ++ [.call target q])
      (hl : jumps ++ cues = .call (latest.jump u.handle) latest.project :: others)
      (ho : Orderly setting first (jumps ++ cues))
      (hr : ∀ suspension body, r = .suspended suspension body → ∃ d : Directive,
        directive? setting (latest.jump u.handle) latest.project = some d ∧
          body = d.body u.handle) : Runs setting first cues p t u jumps r
  | ends (hd : due? setting first cues = none) (hj : jumps = []) (hr : r = .finished) :
      Runs setting first cues p t u jumps r
  | fails {e : CallError} (hd : t.Disappointed p e) (hj : jumps = []) (hr : r = .failed (.call e)) :
      Runs setting first cues p t u jumps r

theorem Wakes.runs {b : Behavior} {w last : Project} {laps : Nat} {r : Resumption}
    (hw : Wakes setting first cues p t u b) (hlib : w.library = library setting)
    (ho : Orderly setting first cues) (hr : runOn? u.handle laps b w = some (r, last)) :
    Runs setting first cues p t u (jumpsOn u.handle laps b w) r := by
  cases laps with
  | zero => cases hr
  | succ laps =>
    cases hw with
    | calls hd hh =>
      rename_i target
      let c : Calling := ⟨target.routine, target.arguments, w⟩
      have hjump : c.jump u.handle = target := by rw [← hh]; rfl
      simp only [runOn?, Project.run, hlib] at hr
      rw [← hjump] at hr hd ⊢
      obtain ⟨latest, others, heq, horderly, hsuspended⟩ :=
        Calling.orderly_runOn (c := c) hlib ⟨hd, ho⟩ hr
      have hjumps : jumpsOn u.handle (laps + 1) (.jump (c.jump u.handle)) w =
          jumpsOn u.handle laps (library setting (c.jump u.handle)) c.project ++
            [.call (c.jump u.handle) c.project] := by
        simp only [jumpsOn, Project.run, hlib, c]
      rw [hjumps]
      have hall := (List.append_assoc _ [.call (c.jump u.handle) c.project] cues).trans heq
      exact .calls hd rfl hall (hall ▸ horderly) hsuspended
    | ends hd =>
      cases hr
      exact .ends hd rfl rfl
    | fails hd =>
      cases hr
      exact .fails hd rfl rfl

end Script.Poised

end SpriteStage

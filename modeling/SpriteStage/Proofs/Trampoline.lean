import Mathlib.Logic.Function.Iterate
import SpriteStage.Proofs.Deed
import SpriteStage.Script.Load

namespace SpriteStage

open Project

def Behavior.Loyal (h : Handle) : Behavior → Prop
  | .finish | .fail _ => True
  | .call _ next => ∀ reply, (next reply).Loyal h
  | .pause _ next => ∀ outcome, (next outcome).Loyal h
  | .jump target => target.handle = h

-- The routines that a body turns into are called through its own handle.
def Conduct.loyal : Conduct := ⟨fun h b => b.Loyal h, id, id⟩

def Pause.wait : Pause → Wait
  | .nextFrame => .yield
  | .waitSeconds seconds => .seconds seconds
  | .broadcastAndWait message => .broadcastAndWait message
  | .askAndWait prompt => .ask prompt
  | .playSoundUntilDone name => .playUntilDone name
  | .deleteThisClone => .delete
  | .stopAll => .stopAll

-- What a directive does at once, if it does not pause and does not end the thread.
inductive Pause.Passes (h : Handle) (p : Project) : Pause → Prop where
  | yield {t : Thread} (ht : p.thread? h.thread = some t) (hl : t.mailbox.rates.lap.1 = false) :
      Passes h p .nextFrame
  | kept {i : Instance} (hi : p.world.instance? h.owner = some i) (hc : i.isClone = false) :
      Passes h p .deleteThisClone

theorem World.original_of_kept {w : World} {id : Nat} (h : (w.deleteInstance id).1 = .kept) :
    ∃ i, w.instance? id = some i ∧ i.isClone = false := by
  unfold deleteInstance at h
  split at h
  · cases h
  · rename_i i hi
    split at h
    · cases h
    · rename_i hc
      exact ⟨i, hi, by simpa using hc⟩

theorem Project.library_of_run (h : Handle) (b : Behavior) (p : Project) :
    (run h b p).2.library = p.library := by
  have hb : Conduct.any.keeps h b := trivial
  obtain ⟨q, hd, hc⟩ := deeds_run hb p
  rw [← hd.library]
  generalize run h b p = result at hc
  obtain ⟨halt, r⟩ := result
  cases hc with
  | suspended hk hw =>
    exact (congrArg (·.2.library) hw).symm.trans (library_begin q h _)
  | _ => rfl

namespace Script

-- Answers to a script that runs in a thread.
def Query.answer : (query : Query) → Project → query.Reply × Project
  | .call c _, p => p.answer c
  | .declare _, p => (.error "register() can only be used at the top level of the script", p)
  | .limitLoops _, p => ((), p)
  | .countLoop, p => (none, p)

theorem run_behavior {α : Type} (h : Handle) (i : Inquiry α) (k : α → Behavior) (p : Project) :
    Project.run h (i.behavior k) p =
      Project.run h (k (i.run Query.answer p).1) (i.run Query.answer p).2 := by
  induction i generalizing p with
  | done result => rfl
  | ask query next ih =>
    cases query with
    | call c awaits => exact ih _ _
    | declare d => exact ih _ _
    | limitLoops max => exact ih _ _
    | countLoop => exact ih _ _

theorem loyal_behavior {α : Type} {h : Handle} (i : Inquiry α) {k : α → Behavior}
    (hk : ∀ result, (k result).Loyal h) : (i.behavior k).Loyal h := by
  induction i with
  | done result => exact hk result
  | ask query next ih =>
    cases query with
    | call c awaits => exact fun reply => ih reply
    | declare d => exact ih _
    | limitLoops max => exact ih _
    | countLoop => exact ih _

def goOn (h : Handle) (next : Option String) (arguments : List Value) : Behavior :=
  match next with
  | none => .finish
  | some function => .jump ⟨h, function, arguments⟩

theorem loyal_goOn (h : Handle) (next : Option String) (arguments : List Value) :
    (goOn h next arguments).Loyal h := by
  cases next with
  | none => trivial
  | some function => rfl

theorem loyal_perform (h : Handle) (d : Directive) : (perform h d).Loyal h := by
  obtain ⟨pause, next⟩ := d
  unfold perform
  cases pause with
  | stopAll =>
    intro outcome
    cases outcome <;> trivial
  | _ =>
    intro outcome
    cases outcome with
    | error e => trivial
    | ok reply => exact loyal_goOn h next _

theorem loyal_conclude (h : Handle) (function : String) (f : Finish) :
    (conclude h function f).Loyal h := by
  unfold conclude
  split
  · trivial
  · exact loyal_perform h _
  · split <;> trivial

theorem lawful_loyal (setting : Setting) : Lawful .loyal (library setting) := by
  intro h target ht
  cases ht
  exact loyal_behavior _ (loyal_conclude target.handle target.routine)

-- A call of a function of the script, and the project that it is made in.
structure Calling where
  function : String
  arguments : List Value
  project : Project

namespace Calling

variable {setting : Setting} {h : Handle} {c c' : Calling} {pause : Pause} {r : Project}
  {target : Jump}

def jump (h : Handle) (c : Calling) : Jump := ⟨h, c.function, c.arguments⟩

def result (setting : Setting) (h : Handle) (c : Calling) : Finish × Project :=
  (Program.callFor setting h c.function c.arguments).run Query.answer c.project

-- A call comes to a directive that passes at once, so another call follows without a pause.
inductive Leads (setting : Setting) (h : Handle) (c : Calling) : Pause → Calling → Prop where
  | mk {f : Finish} {q : Project} {d : Directive} {function : String}
      (hr : c.result setting h = (f, q)) (hd : f.result = .ok (.directive d))
      (hn : d.next = some function) (hp : d.pause.Passes h q) :
      Leads setting h c d.pause ⟨function, [], (q.begin h d.pause.wait).2⟩

def Spins (setting : Setting) (h : Handle) (calls : Nat → Calling) (pauses : Nat → Pause) : Prop :=
  ∀ n, (calls n).Leads setting h (pauses n) (calls (n + 1))

def Endless (setting : Setting) (h : Handle) (c : Calling) : Prop :=
  ∃ calls pauses, calls 0 = c ∧ Spins setting h calls pauses

theorem run_perform_of_passes {q : Project} {d : Directive} (hp : d.pause.Passes h q) :
    Project.run h (perform h d) q =
      Project.run h (goOn h d.next []) (q.begin h d.pause.wait).2 := by
  obtain ⟨pause, next⟩ := d
  cases hp with
  | yield ht hl =>
    simp only [perform, Project.run, begin, Pause.wait, ht, hl, Bool.false_eq_true, if_false]
    rfl
  | kept hi hc =>
    have hd := World.deleteInstance_founder hi hc
    simp only [perform, Project.run, begin, Pause.wait, hd, if_true]
    rfl

theorem passes_of_begin {q : Project} {pause : Pause}
    {outcome : Except CallError pause.wait.Reply}
    (hb : q.begin h pause.wait = (.passes outcome, r)) :
    pause.Passes h q ∨ ∃ e, outcome = .error e := by
  cases pause with
  | nextFrame =>
    cases ht : q.thread? h.thread with
    | none =>
      simp only [Pause.wait, begin, ht] at hb
      cases hb
    | some t =>
      cases hl : t.mailbox.rates.lap.1 with
      | false => exact .inl (.yield ht hl)
      | true =>
        simp only [Pause.wait, begin, ht, hl, if_true] at hb
        cases hb
  | deleteThisClone =>
    by_cases hk : (q.world.deleteInstance h.owner).1 = .kept
    · obtain ⟨i, hi, hc⟩ := World.original_of_kept hk
      exact .inl (.kept hi hc)
    · simp only [Pause.wait, begin, hk, if_false] at hb
      cases hb
  | waitSeconds seconds =>
    simp only [Pause.wait, begin] at hb
    split at hb
    · cases hb
    · cases hb
      exact .inr ⟨_, rfl⟩
  | playSoundUntilDone name =>
    simp only [Pause.wait, begin] at hb
    split at hb
    · cases hb
      exact .inr ⟨_, rfl⟩
    · cases hb
  | _ => cases hb

theorem passes_of_perform {q : Project} {d : Directive}
    (hr : Project.run h (perform h d) q = (.jumps target, r)) :
    d.pause.Passes h q ∧ ∃ function, d.next = some function ∧ target = ⟨h, function, []⟩ ∧
      r = (q.begin h d.pause.wait).2 := by
  obtain ⟨k, hk, hfail⟩ : ∃ k, perform h d = .pause d.pause.wait k ∧
      ∀ e, k (.error e) = .fail (.call e) := by
    obtain ⟨pause, next⟩ := d
    cases pause <;> exact ⟨_, rfl, fun _ => rfl⟩
  have hp : d.pause.Passes h q := by
    rw [hk] at hr
    simp only [Project.run] at hr
    split at hr
    · rename_i outcome mid hb
      rcases passes_of_begin hb with hp | ⟨e, rfl⟩
      · exact hp
      · rw [hfail] at hr
        cases hr
    · cases hr
  rw [run_perform_of_passes hp] at hr
  cases hn : d.next with
  | none =>
    rw [hn] at hr
    cases hr
  | some function =>
    rw [hn] at hr
    cases hr
    exact ⟨hp, function, rfl, rfl, rfl⟩

theorem run_library (setting : Setting) (h : Handle) (c : Calling) :
    Project.run h (library setting (c.jump h)) c.project =
      Project.run h (conclude h c.function (c.result setting h).1) (c.result setting h).2 :=
  run_behavior h _ _ _

theorem run_of_leads (hl : c.Leads setting h pause c') :
    Project.run h (library setting (c.jump h)) c.project = (.jumps (c'.jump h), c'.project) := by
  cases hl with
  | mk hr hd hn hp =>
    rw [run_library, hr]
    simp only [conclude, hd]
    rw [run_perform_of_passes hp, hn]
    rfl

theorem leads_of_run
    (hr : Project.run h (library setting (c.jump h)) c.project = (.jumps target, r)) :
    ∃ pause c', c.Leads setting h pause c' ∧ target = c'.jump h ∧ r = c'.project := by
  rw [run_library] at hr
  cases hc : c.result setting h with
  | mk f q =>
    rw [hc] at hr
    unfold conclude at hr
    split at hr
    · cases hr
    · rename_i d hd
      obtain ⟨hp, function, hn, rfl, rfl⟩ := passes_of_perform hr
      exact ⟨_, _, .mk hc hd hn hp, rfl, rfl⟩
    · split at hr <;> cases hr

theorem Endless.leads (he : c.Endless setting h) :
    ∃ pause c', c.Leads setting h pause c' ∧ c'.Endless setting h := by
  obtain ⟨calls, pauses, rfl, hl⟩ := he
  exact ⟨pauses 0, calls 1, hl 0, fun n => calls (n + 1), fun n => pauses (n + 1), rfl,
    fun n => hl (n + 1)⟩

theorem endless_of_progress {P : Calling → Prop}
    (progress : ∀ c, P c → ∃ pause c', c.Leads setting h pause c' ∧ P c') (hc : P c) :
    c.Endless setting h := by
  have hnext : ∀ c : {c // P c}, ∃ (pause : Pause) (c' : {c // P c}),
      c.1.Leads setting h pause c'.1 := fun c => by
    obtain ⟨pause, c', hl, hp⟩ := progress c.1 c.2
    exact ⟨pause, ⟨c', hp⟩, hl⟩
  choose pause next hl using hnext
  refine ⟨fun n => (next^[n] ⟨c, hc⟩).1, fun n => pause (next^[n] ⟨c, hc⟩), rfl, fun n => ?_⟩
  simp only [Function.iterate_succ_apply']
  exact hl _

theorem Leads.library (hl : c.Leads setting h pause c') : c'.project.library = c.project.library := by
  have hr := library_of_run h (Script.library setting (c.jump h)) c.project
  rwa [run_of_leads hl] at hr

theorem runOn?_of_leads {laps : Nat} (hlib : c.project.library = Script.library setting)
    (hl : c.Leads setting h pause c') :
    runOn? h (laps + 1) (Script.library setting (c.jump h)) c.project =
      runOn? h laps (Script.library setting (c'.jump h)) c'.project := by
  simp only [runOn?, run_of_leads hl]
  rw [hl.library, hlib]

-- The laps of a resumption are calls that come to directives which pass at once.
theorem endless_iff (hlib : c.project.library = Script.library setting) :
    (∀ laps, runOn? h laps (Script.library setting (c.jump h)) c.project = none) ↔
      c.Endless setting h := by
  constructor
  · intro hn
    refine endless_of_progress (P := fun c => c.project.library = Script.library setting ∧
      ∀ laps, runOn? h laps (Script.library setting (c.jump h)) c.project = none) ?_ ⟨hlib, hn⟩
    rintro c ⟨hlib, hn⟩
    have hone := hn 1
    simp only [runOn?] at hone
    split at hone
    · cases hone
    · cases hone
    · cases hone
    · rename_i target r hr
      obtain ⟨pause, c', hl, rfl, rfl⟩ := leads_of_run hr
      refine ⟨pause, c', hl, hl.library.trans hlib, fun laps => ?_⟩
      rw [← runOn?_of_leads hlib hl]
      exact hn (laps + 1)
  · intro he laps
    induction laps generalizing c with
    | zero => rfl
    | succ laps ih =>
      obtain ⟨pause, c', hl, he'⟩ := he.leads
      rw [runOn?_of_leads hlib hl]
      exact ih (hl.library.trans hlib) he'

end Calling

end Script

end SpriteStage

import Mathlib.Data.List.Count
import Mathlib.Data.List.Nodup
import Mathlib.Logic.Relation
import SpriteStage.Project.Host
import SpriteStage.Project.Register

namespace SpriteStage

structure World.SameCast (w w' : World) : Prop where
  actors : w'.actors = w.actors
  instances : w'.instances = w.instances
  groups : w'.groups = w.groups
  spawns : w'.spawns = w.spawns
  deleted : w'.deleted = w.deleted
  stopRequested : w'.stopRequested = w.stopRequested
  questions : w'.questions = w.questions
  lastInstance : w'.lastInstance = w.lastInstance
  lastGroup : w'.lastGroup = w.lastGroup
  lastQuestion : w'.lastQuestion = w.lastQuestion
  errors : w'.errors = w.errors

theorem World.SameCast.refl (w : World) : w.SameCast w :=
  ⟨rfl, rfl, rfl, rfl, rfl, rfl, rfl, rfl, rfl, rfl, rfl⟩

def World.place (w : World) (i : Instance) (a : Actor) : World :=
  { w with
    lastInstance := w.lastInstance + 1
    instances := w.instances ++ [i.cloned (w.lastInstance + 1)] }.updateActor a.id fun a =>
      { a with instances := insertBefore i.id (w.lastInstance + 1) a.instances }

def World.enrol (w : World) (c : ActorClass) (groups : List HandlerGroup) (figure : Figure) :
    World :=
  { w with
    lastInstance := w.lastInstance + 1
    actors := w.actors ++ [Project.actorOf c groups w.actors.length (w.lastInstance + 1)]
    instances := w.instances ++ [⟨w.lastInstance + 1, w.actors.length, none, figure⟩] }

theorem World.createClone_eq_ok {w w' : World} {source : CloneSource} {id : Nat}
    (h : w.createClone source = .ok (id, w')) :
    ∃ parent i a, w.resolve source = .ok parent ∧ w.member parent = .ok (i, a) ∧
      id = w.lastInstance + 1 ∧ i.id = parent ∧
      w' = ((w.place i a).dispatchTo .startAsClone (w.lastInstance + 1)).2 := by
  unfold createClone at h
  cases hr : w.resolve source with
  | error e => simp [hr] at h
  | ok parent =>
    cases hm : w.member parent with
    | error e => simp [hr, hm] at h
    | ok found =>
      obtain ⟨i, a⟩ := found
      have hi : i.id = parent := by
        unfold member at hm
        split at hm
        · cases hm
        · rename_i j hj
          split at hm
          · cases hm
          · cases hm
            simpa using List.find?_some hj
      simp only [hr, hm, Except.ok.injEq, Prod.mk.injEq] at h
      obtain ⟨rfl, rfl⟩ := h
      exact ⟨parent, i, a, rfl, hm, rfl, hi, by rw [← hi]; rfl⟩

structure Thread.Continues (t t' : Thread) : Prop where
  id : t'.id = t.id
  group : t'.group = t.group
  actor : t'.actor = t.actor
  owner : t'.owner = t.owner
  label : t'.label = t.label

theorem Thread.Continues.refl (t : Thread) : t.Continues t := ⟨rfl, rfl, rfl, rfl, rfl⟩

theorem Thread.Continues.trans {t t' t'' : Thread} (h : t.Continues t') (h' : t'.Continues t'') :
    t.Continues t'' :=
  ⟨h'.id.trans h.id, h'.group.trans h.group, h'.actor.trans h.actor, h'.owner.trans h.owner,
    h'.label.trans h.label⟩

structure Thread.Stays (t t' : Thread) : Prop extends t.Continues t' where
  state : t'.state = t.state
  body : t'.body = t.body

theorem Thread.Stays.refl (t : Thread) : t.Stays t := ⟨.refl t, rfl, rfl⟩

theorem Thread.Stays.trans {t t' t'' : Thread} (h : t.Stays t') (h' : t'.Stays t'') : t.Stays t'' :=
  ⟨h.toContinues.trans h'.toContinues, h'.state.trans h.state, h'.body.trans h.body⟩

namespace Project

structure Aside (p q : Project) : Prop where
  threads : q.threads = p.threads
  lastThread : q.lastThread = p.lastThread
  library : q.library = p.library
  world : p.world.SameCast q.world

def cleared (p : Project) : Project :=
  { p with
    threads := []
    world := { p.world with
      deleted := [], groups := [], spawns := [], questions := [], stopRequested := false } }

end Project

structure Conduct where
  keeps : Handle → Behavior → Prop
  call {h : Handle} {c : Call} {next : c.Reply → Behavior} :
    keeps h (.call c next) → ∀ reply, keeps h (next reply)
  pause {h : Handle} {wait : Wait} {next : Except CallError wait.Reply → Behavior} :
    keeps h (.pause wait next) → ∀ outcome, keeps h (next outcome)

def Conduct.any : Conduct := ⟨fun _ _ => True, fun _ _ => trivial, fun _ _ => trivial⟩

def Conduct.Awaits (κ : Conduct) : Prop :=
  ∀ (h : Handle) (c : Call) (next : c.Reply → Behavior),
    κ.keeps h (.call c next) → c.startsWait = false

def Body.Keeps (κ : Conduct) (h : Handle) : Body → Prop
  | .start behavior => κ.keeps h behavior
  | .waiting _ next => ∀ outcome, κ.keeps h (next outcome)

-- Which threads may change their state or ask, which instances may go, how new handlers behave, and
-- whether failures may be reported.
structure Scope where
  turns : Nat → Prop
  removes : Nat → Prop
  conduct : Conduct
  reports : Prop

structure Scope.Open (σ : Scope) : Prop where
  removes : ∀ id, σ.removes id
  reports : σ.reports

def Scope.under (κ : Conduct) : Scope := ⟨fun _ => True, fun _ => True, κ, True⟩

namespace Project

inductive Change (σ : Scope) (p : Project) : Project → Prop where
  | aside {q : Project} (h : p.Aside q) : Change σ p q
  | reported (h : σ.reports) (errors : List Report) :
      Change σ p (p.updateWorld fun w => { w with errors := errors })
  | reshaped (id : Nat) (change : Figure → Figure) :
      Change σ p (p.updateWorld (·.reshape id change))
  | mailbox (id : Nat) (change : Mailbox → Mailbox) : Change σ p (p.updateMailbox id change)
  | turn {id : Nat} {change : Thread → Thread} (hid : σ.turns id)
      (h : ∀ t : Thread, t.Continues (change t))
      (hb : ∀ t ∈ p.threads, t.id = id → t.body.Keeps σ.conduct t.handle →
        (change t).body.Keeps σ.conduct t.handle) : Change σ p (p.updateThread id change)
  | dispatched (trigger : Trigger) : Change σ p (p.updateWorld fun w => (w.dispatch trigger).2)
  | dispatchedTo (trigger : Trigger) (owner : Nat) :
      Change σ p (p.updateWorld fun w => (w.dispatchTo trigger owner).2)
  | placed {source : CloneSource} {parent : Nat} {i : Instance} {a : Actor}
      (hr : p.world.resolve source = .ok parent) (hm : p.world.member parent = .ok (i, a)) :
      Change σ p (p.updateWorld (·.place i a))
  | asked {h : Handle} (ht : σ.turns h.thread) (hl : σ.conduct.Awaits → h.thread ≤ p.lastThread)
      (prompt : Option String) : Change σ p (p.updateWorld fun w => (w.askQuestion h prompt).2)
  | heard {question : Question} {rest : List Question}
      (h : p.world.questions = question :: rest) :
      Change σ p (p.updateWorld fun w => { w with questions := rest })
  | stopping : Change σ p (p.updateWorld fun w => { w with stopRequested := true })
  | removed {id : Nat} (h : σ.removes id) :
      Change σ p (p.updateWorld fun w => (w.deleteInstance id).2)
  | ended (id : Nat) : Change σ p (p.endThread id)
  | launched {s : Spawn} {rest : List Spawn} (h : p.world.spawns = s :: rest) :
      Change σ p ((p.updateWorld fun w => { w with spawns := rest }).launch s)
  | purged (h : ∀ t ∈ p.threads, t.owner ∉ p.world.deleted) :
      Change σ p (p.updateWorld fun w => { w with deleted := [] })
  | cleared : Change σ p p.cleared
  | allocated : Change σ p (p.updateWorld fun w => { w with lastInstance := w.lastInstance + 1 })
  | enrolled {c : ActorClass} {kind : ActorKind} {groups : List HandlerGroup} (figure : Figure)
      (hr : refusal? p.world c kind = none) (hg : c.groups = .ok groups)
      (hc : ∀ d ∈ c.handlers, ∀ h, σ.conduct.keeps h (d.handler.body h)) :
      Change σ p (p.updateWorld (·.enrol c groups figure))

abbrev Changes (σ : Scope) : Project → Project → Prop := Relation.ReflTransGen (Change σ)

end Project

end SpriteStage

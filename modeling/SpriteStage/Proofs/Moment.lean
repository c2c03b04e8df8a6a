import SpriteStage.Proofs.Turn
import SpriteStage.Script.Load

namespace SpriteStage

inductive Operation where
  | register (c : ActorClass) (kind : ActorKind)
  | broadcast (message : String)
  | greenFlag
  | redStop
  | answer (text : String)
  | loadAssets (loader : Loader)
  | poll
  | completeLoad (kind : AssetKind) (locator : String) (outcome : Outcome)
  | abandonLoad (kind : AssetKind) (locator : String)
  | press (name : String)
  | release (name : String)
  | click (place : Point)
  | reportPerformance (performance : Nat) (status : PerformanceStatus)
  | takeErrors
  | takeJournal
  | limitLoops (max : Nat)
  | countLoop

namespace Operation

def apply : Operation → Project → Project
  | .register c kind, p => (p.register c kind).2
  | .broadcast message, p => p.broadcast message
  | .greenFlag, p => p.greenFlag
  | .redStop, p => p.stopEverything
  | .answer text, p => (p.answerQuestion text).2
  | .loadAssets loader, p => p.loadAssets loader
  | .poll, p => p.poll
  | .completeLoad kind locator outcome, p => p.completeLoad kind locator outcome
  | .abandonLoad kind locator, p => p.abandonLoad kind locator
  | .press name, p => p.press name
  | .release name, p => p.release name
  | .click place, p => p.clickAt place
  | .reportPerformance performance status, p => p.reportPerformance performance status
  | .takeErrors, p => p.takeErrors.2
  | .takeJournal, p => p.takeJournal.2
  | .limitLoops max, p => p.updateWorld (·.setMaxImportLoops max)
  | .countLoop, p => p.noteImportLoop.2

def Keeps (κ : Conduct) : Operation → Prop
  | .register c _ => ∀ d ∈ c.handlers, ∀ h, κ.keeps h (d.handler.body h)
  | _ => True

end Operation

def Project.frames? (laps : Nat) : Nat → Project → Option Project
  | 0, p => some p
  | k + 1, p => (frames? laps k p).bind fun q => (q.frame? laps).map (·.2)

-- A project, and the threads whose turn is still to come in the running frame.
structure Moment where
  project : Project
  turns : List Nat := []

namespace Moment

inductive Start (κ : Conduct) : Project → Prop where
  | new {config : Config} {p : Project} (h : Project.new config = .ok p) (bus : MixBus)
      {library : Library} (hl : Project.Lawful κ library) :
      Start κ { p with world := { p.world with bus := bus }, library := library }
  | script {source : String} {config : Config} {p : Project}
      (h : Project.load source config = (.ok (), p)) (hl : Project.Lawful κ p.library)
      (hj : ∀ h function, κ.keeps h (.jump ⟨h, function, []⟩)) : Start κ p

inductive Step (κ : Conduct) : Moment → Moment → Prop where
  | operate {p : Project} {op : Operation} (h : op.Keeps κ) : Step κ ⟨p, []⟩ ⟨op.apply p, []⟩
  | frame {p : Project} : Step κ ⟨p, []⟩ ⟨p.prepare, p.prepare.threads.map (·.id)⟩
  | turn {laps id : Nat} {ids : List Nat} {resumed : Bool} {p q : Project}
      (h : p.turn? laps id = some (resumed, q)) : Step κ ⟨p, id :: ids⟩ ⟨q, ids⟩

def Reachable (κ : Conduct) (m : Moment) : Prop :=
  ∃ p, Start κ p ∧ Relation.ReflTransGen (Step κ) ⟨p, []⟩ m

variable {κ : Conduct} {m m' : Moment} {p q : Project}

theorem Reachable.start (h : Start κ p) : Reachable κ ⟨p, []⟩ := ⟨p, h, .refl⟩

theorem Reachable.steps (h : Reachable κ m) (hs : Relation.ReflTransGen (Step κ) m m') :
    Reachable κ m' :=
  let ⟨p, hp, hm⟩ := h
  ⟨p, hp, hm.trans hs⟩

theorem Reachable.step (h : Reachable κ m) (hs : Step κ m m') : Reachable κ m' :=
  h.steps (.single hs)

theorem Reachable.induction {motive : Moment → Prop} (start : ∀ {p}, Start κ p → motive ⟨p, []⟩)
    (step : ∀ {m m'}, Reachable κ m → Step κ m m' → motive m → motive m')
    (h : Reachable κ m) : motive m := by
  obtain ⟨p, hp, hm⟩ := h
  induction hm with
  | refl => exact start hp
  | tail hm hs ih => exact step ⟨p, hp, hm⟩ hs ih

-- A pass goes through one moment for each turn, and leaves the turns behind it alone.
theorem path_pass {R : Moment → Moment → Prop} {laps : Nat} {ids rest resumed : List Nat}
    (hR : ∀ {id : Nat} {later : List Nat} {b : Bool} {p q : Project}, id ∈ ids →
      p.turn? laps id = some (b, q) → R ⟨p, id :: later⟩ ⟨q, later⟩)
    (h : Project.pass? laps ids p = some (resumed, q)) :
    Relation.ReflTransGen R ⟨p, ids ++ rest⟩ ⟨q, rest⟩ := by
  induction ids generalizing p resumed with
  | nil =>
    cases h
    exact .refl
  | cons id ids ih =>
    obtain ⟨b, r, later, ht, hp, -⟩ := Project.pass?_cons h
    exact .head (hR List.mem_cons_self ht) (ih (fun hm => hR (List.mem_cons_of_mem _ hm)) hp)

theorem steps_frame {laps : Nat} {resumed : List Nat} (h : p.frame? laps = some (resumed, q)) :
    Relation.ReflTransGen (Step κ) ⟨p, []⟩ ⟨q, []⟩ := by
  have hpass : Relation.ReflTransGen (Step κ)
      ⟨p.prepare, p.prepare.threads.map (·.id) ++ []⟩ ⟨q, []⟩ := path_pass (fun _ ht => .turn ht) h
  rw [List.append_nil] at hpass
  exact .head .frame hpass

theorem steps_frames {laps k : Nat} (h : p.frames? laps k = some q) :
    Relation.ReflTransGen (Step κ) ⟨p, []⟩ ⟨q, []⟩ := by
  induction k generalizing q with
  | zero =>
    cases h
    exact .refl
  | succ k ih =>
    obtain ⟨r, hr, hlast⟩ := Option.bind_eq_some_iff.1 h
    obtain ⟨⟨resumed, q⟩, hframe, rfl⟩ := Option.map_eq_some_iff.1 hlast
    exact (ih hr).trans (steps_frame hframe)

theorem Reachable.frame {laps : Nat} {resumed : List Nat} (hm : Reachable κ ⟨p, []⟩)
    (h : p.frame? laps = some (resumed, q)) : Reachable κ ⟨q, []⟩ :=
  hm.steps (steps_frame h)

end Moment

section Haunting

-- A sprite that haunts until its scare is over; the scare leaves a clone behind.
def ghost (vanish : Handle → Behavior) : ActorClass where
  name := "Ghost"
  kind := .sprite
  handlers := [
    ⟨.ok (.message "go"), "haunt", fun _ => .pause (.broadcastAndWait "boo") fun _ => .finish⟩,
    ⟨.ok (.message "boo"), "scare", fun h =>
      .call (.request h (.createClone (.member h.owner))) fun _ => .finish⟩,
    ⟨.ok .startAsClone, "vanish", vanish⟩]

def haunted (message : String) (vanish : Handle → Behavior) : Project :=
  (({} : Project).register (ghost vanish) .sprite).2.broadcast message

variable {κ : Conduct} {p : Project} {id : Nat} {ids : List Nat} {resumed : Bool}

def Project.turned (p : Project) (id : Nat) : Project := (p.turn? 1 id).elim p (·.2)

theorem Project.turn?_turned (h : (p.turn? 1 id).map (·.1) = some resumed) :
    p.turn? 1 id = some (resumed, p.turned id) := by
  obtain ⟨⟨resumed, q⟩, hq, rfl⟩ := Option.map_eq_some_iff.1 h
  unfold turned
  rw [hq]
  rfl

namespace Moment

theorem reachable_haunted {vanish : Handle → Behavior} (hf : ∀ h, κ.keeps h .finish)
    (hg : ∀ d ∈ (ghost vanish).handlers, ∀ h, κ.keeps h (d.handler.body h)) (message : String) :
    Reachable κ ⟨haunted message vanish, []⟩ := by
  have hnew : Project.new {} = .ok {} := rfl
  have hstart : Start κ {} := .new hnew {} fun h _ _ => hf h
  have hregister : Step κ ⟨{}, []⟩ ⟨(Operation.register (ghost vanish) .sprite).apply {}, []⟩ :=
    .operate hg
  have hsend : ∀ p : Project, Step κ ⟨p, []⟩ ⟨(Operation.broadcast message).apply p, []⟩ := fun _ =>
    .operate trivial
  exact ((Reachable.start hstart).step hregister).step (hsend _)

theorem Reachable.turned (hm : Reachable κ ⟨p, id :: ids⟩)
    (h : (p.turn? 1 id).map (·.1) = some resumed) : Reachable κ ⟨p.turned id, ids⟩ :=
  hm.step (.turn (Project.turn?_turned h))

end Moment

end Haunting

end SpriteStage

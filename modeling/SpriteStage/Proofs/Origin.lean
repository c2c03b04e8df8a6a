import SpriteStage.Proofs.Beginning

namespace SpriteStage

open Project

variable {κ : Conduct}

namespace Project

theorem Obeys.of_blank {p : Project} (hp : p.Blank) (hl : Lawful κ p.library) : p.Obeys κ where
  ordered := hp.threads ▸ .nil
  bounded t ht := by simp [hp.threads] at ht
  bodies t ht := by simp [hp.threads] at ht
  spawns s hs := by simp [hp.world.spawns] at hs
  actors a ha := by simp [hp.world.actors] at ha
  lawful := hl

theorem changes_loadAssets {σ : Scope} (hr : σ.reports) (p : Project) (loader : Loader) :
    Changes σ p (p.loadAssets loader) := by
  rw [loadAssets_eq]
  refine Relation.ReflTransGen.trans ?_ (changes_poll hr _)
  exact Changes.aside ⟨rfl, rfl, rfl, rfl, rfl, rfl, rfl, rfl, rfl, rfl, rfl, rfl, rfl, rfl⟩

theorem aside_noteImportLoop (p : Project) : p.Aside p.noteImportLoop.2 :=
  ⟨rfl, rfl, rfl, rfl, rfl, rfl, rfl, rfl, rfl, rfl, rfl, rfl, rfl, rfl⟩

theorem changes_apply {σ : Scope} {op : Operation} (h : op.Keeps σ.conduct) (hs : σ.Open)
    (p : Project) (hq : ∀ {text question rest}, op = .answer text →
      p.world.questions = question :: rest → σ.turns question.thread) :
    Changes σ p (op.apply p) := by
  cases op with
  | register c kind => exact changes_register p c kind h
  | broadcast message => exact changes_broadcast p message
  | greenFlag => exact changes_greenFlag hs.removes p
  | redStop => exact changes_stopEverything hs.removes p
  | answer text => exact changes_answerQuestion p text fun hk => hq rfl hk
  | loadAssets loader => exact changes_loadAssets hs.reports p loader
  | poll => exact changes_poll hs.reports p
  | takeErrors => exact .single (.reported hs.reports _)
  | countLoop => exact .aside (aside_noteImportLoop p)
  | _ => exact .aside ⟨rfl, rfl, rfl, rfl, rfl, rfl, rfl, rfl, rfl, rfl, rfl, rfl, rfl, rfl⟩

end Project

namespace Moment

variable {m m' : Moment} {q : Project}

theorem changes_of_step (hm : m.project.Obeys κ) (hs : Step κ m m') :
    Changes (.under κ) m.project m'.project := by
  cases hs with
  | operate h => exact changes_apply h ⟨fun _ => trivial, trivial⟩ _ fun _ _ => trivial
  | frame => exact changes_prepare trivial _
  | turn h =>
    rename_i laps id ids resumed p q
    cases ht : p.thread? id with
    | none =>
      rw [turn?_of_gone ht] at h
      cases h
      exact .refl
    | some t =>
      obtain rfl := id_of_thread? ht
      have hmem : t ∈ p.threads := List.mem_of_find?_eq_some ht
      exact changes_turn (turn_of_turn? hm hmem h) hm (licensed_under κ _) trivial
        ⟨fun _ => trivial, trivial⟩

theorem Start.origin {p : Project} (h : Start κ p) :
    ∃ p₀, p₀.Blank ∧ Lawful κ p₀.library ∧ Changes (.under κ) p₀ p := by
  cases h with
  | new h bus hl =>
    have hb := blank_of_new h
    have hw := hb.world
    refine ⟨_, ?_, hl, .refl⟩
    exact ⟨hb.threads, hw.actors, hw.instances, hw.groups, hw.spawns, hw.deleted,
      hw.stopRequested, hw.questions, hw.errors⟩
  | script h hl hj =>
    obtain ⟨p₀, hb, hc⟩ := changes_load (σ := .under κ) hj h
    exact ⟨p₀, hb, hc.library ▸ hl, hc⟩

theorem Reachable.origin (h : Reachable κ m) :
    ∃ p₀, p₀.Blank ∧ Lawful κ p₀.library ∧ Changes (.under κ) p₀ m.project := by
  refine h.induction (motive := fun m =>
    ∃ p₀ : Project, p₀.Blank ∧ Lawful κ p₀.library ∧ Changes (.under κ) p₀ m.project)
    (fun h => h.origin) fun _ hs ih => ?_
  obtain ⟨p₀, hb, hl, hc⟩ := ih
  have ho := (Obeys.of_blank hb hl).changes (σ := .under κ) rfl hc
  exact ⟨p₀, hb, hl, hc.trans (Moment.changes_of_step ho hs)⟩

theorem Reachable.obeys (h : Reachable κ m) : m.project.Obeys κ := by
  obtain ⟨p₀, hb, hl, hc⟩ := h.origin
  exact (Obeys.of_blank hb hl).changes rfl hc

theorem Reachable.changes_of_step (h : Reachable κ m) (hs : Step κ m m') :
    Changes (.under κ) m.project m'.project :=
  Moment.changes_of_step h.obeys hs

-- Whatever a project does next is made of changes too, calls from outside its threads included.
structure Closed (κ : Conduct) (q : Project) : Prop where
  steps : ∀ {ids : List Nat} {m' : Moment}, Step κ ⟨q, ids⟩ m' → Changes (.under κ) q m'.project
  calls : ∀ c : Call, (κ.Awaits → c.startsWait = false) → Changes (.under κ) q (q.answer c).2

theorem Reachable.obeys_of_changes (h : Reachable κ m) (hq : Changes (.under κ) m.project q) :
    q.Obeys κ :=
  h.obeys.changes rfl hq

theorem Reachable.closed (h : Reachable κ m) (hq : Changes (.under κ) m.project q) :
    Closed κ q where
  steps hs := Moment.changes_of_step (h.obeys_of_changes hq) hs
  calls c hc := by
    refine changes_answer q c fun k wait hk => ⟨fun _ => ⟨trivial, fun ha => ?_⟩, fun _ => trivial⟩
    subst hk
    cases hc ha

-- What blank projects have and no change spoils also holds in the midst of every resumption.
theorem Reachable.invariant {I : Project → Prop} (blank : ∀ p : Project, p.Blank → I p)
    (change : ∀ {p q : Project}, p.Obeys κ → I p → Change (.under κ) p q → I q)
    (h : Reachable κ m) (hq : Changes (.under κ) m.project q) : I q := by
  obtain ⟨p₀, hb, hl, hc⟩ := h.origin
  have hall : Changes (.under κ) p₀ q := hc.trans hq
  have hboth : q.Obeys κ ∧ I q := by
    clear hq
    induction hall with
    | refl => exact ⟨.of_blank hb hl, blank p₀ hb⟩
    | tail _ hr ih => exact ⟨ih.1.change rfl hr, change ih.1 ih.2 hr⟩
  exact hboth.2

end Moment

end SpriteStage

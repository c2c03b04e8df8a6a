import SpriteStage.Proofs.Deed

namespace SpriteStage

def Actor.Obeys (κ : Conduct) (a : Actor) : Prop :=
  ∀ g ∈ a.groups, ∀ k ∈ g.handlers, ∀ h, κ.keeps h (k.body h)

theorem Actor.Obeys.handlersFor {κ : Conduct} {a : Actor} (ha : a.Obeys κ) {trigger : Trigger}
    {k : Handler} (hk : k ∈ a.handlersFor trigger) (h : Handle) : κ.keeps h (k.body h) := by
  unfold Actor.handlersFor at hk
  split at hk
  · rename_i g hg
    exact ha g (List.mem_of_find?_eq_some hg) k hk h
  · cases hk

theorem HandlerGroup.mem_add {trigger : Trigger} {handler k : Handler}
    {groups : List HandlerGroup} {g : HandlerGroup} (hg : g ∈ add trigger handler groups)
    (hk : k ∈ g.handlers) : k = handler ∨ ∃ g' ∈ groups, k ∈ g'.handlers := by
  induction groups with
  | nil =>
    obtain rfl := List.mem_singleton.1 hg
    exact .inl (List.mem_singleton.1 hk)
  | cons first rest ih =>
    simp only [add] at hg
    split at hg
    · rcases List.mem_cons.1 hg with rfl | hg
      · rcases List.mem_append.1 hk with hk | hk
        · exact .inr ⟨first, List.mem_cons_self, hk⟩
        · exact .inl (List.mem_singleton.1 hk)
      · exact .inr ⟨g, List.mem_cons_of_mem _ hg, hk⟩
    · rcases List.mem_cons.1 hg with rfl | hg
      · exact .inr ⟨g, List.mem_cons_self, hk⟩
      · rcases ih hg with h | ⟨g', hg', hk'⟩
        · exact .inl h
        · exact .inr ⟨g', List.mem_cons_of_mem _ hg', hk'⟩

theorem ActorClass.mem_groupAll {kind : ActorKind} {ds : List HandlerDeclaration}
    {groups result : List HandlerGroup} (h : groupAll kind ds groups = .ok result)
    {g : HandlerGroup} (hg : g ∈ result) {k : Handler} (hk : k ∈ g.handlers) :
    (∃ d ∈ ds, d.handler = k) ∨ ∃ g' ∈ groups, k ∈ g'.handlers := by
  induction ds generalizing groups with
  | nil =>
    cases h
    exact .inr ⟨g, hg, hk⟩
  | cons d ds ih =>
    simp only [groupAll] at h
    split at h
    · cases h
    · rcases ih h with ⟨e, he, rfl⟩ | ⟨g', hg', hk'⟩
      · exact .inl ⟨e, List.mem_cons_of_mem _ he, rfl⟩
      · rcases HandlerGroup.mem_add hg' hk' with rfl | hold
        · exact .inl ⟨d, List.mem_cons_self, rfl⟩
        · exact .inr hold

namespace World

variable {w : World}

theorem mem_starts {trigger : Trigger} {s : Start} :
    s ∈ w.starts trigger ↔
      ∃ a ∈ w.actors, s.actor = a.id ∧ s.handler ∈ a.handlersFor trigger ∧ s.owner ∈ a.instances := by
  simp only [starts, List.mem_flatMap, List.mem_map]
  constructor
  · rintro ⟨a, ha, k, hk, o, ho, rfl⟩
    exact ⟨a, ha, rfl, hk, ho⟩
  · rintro ⟨a, ha, hs, hk, ho⟩
    refine ⟨a, ha, s.handler, hk, s.owner, ho, ?_⟩
    rw [← hs]

theorem mem_startsOf {trigger : Trigger} {owner : Nat} {s : Start} :
    s ∈ w.startsOf trigger owner ↔
      ∃ i a, w.member owner = .ok (i, a) ∧ s.actor = a.id ∧ s.owner = owner ∧
        s.handler ∈ a.handlersFor trigger := by
  unfold startsOf
  constructor
  · intro hs
    split at hs
    · rename_i i a hm
      obtain ⟨k, hk, rfl⟩ := List.mem_map.1 hs
      exact ⟨i, a, hm, rfl, rfl, hk⟩
    · cases hs
  · rintro ⟨i, a, hm, hs, ho, hk⟩
    rw [hm]
    refine List.mem_map.2 ⟨s.handler, hk, ?_⟩
    rw [← hs, ← ho]

theorem member_eq_ok {id : Nat} {i : Instance} {a : Actor} (h : w.member id = .ok (i, a)) :
    w.instance? id = some i ∧ w.actors[i.actor]? = some a := by
  unfold member at h
  split at h
  · cases h
  · rename_i j hj
    split at h
    · cases h
    · rename_i b hb
      cases h
      exact ⟨hj, hb⟩

theorem mem_of_instance? {id : Nat} {i : Instance} (h : w.instance? id = some i) :
    i ∈ w.instances ∧ i.id = id :=
  ⟨List.mem_of_find?_eq_some h, by simpa using List.find?_some h⟩

theorem deleteInstance_cases (w : World) (id : Nat) :
    (w.deleteInstance id).2 = w ∨
      ∃ i, w.instance? id = some i ∧ i.isClone = true ∧ (w.deleteInstance id).2 = w.remove i := by
  unfold deleteInstance
  split
  · exact .inl rfl
  · rename_i i hi
    split
    · rename_i hc
      exact .inr ⟨i, hi, hc, rfl⟩
    · exact .inl rfl

theorem mem_updateActor {id : Nat} {change : Actor → Actor} {a : Actor}
    (ha : a ∈ (w.updateActor id change).actors) :
    ∃ b ∈ w.actors, (b.id = id ∧ a = change b) ∨ (b.id ≠ id ∧ a = b) := by
  obtain ⟨b, hb, rfl⟩ := List.mem_map.1 ha
  refine ⟨b, hb, ?_⟩
  by_cases hid : b.id = id
  · exact .inl ⟨hid, if_pos hid⟩
  · exact .inr ⟨hid, if_neg hid⟩

theorem actors_queueGroup (w : World) (starts : List Start) :
    (w.queueGroup starts).2.actors = w.actors := by
  obtain ⟨lastGroup, groups, spawns, hw, -⟩ := Project.world_queueGroup w starts
  rw [hw]

end World

namespace Project

structure Obeys (κ : Conduct) (p : Project) : Prop extends Ranked p where
  bodies : ∀ t ∈ p.threads, t.body.Keeps κ t.handle
  spawns : ∀ s ∈ p.world.spawns, ∀ h, κ.keeps h (s.handler.body h)
  actors : ∀ a ∈ p.world.actors, a.Obeys κ
  lawful : Lawful κ p.library

variable {κ : Conduct} {σ : Scope} {p q : Project}

namespace Obeys

theorem queueGroup (hp : p.Obeys κ) {starts : List World.Start}
    (hs : ∀ s ∈ starts, ∀ h, κ.keeps h (s.handler.body h)) :
    (p.updateWorld fun w => (w.queueGroup starts).2).Obeys κ where
  toRanked := ⟨hp.ordered, hp.bounded⟩
  bodies := hp.bodies
  spawns s hm := by
    simp only [updateWorld, World.spawns_queueGroup, List.mem_append, List.mem_map] at hm
    rcases hm with hm | ⟨t, ht, rfl⟩
    · exact hp.spawns s hm
    · exact hs t ht
  actors a ha := by
    simp only [updateWorld, World.actors_queueGroup] at ha
    exact hp.actors a ha
  lawful := hp.lawful

theorem updateActor (hp : p.Obeys κ) {id : Nat} {change : Actor → Actor} {a : Actor}
    (ha : a ∈ (p.world.updateActor id change).actors)
    (hc : ∀ a, (change a).groups = a.groups) : a.Obeys κ := by
  obtain ⟨b, hb, ⟨-, rfl⟩ | ⟨-, rfl⟩⟩ := World.mem_updateActor ha
  · intro g hg
    rw [hc] at hg
    exact hp.actors b hb g hg
  · exact hp.actors _ hb

theorem updateThread (hp : p.Obeys κ) {id : Nat} {change : Thread → Thread}
    (hc : ∀ t : Thread, t.Continues (change t))
    (hb : ∀ t ∈ p.threads, t.id = id → t.body.Keeps κ t.handle → (change t).body.Keeps κ t.handle) :
    (p.updateThread id change).Obeys κ where
  toRanked := hp.toRanked.updateThread fun t => (hc t).id
  bodies u hu := by
    obtain ⟨t, ht, ⟨hid, rfl⟩ | ⟨-, rfl⟩⟩ := mem_updateThread hu
    · have hh : (change t).handle = t.handle := by
        simp only [Thread.handle, (hc t).id, (hc t).owner]
      rw [hh]
      exact hb t ht hid (hp.bodies t ht)
    · exact hp.bodies _ ht
  spawns := hp.spawns
  actors := hp.actors
  lawful := hp.lawful

theorem endThread (hp : p.Obeys κ) (id : Nat) : (p.endThread id).Obeys κ where
  toRanked := by
    refine hp.toRanked.of_sublist ?_ (lastThread_endThread p id)
    rw [threads_endThread]
    exact List.filter_sublist
  bodies t ht := by
    rw [threads_endThread] at ht
    exact hp.bodies t (List.mem_of_mem_filter ht)
  spawns := by
    unfold Project.endThread
    split <;> exact hp.spawns
  actors := by
    unfold Project.endThread
    split <;> exact hp.actors
  lawful := by
    rw [library_endThread]
    exact hp.lawful

theorem launch (hp : p.Obeys κ) {s : Spawn} (hs : ∀ h, κ.keeps h (s.handler.body h)) :
    (p.launch s).Obeys κ := by
  by_cases hl : p.world.isLive s.owner
  · have hr := hp.toRanked.launch s
    rw [launch_of_live hl] at hr ⊢
    refine ⟨hr, fun t ht => ?_, hp.spawns, hp.actors, hp.lawful⟩
    rcases List.mem_append.1 ht with ht | ht
    · exact hp.bodies t ht
    · obtain rfl := List.mem_singleton.1 ht
      exact hs _
  · rw [launch_of_gone hl]
    exact ⟨⟨hp.ordered, hp.bounded⟩, hp.bodies, hp.spawns, hp.actors, hp.lawful⟩

theorem change (hσ : σ.conduct = κ) (hp : p.Obeys κ) (h : Change σ p q) : q.Obeys κ := by
  subst hσ
  have hr := hp.toRanked.change h
  cases h with
  | aside h =>
    exact ⟨hr, h.threads ▸ hp.bodies, h.world.spawns ▸ hp.spawns, h.world.actors ▸ hp.actors,
      h.library ▸ hp.lawful⟩
  | mailbox id change =>
    have hc : ∀ t : Thread, t.Continues { t with mailbox := change t.mailbox } := fun _ =>
      ⟨rfl, rfl, rfl, rfl, rfl⟩
    exact hp.updateThread hc fun _ _ _ h => h
  | turn hid h hb => exact hp.updateThread h hb
  | dispatched trigger =>
    refine hp.queueGroup fun s hs => ?_
    obtain ⟨a, ha, -, hk, -⟩ := World.mem_starts.1 hs
    exact (hp.actors a ha).handlersFor hk
  | dispatchedTo trigger owner =>
    refine hp.queueGroup fun s hs => ?_
    obtain ⟨i, a, hm, -, -, hk⟩ := World.mem_startsOf.1 hs
    have ha := List.mem_of_getElem? (World.member_eq_ok hm).2
    exact (hp.actors a ha).handlersFor hk
  | placed hres hm =>
    exact ⟨hr, hp.bodies, hp.spawns, fun a ha => hp.updateActor ha fun _ => rfl, hp.lawful⟩
  | removed h =>
    rename_i id
    rcases World.deleteInstance_cases p.world id with he | ⟨i, -, -, he⟩
    · rw [updateWorld, he]
      exact hp
    · rw [updateWorld, he]
      exact ⟨⟨hp.ordered, hp.bounded⟩, hp.bodies, hp.spawns,
        fun a ha => hp.updateActor ha fun _ => rfl, hp.lawful⟩
  | ended id => exact hp.endThread id
  | launched h =>
    rename_i s rest
    have hs : ∀ s' ∈ s :: rest, ∀ h, σ.conduct.keeps h (s'.handler.body h) := h ▸ hp.spawns
    have hrest : (p.updateWorld fun w => { w with spawns := rest }).Obeys σ.conduct :=
      ⟨⟨hp.ordered, hp.bounded⟩, hp.bodies, fun s' hm => hs s' (List.mem_cons_of_mem _ hm),
        hp.actors, hp.lawful⟩
    exact hrest.launch (hs s List.mem_cons_self)
  | cleared =>
    exact ⟨hr, by rintro t ⟨⟩, by rintro s ⟨⟩, hp.actors, hp.lawful⟩
  | enrolled figure hres hg hc =>
    refine ⟨hr, hp.bodies, hp.spawns, fun a ha => ?_, hp.lawful⟩
    rcases List.mem_append.1 ha with ha | ha
    · exact hp.actors a ha
    · obtain rfl := List.mem_singleton.1 ha
      intro g hgm k hk
      obtain ⟨d, hd, rfl⟩ | ⟨g', ⟨⟩, -⟩ := ActorClass.mem_groupAll hg hgm hk
      exact hc d hd
  | _ => exact ⟨hr, hp.bodies, hp.spawns, hp.actors, hp.lawful⟩

theorem changes (hσ : σ.conduct = κ) (hp : p.Obeys κ) (h : Changes σ p q) : q.Obeys κ := by
  induction h with
  | refl => exact hp
  | tail _ hq ih => exact ih.change hσ hq

end Obeys

end Project

end SpriteStage

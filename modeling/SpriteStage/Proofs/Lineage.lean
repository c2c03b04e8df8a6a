import SpriteStage.Proofs.Registry

namespace SpriteStage

open Project

namespace World

variable {w w' w'' : World}

structure Precedes (w w' : World) : Prop where
  actors : w.actors.length ≤ w'.actors.length
  names : ∀ k < w.actors.length, w'.className k = w.className k
  lastInstance : w.lastInstance ≤ w'.lastInstance
  survivors : ∀ j ∈ w'.instances, j.id ≤ w.lastInstance →
    ∃ i ∈ w.instances, i.id = j.id ∧ i.actor = j.actor ∧ i.parent = j.parent

theorem Precedes.refl (w : World) : w.Precedes w :=
  ⟨Nat.le_refl _, fun _ _ => rfl, Nat.le_refl _, fun j hj _ => ⟨j, hj, rfl, rfl, rfl⟩⟩

theorem Precedes.trans (h : w.Precedes w') (h' : w'.Precedes w'') : w.Precedes w'' := by
  refine ⟨Nat.le_trans h.actors h'.actors, fun k hk => ?_,
    Nat.le_trans h.lastInstance h'.lastInstance, fun k hk hle => ?_⟩
  · rw [h'.names k (Nat.lt_of_lt_of_le hk h.actors), h.names k hk]
  obtain ⟨j, hj, hjid, hjact, hjpar⟩ := h'.survivors k hk (Nat.le_trans hle h.lastInstance)
  obtain ⟨i, hi, hiid, hiact, hipar⟩ := h.survivors j hj (hjid ▸ hle)
  exact ⟨i, hi, hiid.trans hjid, hiact.trans hjact, hipar.trans hjpar⟩

theorem className_updateActor {id : Nat} {change : Actor → Actor} (k : Nat)
    (hc : ∀ a, (change a).name = a.name) :
    ((w.updateActor id change).actors[k]?).elim "" (·.name) = w.className k := by
  simp only [className, updateActor, List.getElem?_map]
  cases w.actors[k]? with
  | none => rfl
  | some a =>
    simp only [Option.map_some, Option.elim_some]
    split
    · exact hc a
    · rfl

theorem className_place (w : World) (i : Instance) (a : Actor) (k : Nat) :
    (w.place i a).className k = w.className k := by
  rw [className, actors_place]
  exact className_updateActor k fun _ => rfl

theorem className_remove (w : World) (i : Instance) (k : Nat) :
    (w.remove i).className k = w.className k := by
  rw [className, actors_remove]
  exact className_updateActor k fun _ => rfl

theorem Census.precedes (h : w.Census w') : w.Precedes w' := by
  cases h with
  | same h =>
    obtain ⟨ha, hi, hl⟩ := h
    refine ⟨Nat.le_of_eq (ha ▸ rfl), fun k _ => ?_, Nat.le_of_eq hl.symm, fun j hj _ => ?_⟩
    · rw [className, className, ha]
    · exact ⟨j, hi ▸ hj, rfl, rfl, rfl⟩
  | reshaped id change =>
    refine ⟨Nat.le_refl _, fun _ _ => rfl, Nat.le_refl _, fun j hj _ => ?_⟩
    obtain ⟨i, hi, rfl⟩ := List.mem_map.1 hj
    refine ⟨i, hi, ?_⟩
    split <;> exact ⟨rfl, rfl, rfl⟩
  | placed hr hm =>
    refine ⟨Nat.le_of_eq (List.length_map _).symm, fun k _ => className_place w _ _ k, Nat.le_succ _, fun j hj hle => ?_⟩
    rcases List.mem_append.1 hj with hj | hj
    · exact ⟨j, hj, rfl, rfl, rfl⟩
    · obtain rfl := List.mem_singleton.1 hj
      exact absurd hle (Nat.not_succ_le_self _)
  | removed hi hc =>
    refine ⟨Nat.le_of_eq (List.length_map _).symm, fun k _ => className_remove w _ k, Nat.le_refl _, fun j hj _ => ?_⟩
    exact ⟨j, List.mem_of_mem_filter hj, rfl, rfl, rfl⟩
  | allocated =>
    exact ⟨Nat.le_refl _, fun _ _ => rfl, Nat.le_succ _, fun j hj _ => ⟨j, hj, rfl, rfl, rfl⟩⟩
  | enrolled figure hr =>
    refine ⟨?_, fun k hk => ?_, Nat.le_succ _, fun j hj hle => ?_⟩
    · simp only [enrol, List.length_append]
      exact Nat.le_add_right _ _
    · simp only [className, enrol, List.getElem?_append_left hk]
    · rcases List.mem_append.1 hj with hj | hj
      · exact ⟨j, hj, rfl, rfl, rfl⟩
      · obtain rfl := List.mem_singleton.1 hj
        exact absurd hle (Nat.not_succ_le_self _)

theorem insertBefore_mem {parent n : Nat} {ids : List Nat} (h : parent ∈ ids) :
    ∃ front back, ids = front ++ parent :: back ∧
      insertBefore parent n ids = front ++ n :: parent :: back := by
  induction ids with
  | nil => cases h
  | cons head rest ih =>
    by_cases hp : head = parent
    · subst hp
      exact ⟨[], rest, rfl, if_pos rfl⟩
    · rcases List.mem_cons.1 h with rfl | h
      · exact absurd rfl hp
      · obtain ⟨front, back, hrest, hins⟩ := ih h
        refine ⟨head :: front, back, by rw [hrest, List.cons_append], ?_⟩
        rw [insertBefore, if_neg hp, hins, List.cons_append]

end World

namespace Project

variable {σ : Scope} {κ : Conduct} {p q : Project}

theorem Changes.precedes (h : Changes σ p q) : p.world.Precedes q.world := by
  induction h with
  | refl => exact .refl _
  | tail _ hq ih => exact ih.trans hq.census.precedes

structure Indexed (p : Project) : Prop where
  threads : ∀ t ∈ p.threads, t.actor < p.world.actors.length
  spawns : ∀ s ∈ p.world.spawns, s.actor < p.world.actors.length

theorem Indexed.updateThread (hp : p.Indexed) {id : Nat} {change : Thread → Thread}
    (hc : ∀ t : Thread, t.Continues (change t)) : (p.updateThread id change).Indexed := by
  refine ⟨fun u hu => ?_, hp.spawns⟩
  obtain ⟨t, ht, hcont⟩ := continues_of_mem_updateThread hc hu
  rw [hcont.actor]
  exact hp.threads t ht

theorem Indexed.queueGroup (hp : p.Indexed) {starts : List World.Start}
    (hs : ∀ s ∈ starts, s.actor < p.world.actors.length) :
    (p.updateWorld fun w => (w.queueGroup starts).2).Indexed := by
  have ha : (p.updateWorld fun w => (w.queueGroup starts).2).world.actors = p.world.actors :=
    World.actors_queueGroup _ _
  refine ⟨fun t ht => ?_, fun s hm => ?_⟩
  · rw [ha]
    exact hp.threads t ht
  · rw [ha]
    simp only [updateWorld, World.spawns_queueGroup, List.mem_append, List.mem_map] at hm
    rcases hm with hm | ⟨t, ht, rfl⟩
    · exact hp.spawns s hm
    · exact hs t ht

theorem Indexed.launch (hp : p.Indexed) {s : Spawn} (hs : s.actor < p.world.actors.length) :
    (p.launch s).Indexed := by
  by_cases hl : p.world.isLive s.owner
  · rw [launch_of_live hl]
    refine ⟨fun t ht => ?_, hp.spawns⟩
    rcases List.mem_append.1 ht with ht | ht
    · exact hp.threads t ht
    · obtain rfl := List.mem_singleton.1 ht
      exact hs
  · rw [launch_of_gone hl]
    exact ⟨hp.threads, hp.spawns⟩

theorem Indexed.of_length (hp : p.Indexed) (ht : q.threads.Sublist p.threads)
    (hs : q.world.spawns.Sublist p.world.spawns)
    (ha : p.world.actors.length ≤ q.world.actors.length) : q.Indexed :=
  ⟨fun t hm => Nat.lt_of_lt_of_le (hp.threads t (ht.mem hm)) ha,
    fun s hm => Nat.lt_of_lt_of_le (hp.spawns s (hs.mem hm)) ha⟩

theorem Indexed.change (hp : p.Indexed) (hw : p.world.Registered) (h : Change σ p q) :
    q.Indexed := by
  have ha := h.census.precedes.actors
  cases h with
  | aside h => exact hp.of_length (h.threads ▸ .refl _) (h.world.spawns ▸ .refl _) ha
  | mailbox id change =>
    have hc : ∀ t : Thread, t.Continues { t with mailbox := change t.mailbox } := fun _ =>
      ⟨rfl, rfl, rfl, rfl, rfl⟩
    exact hp.updateThread hc
  | turn hid h hb => exact hp.updateThread h
  | dispatched trigger =>
    refine hp.queueGroup fun s hs => ?_
    obtain ⟨a, ha, hsa, -, -⟩ := World.mem_starts.1 hs
    rw [hsa]
    exact hw.id_lt ha
  | dispatchedTo trigger owner =>
    refine hp.queueGroup fun s hs => ?_
    obtain ⟨i, a, hm, hsa, -, -⟩ := World.mem_startsOf.1 hs
    rw [hsa]
    exact hw.id_lt (hw.mem_of_member hm).2.2.1
  | removed h =>
    rename_i id
    refine hp.of_length (.refl _) ?_ ha
    rcases World.deleteInstance_cases p.world id with he | ⟨i, -, -, he⟩
    · rw [updateWorld, he]
    · rw [updateWorld, he]
      exact .refl _
  | ended id =>
    refine hp.of_length ?_ ?_ ha
    · rw [threads_endThread]
      exact List.filter_sublist
    · exact spawns_endThread p id ▸ .refl _
  | launched h =>
    rename_i s rest
    have hs : ∀ s' ∈ s :: rest, s'.actor < p.world.actors.length := h ▸ hp.spawns
    have hrest : (p.updateWorld fun w => { w with spawns := rest }).Indexed :=
      ⟨hp.threads, fun s' hm => hs s' (List.mem_cons_of_mem _ hm)⟩
    exact hrest.launch (hs s List.mem_cons_self)
  | cleared => exact hp.of_length (List.nil_sublist _) (List.nil_sublist _) ha
  | _ => exact hp.of_length (.refl _) (.refl _) ha

theorem ids_instancesOf (hw : p.world.Registered) {name : String} {is : List Instance}
    (h : p.instancesOf name = .ok is) :
    ∃ a ∈ p.world.actors, a.name = name ∧ is.map (·.id) = a.instances := by
  unfold instancesOf actor at h
  split at h
  · rename_i a ha
    cases h
    have hmem := List.mem_of_find?_eq_some ha
    refine ⟨a, hmem, by simpa using List.find?_some ha, ?_⟩
    have hall : ∀ id ∈ a.instances, (p.world.instance? id).map (·.id) = some id := by
      intro id hid
      obtain ⟨i, hi, rfl, -⟩ := (hw.members a hmem id).1 hid
      rw [hw.instance?_of_mem hi]
      rfl
    rw [List.map_filterMap, List.filterMap_congr hall, List.filterMap_some]
  · cases h

theorem createClone_of_resolve {w : World} (hw : w.Registered) {source : CloneSource}
    {parent : Nat} (hr : w.resolve source = .ok parent) :
    ∃ i a front back w', w.member parent = .ok (i, a) ∧
      a.instances = front ++ parent :: back ∧
      World.insertBefore parent (w.lastInstance + 1) a.instances =
        front ++ (w.lastInstance + 1) :: parent :: back ∧
      w.createClone source = .ok (w.lastInstance + 1, w') := by
  obtain ⟨i, a, hm, -⟩ := hw.sprite_of_resolve hr
  obtain ⟨hi, hid, ha, hact⟩ := hw.mem_of_member hm
  subst hid
  have hin : i.id ∈ a.instances := (hw.members a ha i.id).2 ⟨i, hi, rfl, hact.symm⟩
  obtain ⟨front, back, hlist, hins⟩ := World.insertBefore_mem (n := w.lastInstance + 1) hin
  refine ⟨i, a, front, back, ((w.place i a).dispatchTo .startAsClone (w.lastInstance + 1)).2, hm,
    hlist, hins, ?_⟩
  unfold World.createClone
  rw [hr]
  dsimp only
  rw [hm]
  rfl

structure Sound (p : Project) : Prop where
  registered : p.world.Registered
  indexed : p.Indexed
  members : ∀ i ∈ p.world.instances, ∃ a ∈ p.world.actors, p.world.member i.id = .ok (i, a)
  clones : ∀ {source : CloneSource} {parent : Nat}, p.world.resolve source = .ok parent →
    ∃ i a front back w', p.world.member parent = .ok (i, a) ∧
      a.instances = front ++ parent :: back ∧
      World.insertBefore parent (p.world.lastInstance + 1) a.instances =
        front ++ (p.world.lastInstance + 1) :: parent :: back ∧
      p.world.createClone source = .ok (p.world.lastInstance + 1, w')
  listings : ∀ {name : String} {is : List Instance}, p.instancesOf name = .ok is →
    ∃ a ∈ p.world.actors, a.name = name ∧ is.map (·.id) = a.instances

theorem Sound.of_registered (hw : p.world.Registered) (hi : p.Indexed) : p.Sound where
  registered := hw
  indexed := hi
  members _ hi :=
    let ⟨a, ha, hm, _⟩ := hw.member_of_mem hi
    ⟨a, ha, hm⟩
  clones := createClone_of_resolve hw
  listings := ids_instancesOf hw

end Project

namespace Moment

variable {κ : Conduct} {m m' : Moment} {q r : Project}

theorem Reachable.registered_indexed (hm : Reachable κ m)
    (hq : Changes (.under κ) m.project q) : q.world.Registered ∧ q.Indexed := by
  refine hm.invariant (I := fun q => q.world.Registered ∧ q.Indexed) (fun p hp => ?_)
    (fun _ hp h => ⟨hp.1.census h.census, hp.2.change hp.1 h⟩) hq
  refine ⟨.of_blank hp.world, fun t ht => ?_, fun s hs => ?_⟩
  · simp [hp.threads] at ht
  · simp [hp.world.spawns] at hs

theorem Reachable.registry_sound (hm : Reachable κ m) (hq : Changes (.under κ) m.project q) :
    q.Sound ∧ (∀ r, Changes (.under κ) q r → q.world.Precedes r.world) ∧ Closed κ q := by
  obtain ⟨hw, hi⟩ := hm.registered_indexed hq
  exact ⟨.of_registered hw hi, fun r hr => hr.precedes, hm.closed hq⟩

theorem haunted_sound :
    let p := haunted "boo" fun _ => .finish
    let q := (p.answer (.request ⟨1, 1⟩ (.createClone (.member 1)))).2
    q.world.instances.map (·.id) = [1, 2] ∧ q.Sound ∧
      ∀ r, Changes (.under .any) q r → q.world.Precedes r.world := by
  intro p q
  have hm : Reachable .any ⟨p, []⟩ :=
    reachable_haunted (fun _ => trivial) (fun _ _ _ => trivial) "boo"
  have hq : Changes (.under .any) p q := changes_answer p _ nofun
  have h := Reachable.registry_sound hm hq
  exact ⟨rfl, h.1, h.2.1⟩

end Moment

end SpriteStage

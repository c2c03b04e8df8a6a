import SpriteStage.Proofs.Lineage

namespace SpriteStage

open Project

namespace World

def Owns (w : World) (owner actor : Nat) : Prop :=
  ∃ i ∈ w.instances, i.id = owner ∧ i.actor = actor

theorem Owns.isLive {w : World} {owner actor : Nat} (h : w.Owns owner actor) :
    w.isLive owner = true := by
  obtain ⟨i, hi, rfl, -⟩ := h
  exact List.any_eq_true.2 ⟨i, hi, beq_self_eq_true _⟩

theorem SameFolk.owns {w w' : World} (h : w.SameFolk w') {owner actor : Nat}
    (hw : w.Owns owner actor) : w'.Owns owner actor := by
  unfold Owns
  rw [h.instances]
  exact hw

theorem mem_of_isLive {w : World} {id : Nat} (h : w.isLive id = true) :
    ∃ i ∈ w.instances, i.id = id := by
  obtain ⟨i, hi, hid⟩ := List.any_eq_true.1 h
  exact ⟨i, hi, by simpa using hid⟩

end World

namespace Project

variable {σ : Scope} {κ : Conduct} {p q : Project}

theorem Change.survives (h : Change σ p q) {i : Instance} (hi : i ∈ p.world.instances) :
    q.world.Owns i.id i.actor ∨ σ.removes i.id ∧ i.id ∈ q.world.deleted := by
  have hsame : p.world.Owns i.id i.actor := ⟨i, hi, rfl, rfl⟩
  cases h with
  | aside h => exact .inl (h.world.sameFolk.owns hsame)
  | reshaped id change =>
    refine .inl ⟨_, List.mem_map.2 ⟨i, hi, rfl⟩, ?_⟩
    split <;> exact ⟨rfl, rfl⟩
  | dispatched trigger => exact .inl ((World.sameFolk_queueGroup _ _).owns hsame)
  | dispatchedTo trigger owner => exact .inl ((World.sameFolk_queueGroup _ _).owns hsame)
  | placed hr hm => exact .inl ⟨i, List.mem_append_left _ hi, rfl, rfl⟩
  | removed h =>
    rename_i id
    rcases World.deleteInstance_cases p.world id with he | ⟨j, hj, -, he⟩
    · rw [updateWorld, he]
      exact .inl hsame
    · obtain ⟨-, rfl⟩ := World.mem_of_instance? hj
      rw [updateWorld, he]
      by_cases hid : i.id = j.id
      · exact .inr ⟨hid ▸ h, List.mem_append_right _ (List.mem_singleton.2 hid)⟩
      · exact .inl ⟨i, List.mem_filter.2 ⟨hi, decide_eq_true hid⟩, rfl, rfl⟩
  | ended id => exact .inl ((sameFolk_endThread p id).owns hsame)
  | launched h => exact .inl ((sameFolk_launch (p.updateWorld _) _).owns hsame)
  | enrolled figure hr hg hc => exact .inl ⟨i, List.mem_append_left _ hi, rfl, rfl⟩
  | _ => exact .inl hsame

theorem Changes.owns (h : Changes σ p q) (hr : ∀ id, ¬ σ.removes id) {owner actor : Nat}
    (hp : p.world.Owns owner actor) : q.world.Owns owner actor := by
  induction h with
  | refl => exact hp
  | tail _ hq ih =>
    obtain ⟨i, hi, rfl, rfl⟩ := ih
    exact (hq.survives hi).resolve_right fun h => hr _ h.1

-- In the midst of a resumption an owner may be gone, if its deletion has been noted.
structure Owned (p : Project) : Prop where
  threads : ∀ t ∈ p.threads, t.owner ∈ p.world.deleted ∨ p.world.Owns t.owner t.actor
  spawns : ∀ s ∈ p.world.spawns, s.owner ≤ p.world.lastInstance ∧
    ∀ i ∈ p.world.instances, i.id = s.owner → i.actor = s.actor

namespace Owned

theorem of_blank (hp : p.Blank) : p.Owned := by
  constructor
  · simp [hp.threads]
  · simp [hp.world.spawns]

theorem keep_thread (hp : p.Owned) (h : Change σ p q)
    (hd : ∀ id ∈ p.world.deleted, id ∈ q.world.deleted) {t u : Thread} (ht : t ∈ p.threads)
    (hc : t.Continues u) : u.owner ∈ q.world.deleted ∨ q.world.Owns u.owner u.actor := by
  rw [hc.owner, hc.actor]
  rcases hp.threads t ht with hm | ⟨i, hi, hid, hact⟩
  · exact .inl (hd _ hm)
  · rw [← hid, ← hact]
    rcases h.survives hi with hs | ⟨-, hm⟩
    · exact .inr hs
    · exact .inl hm

theorem keep_spawn (hp : p.Owned) (h : Change σ p q) {s : Spawn} (hs : s ∈ p.world.spawns) :
    s.owner ≤ q.world.lastInstance ∧ ∀ i ∈ q.world.instances, i.id = s.owner → i.actor = s.actor := by
  have hprec := h.census.precedes
  obtain ⟨hle, hact⟩ := hp.spawns s hs
  refine ⟨Nat.le_trans hle hprec.lastInstance, fun j hj hid => ?_⟩
  obtain ⟨i, hi, hiid, hiact, -⟩ := hprec.survivors j hj (hid ▸ hle)
  exact hiact.symm.trans (hact i hi (hiid.trans hid))

theorem keep (hp : p.Owned) (h : Change σ p q)
    (ht : ∀ u ∈ q.threads, ∃ t ∈ p.threads, t.Continues u)
    (hs : ∀ s ∈ q.world.spawns, s ∈ p.world.spawns)
    (hd : ∀ id ∈ p.world.deleted, id ∈ q.world.deleted) : q.Owned where
  threads u hu :=
    let ⟨_, hm, hc⟩ := ht u hu
    hp.keep_thread h hd hm hc
  spawns s hm := hp.keep_spawn h (hs s hm)

theorem keep_same (hp : p.Owned) (h : Change σ p q) (ht : q.threads = p.threads)
    (hs : q.world.spawns = p.world.spawns) (hd : q.world.deleted = p.world.deleted) : q.Owned :=
  hp.keep h (fun u hu => ⟨u, ht ▸ hu, .refl u⟩) (fun _ hm => hs ▸ hm) fun _ hm => hd ▸ hm

theorem queueGroup (hp : p.Owned) (hw : p.world.Registered) {starts : List World.Start}
    (hs : ∀ s ∈ starts, p.world.Owns s.owner s.actor) :
    (p.updateWorld fun w => (w.queueGroup starts).2).Owned := by
  have hi : ((p.world.queueGroup starts).2).instances = p.world.instances :=
    World.instances_queueGroup _ _
  have hf := World.sameFolk_queueGroup p.world starts
  have hd : ((p.world.queueGroup starts).2).deleted = p.world.deleted := by
    obtain ⟨lastGroup, groups, spawns, hw, -⟩ := world_queueGroup p.world starts
    rw [hw]
  constructor
  · simp only [updateWorld, World.Owns, hi, hd]
    exact hp.threads
  · intro s hm
    simp only [updateWorld, World.spawns_queueGroup, List.mem_append, List.mem_map] at hm
    simp only [updateWorld, hi, hf.lastInstance]
    rcases hm with hm | ⟨t, ht, rfl⟩
    · exact hp.spawns s hm
    · obtain ⟨i, him, hid, hact⟩ := hs t ht
      refine ⟨hid ▸ hw.allocated i him, fun j hj hjid => ?_⟩
      rw [hw.eq_of_id him hj (hjid.trans hid.symm)]
      exact hact

theorem launch (hp : p.Owned) {s : Spawn}
    (hs : ∀ i ∈ p.world.instances, i.id = s.owner → i.actor = s.actor) : (p.launch s).Owned := by
  by_cases hl : p.world.isLive s.owner
  · rw [launch_of_live hl]
    refine ⟨fun t ht => ?_, hp.spawns⟩
    rcases List.mem_append.1 ht with ht | ht
    · exact hp.threads t ht
    · obtain rfl := List.mem_singleton.1 ht
      obtain ⟨i, hi, hid⟩ := World.mem_of_isLive hl
      exact .inr ⟨i, hi, hid, hs i hi hid⟩
  · rw [launch_of_gone hl]
    exact ⟨hp.threads, hp.spawns⟩

theorem change (hp : p.Owned) (hw : p.world.Registered) (h : Change σ p q) : q.Owned := by
  have hkeep := hp.keep h
  have hsame := hp.keep_same h
  cases h with
  | aside h => exact hsame h.threads h.world.spawns h.world.deleted
  | mailbox id change =>
    have hc : ∀ t : Thread, t.Continues { t with mailbox := change t.mailbox } := fun _ =>
      ⟨rfl, rfl, rfl, rfl, rfl⟩
    exact hkeep (fun u hu => continues_of_mem_updateThread hc hu) (fun _ hs => hs) fun _ hd => hd
  | turn hid h hb =>
    exact hkeep (fun u hu => continues_of_mem_updateThread h hu) (fun _ hs => hs) fun _ hd => hd
  | dispatched trigger =>
    refine hp.queueGroup hw fun s hs => ?_
    obtain ⟨a, ha, hact, -, ho⟩ := World.mem_starts.1 hs
    rw [hact]
    exact (hw.members a ha s.owner).1 ho
  | dispatchedTo trigger owner =>
    refine hp.queueGroup hw fun s hs => ?_
    obtain ⟨i, a, hm, hact, rfl, -⟩ := World.mem_startsOf.1 hs
    obtain ⟨hi, hid, -, haid⟩ := hw.mem_of_member hm
    exact ⟨i, hi, hid, haid.symm.trans hact.symm⟩
  | removed h =>
    rename_i id
    have hsd : (p.world.deleteInstance id).2.spawns = p.world.spawns ∧
        ∀ id' ∈ p.world.deleted, id' ∈ (p.world.deleteInstance id).2.deleted := by
      rcases World.deleteInstance_cases p.world id with he | ⟨i, -, -, he⟩
      · rw [he]
        exact ⟨rfl, fun _ hd => hd⟩
      · rw [he]
        exact ⟨rfl, fun _ hd => List.mem_append_left _ hd⟩
    exact hkeep (fun u hu => ⟨u, hu, .refl u⟩) (fun s hs => hsd.1 ▸ hs) hsd.2
  | ended id =>
    refine hkeep (fun u hu => ?_) ?_ ?_
    · rw [threads_endThread] at hu
      exact ⟨u, List.mem_of_mem_filter hu, .refl u⟩
    · rw [spawns_endThread]
      exact fun _ hs => hs
    · rw [deleted_endThread]
      exact fun _ hd => hd
  | launched h =>
    rename_i s rest
    have hs : s ∈ p.world.spawns := h ▸ List.mem_cons_self
    have hrest : (p.updateWorld fun w => { w with spawns := rest }).Owned :=
      ⟨hp.threads, fun s' hm => hp.spawns s' (h ▸ List.mem_cons_of_mem _ hm)⟩
    exact hrest.launch (hp.spawns s hs).2
  | purged hn =>
    exact ⟨fun t ht => .inr ((hp.threads t ht).resolve_left (hn t ht)), hp.spawns⟩
  | cleared => exact ⟨by rintro t ⟨⟩, by rintro s ⟨⟩⟩
  | _ => exact hsame rfl rfl rfl

end Owned

end Project

theorem Moment.Reachable.owned {κ : Conduct} {m : Moment} {q : Project} (hm : Reachable κ m)
    (hq : Changes (.under κ) m.project q) : q.Owned := by
  have hboth := hm.invariant (I := fun q => q.world.Registered ∧ q.Owned)
    (fun p hp => ⟨.of_blank hp.world, .of_blank hp⟩)
    (fun _ hp h => ⟨hp.1.census h.census, hp.2.change hp.1 h⟩) hq
  exact hboth.2

end SpriteStage

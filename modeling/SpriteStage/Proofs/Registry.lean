import SpriteStage.Proofs.Origin

namespace SpriteStage

namespace World

structure SameFolk (w w' : World) : Prop where
  actors : w'.actors = w.actors
  instances : w'.instances = w.instances
  lastInstance : w'.lastInstance = w.lastInstance

theorem SameFolk.refl (w : World) : w.SameFolk w := ⟨rfl, rfl, rfl⟩

theorem SameFolk.trans {w w' w'' : World} (h : w.SameFolk w') (h' : w'.SameFolk w'') :
    w.SameFolk w'' :=
  ⟨h'.actors.trans h.actors, h'.instances.trans h.instances,
    h'.lastInstance.trans h.lastInstance⟩

theorem SameCast.sameFolk {w w' : World} (h : w.SameCast w') : w.SameFolk w' :=
  ⟨h.actors, h.instances, h.lastInstance⟩

theorem sameFolk_queueGroup (w : World) (starts : List Start) :
    w.SameFolk (w.queueGroup starts).2 := by
  obtain ⟨lastGroup, groups, spawns, hw, -⟩ := Project.world_queueGroup w starts
  rw [hw]
  exact ⟨rfl, rfl, rfl⟩

inductive Census (w : World) : World → Prop where
  | same {w' : World} (h : w.SameFolk w') : Census w w'
  | reshaped (id : Nat) (change : Figure → Figure) : Census w (w.reshape id change)
  | placed {source : CloneSource} {parent : Nat} {i : Instance} {a : Actor}
      (hr : w.resolve source = .ok parent) (hm : w.member parent = .ok (i, a)) :
      Census w (w.place i a)
  | removed {i : Instance} (hi : w.instance? i.id = some i) (hc : i.isClone = true) :
      Census w (w.remove i)
  | allocated : Census w { w with lastInstance := w.lastInstance + 1 }
  | enrolled {c : ActorClass} {kind : ActorKind} {groups : List HandlerGroup} (figure : Figure)
      (hr : Project.refusal? w c kind = none) : Census w (w.enrol c groups figure)

end World

theorem Project.sameFolk_endThread (p : Project) (id : Nat) :
    p.world.SameFolk (p.endThread id).world := by
  obtain ⟨groups, questions, hw, -⟩ := world_endThread p id
  rw [hw]
  exact ⟨rfl, rfl, rfl⟩

theorem Project.Enlists.sameFolk {w w' : World} (h : Enlists w w') : w.SameFolk w' := by
  obtain ⟨_, _, _, _, _, rfl⟩ := h
  exact ⟨rfl, rfl, rfl⟩

theorem Project.sameFolk_launch (p : Project) (s : Spawn) :
    p.world.SameFolk (p.launch s).world :=
  (enlists_launch p s).sameFolk

theorem Project.Change.census {σ : Scope} {p q : Project} (h : Change σ p q) :
    p.world.Census q.world := by
  cases h with
  | aside h => exact .same h.world.sameFolk
  | reshaped id change => exact .reshaped id change
  | dispatched trigger => exact .same (World.sameFolk_queueGroup _ _)
  | dispatchedTo trigger owner => exact .same (World.sameFolk_queueGroup _ _)
  | placed hr hm => exact .placed hr hm
  | removed h =>
    rename_i id
    rcases World.deleteInstance_cases p.world id with he | ⟨i, hi, hc, he⟩
    · rw [updateWorld, he]
      exact .same (.refl _)
    · rw [updateWorld, he]
      obtain ⟨-, rfl⟩ := World.mem_of_instance? hi
      exact .removed hi hc
  | ended id => exact .same (sameFolk_endThread p id)
  | launched h =>
    obtain ⟨ha, hi, hl⟩ := sameFolk_launch (p.updateWorld _) _
    exact .same ⟨ha, hi, hl⟩
  | allocated => exact .allocated
  | enrolled figure hr hg hc => exact .enrolled figure hr
  | _ => exact .same ⟨rfl, rfl, rfl⟩

namespace World

variable {w w' w'' : World}

theorem actors_place (w : World) (i : Instance) (a : Actor) :
    (w.place i a).actors = (w.updateActor a.id fun b =>
      { b with instances := insertBefore i.id (w.lastInstance + 1) b.instances }).actors := rfl

theorem actors_remove (w : World) (i : Instance) :
    (w.remove i).actors = (w.updateActor i.actor fun b =>
      { b with instances := b.instances.filter (· ≠ i.id) }).actors := rfl

structure Registered (w : World) : Prop where
  positions : ∀ {k : Nat} {a : Actor}, w.actors[k]? = some a → a.id = k
  names : (w.actors.map (·.name)).Nodup
  oneStage : ∀ a ∈ w.actors, ∀ b ∈ w.actors, a.kind = .stage → b.kind = .stage → a = b
  ids : (w.instances.map (·.id)).Nodup
  allocated : ∀ i ∈ w.instances, i.id ≤ w.lastInstance
  inRange : ∀ i ∈ w.instances, i.actor < w.actors.length
  listed : ∀ a ∈ w.actors, a.instances.Nodup
  members : ∀ a ∈ w.actors, ∀ id,
    id ∈ a.instances ↔ ∃ i ∈ w.instances, i.id = id ∧ i.actor = a.id
  founders : ∀ a ∈ w.actors, a.founder ∈ a.instances
  parentless : ∀ a ∈ w.actors, ∀ i ∈ w.instances, i.actor = a.id →
    (i.parent = none ↔ i.id = a.founder)
  stages : ∀ a ∈ w.actors, a.kind = .stage → a.instances = [a.founder]

namespace Registered

theorem of_blank (hw : w.Blank) : w.Registered := by
  constructor <;> simp [hw.actors, hw.instances]

theorem eq_of_id (hw : w.Registered) {i j : Instance} (hi : i ∈ w.instances)
    (hj : j ∈ w.instances) (h : j.id = i.id) : j = i :=
  List.inj_on_of_nodup_map hw.ids hj hi h

theorem instance?_of_mem (hw : w.Registered) {i : Instance} (hi : i ∈ w.instances) :
    w.instance? i.id = some i := by
  unfold instance?
  cases hf : w.instances.find? (·.id == i.id) with
  | none => simpa using List.find?_eq_none.1 hf i hi
  | some j =>
    have hj : j.id = i.id := by simpa using List.find?_some hf
    rw [hw.eq_of_id hi (List.mem_of_find?_eq_some hf) hj]

theorem id_lt (hw : w.Registered) {a : Actor} (ha : a ∈ w.actors) : a.id < w.actors.length := by
  obtain ⟨k, hk⟩ := List.getElem?_of_mem ha
  rw [hw.positions hk]
  exact (List.getElem?_eq_some_iff.1 hk).1

theorem eq_of_actor (hw : w.Registered) {a b : Actor} (ha : a ∈ w.actors) (hb : b ∈ w.actors)
    (h : b.id = a.id) : b = a := by
  obtain ⟨k, hk⟩ := List.getElem?_of_mem ha
  obtain ⟨l, hl⟩ := List.getElem?_of_mem hb
  rw [hw.positions hk, hw.positions hl] at h
  subst h
  exact Option.some.inj (hl.symm.trans hk)

theorem actor_of_mem (hw : w.Registered) {i : Instance} (hi : i ∈ w.instances) :
    ∃ a ∈ w.actors, w.actors[i.actor]? = some a ∧ a.id = i.actor := by
  have hlt := hw.inRange i hi
  exact ⟨w.actors[i.actor], List.getElem_mem hlt, List.getElem?_eq_getElem hlt,
    hw.positions (List.getElem?_eq_getElem hlt)⟩

theorem member_of_mem (hw : w.Registered) {i : Instance} (hi : i ∈ w.instances) :
    ∃ a ∈ w.actors, w.member i.id = .ok (i, a) ∧ a.id = i.actor := by
  obtain ⟨a, ha, hk, hid⟩ := hw.actor_of_mem hi
  refine ⟨a, ha, ?_, hid⟩
  unfold member
  rw [hw.instance?_of_mem hi]
  simp only [hk]

theorem mem_of_member (hw : w.Registered) {id : Nat} {i : Instance} {a : Actor}
    (hm : w.member id = .ok (i, a)) :
    i ∈ w.instances ∧ i.id = id ∧ a ∈ w.actors ∧ a.id = i.actor := by
  obtain ⟨hi, ha⟩ := member_eq_ok hm
  obtain ⟨hmem, hid⟩ := mem_of_instance? hi
  exact ⟨hmem, hid, List.mem_of_getElem? ha, hw.positions ha⟩

theorem sprite_of_resolve (hw : w.Registered) {source : CloneSource} {parent : Nat}
    (hr : w.resolve source = .ok parent) :
    ∃ i a, w.member parent = .ok (i, a) ∧ a.kind = .sprite := by
  cases source with
  | className name =>
    simp only [resolve] at hr
    split at hr
    · cases hr
    · rename_i b hb
      split at hr
      · rename_i hs
        cases hr
        have hbm := List.mem_of_find?_eq_some hb
        obtain ⟨i, hi, hid, hact⟩ := (hw.members b hbm _).1 (hw.founders b hbm)
        obtain ⟨a, ha, hm, haid⟩ := hw.member_of_mem hi
        obtain rfl := hw.eq_of_actor hbm ha (haid.trans hact)
        exact ⟨i, a, hid ▸ hm, by simpa [Actor.isSprite] using hs⟩
      · cases hr
  | member id =>
    simp only [resolve] at hr
    split at hr
    · cases hr
    · rename_i i a hm
      split at hr
      · rename_i hs
        cases hr
        exact ⟨i, a, hm, by simpa [Actor.isSprite] using hs⟩
      · cases hr

theorem same (hw : w.Registered) (h : w.SameFolk w') : w'.Registered := by
  obtain ⟨ha, hi, hl⟩ := h
  constructor
  · rw [ha]; exact hw.positions
  · rw [ha]; exact hw.names
  · rw [ha]; exact hw.oneStage
  · rw [hi]; exact hw.ids
  · rw [hi, hl]; exact hw.allocated
  · rw [hi, ha]; exact hw.inRange
  · rw [ha]; exact hw.listed
  · rw [ha, hi]; exact hw.members
  · rw [ha]; exact hw.founders
  · rw [ha, hi]; exact hw.parentless
  · rw [ha]; exact hw.stages

theorem allocate (hw : w.Registered) :
    { w with lastInstance := w.lastInstance + 1 }.Registered :=
  ⟨hw.positions, hw.names, hw.oneStage, hw.ids,
    fun i hi => Nat.le_succ_of_le (hw.allocated i hi), hw.inRange, hw.listed, hw.members,
    hw.founders, hw.parentless, hw.stages⟩

theorem mem_reshape {id : Nat} {change : Figure → Figure} {j : Instance}
    (hj : j ∈ (w.reshape id change).instances) :
    ∃ i ∈ w.instances, j.id = i.id ∧ j.actor = i.actor ∧ j.parent = i.parent := by
  obtain ⟨i, hi, rfl⟩ := List.mem_map.1 hj
  refine ⟨i, hi, ?_⟩
  split <;> exact ⟨rfl, rfl, rfl⟩

theorem reshape_of_mem (id : Nat) (change : Figure → Figure) {i : Instance}
    (hi : i ∈ w.instances) :
    ∃ j ∈ (w.reshape id change).instances, j.id = i.id ∧ j.actor = i.actor := by
  refine ⟨_, List.mem_map.2 ⟨i, hi, rfl⟩, ?_⟩
  split <;> exact ⟨rfl, rfl⟩

theorem ids_reshape (w : World) (id : Nat) (change : Figure → Figure) :
    (w.reshape id change).instances.map (·.id) = w.instances.map (·.id) := by
  simp only [World.reshape, List.map_map]
  refine List.map_congr_left fun i _ => ?_
  simp only [Function.comp]
  split <;> rfl

theorem reshape (hw : w.Registered) (id : Nat) (change : Figure → Figure) :
    (w.reshape id change).Registered where
  positions := hw.positions
  names := hw.names
  oneStage := hw.oneStage
  ids := by
    rw [ids_reshape]
    exact hw.ids
  allocated j hj := by
    obtain ⟨i, hi, hid, -, -⟩ := mem_reshape hj
    rw [hid]
    exact hw.allocated i hi
  inRange j hj := by
    obtain ⟨i, hi, -, hact, -⟩ := mem_reshape hj
    rw [hact]
    exact hw.inRange i hi
  listed := hw.listed
  members a ha k := by
    rw [hw.members a ha k]
    constructor
    · rintro ⟨i, hi, hid, hact⟩
      obtain ⟨j, hj, hjid, hjact⟩ := reshape_of_mem id change hi
      exact ⟨j, hj, hjid.trans hid, hjact.trans hact⟩
    · rintro ⟨j, hj, hid, hact⟩
      obtain ⟨i, hi, hiid, hiact, -⟩ := mem_reshape hj
      exact ⟨i, hi, hiid.symm.trans hid, hiact.symm.trans hact⟩
  founders := hw.founders
  parentless a ha j hj hact := by
    obtain ⟨i, hi, hid, hiact, hpar⟩ := mem_reshape hj
    rw [hid, hpar]
    exact hw.parentless a ha i hi (hiact.symm.trans hact)
  stages := hw.stages

section Updates

variable {id : Nat} {change : Actor → Actor}

theorem positions_updateActor (hw : w.Registered) {k : Nat} {a : Actor}
    (h : (w.updateActor id change).actors[k]? = some a) (hc : ∀ a, (change a).id = a.id) :
    a.id = k := by
  simp only [updateActor, List.getElem?_map, Option.map_eq_some_iff] at h
  obtain ⟨b, hb, rfl⟩ := h
  rw [← hw.positions hb]
  split
  · exact hc b
  · rfl

theorem names_updateActor (hw : w.Registered) (hc : ∀ a, (change a).name = a.name) :
    ((w.updateActor id change).actors.map (·.name)).Nodup := by
  have hn : (w.updateActor id change).actors.map (·.name) = w.actors.map (·.name) := by
    simp only [updateActor, List.map_map]
    refine List.map_congr_left fun a _ => ?_
    simp only [Function.comp]
    split
    · exact hc a
    · rfl
  rw [hn]
  exact hw.names

theorem oneStage_updateActor (hw : w.Registered) (hc : ∀ a, (change a).kind = a.kind) :
    ∀ a ∈ (w.updateActor id change).actors, ∀ b ∈ (w.updateActor id change).actors,
      a.kind = .stage → b.kind = .stage → a = b := by
  have hk : ∀ a : Actor, (if a.id = id then change a else a).kind = a.kind := fun a => by
    split
    · exact hc a
    · rfl
  intro a' ha' b' hb' hak hbk
  obtain ⟨a, ha, rfl⟩ := List.mem_map.1 ha'
  obtain ⟨b, hb, rfl⟩ := List.mem_map.1 hb'
  rw [hk] at hak hbk
  rw [hw.oneStage a ha b hb hak hbk]

end Updates

theorem nodup_insertBefore {parent n : Nat} {ids : List Nat} (h : ids.Nodup) (hn : n ∉ ids) :
    (insertBefore parent n ids).Nodup := by
  induction ids with
  | nil => simp [insertBefore]
  | cons head rest ih =>
    simp only [insertBefore]
    split
    · exact List.nodup_cons.2 ⟨hn, h⟩
    · rw [List.nodup_cons] at h ⊢
      rw [List.mem_cons, not_or] at hn
      refine ⟨?_, ih h.2 hn.2⟩
      rw [mem_insertBefore]
      rintro (rfl | hm)
      · exact hn.1 rfl
      · exact h.1 hm

section Fresh

variable {j : Instance}

theorem fresh (hw : w.Registered) {b : Actor} (hb : b ∈ w.actors) :
    w.lastInstance + 1 ∉ b.instances := by
  intro hn
  obtain ⟨i, hi, hid, -⟩ := (hw.members b hb _).1 hn
  exact Nat.not_succ_le_self _ (hid ▸ hw.allocated i hi)

theorem ids_append (hw : w.Registered) (hj : j.id = w.lastInstance + 1) :
    ((w.instances ++ [j]).map (·.id)).Nodup := by
  rw [List.map_append]
  refine List.nodup_append.2 ⟨hw.ids, List.nodup_cons.2 ⟨List.not_mem_nil, .nil⟩, ?_⟩
  rintro x hx y hy rfl
  obtain ⟨i, hi, rfl⟩ := List.mem_map.1 hx
  have hle := hw.allocated i hi
  have heq : i.id = j.id := List.mem_singleton.1 hy
  omega

theorem allocated_append (hw : w.Registered) (hj : j.id = w.lastInstance + 1) :
    ∀ i ∈ w.instances ++ [j], i.id ≤ w.lastInstance + 1 := by
  intro i hi
  rcases List.mem_append.1 hi with hi | hi
  · exact Nat.le_succ_of_le (hw.allocated i hi)
  · obtain rfl := List.mem_singleton.1 hi
    exact Nat.le_of_eq hj

end Fresh

section Place

variable {i : Instance} {a : Actor}

theorem members_place (hw : w.Registered) (hact : a.id = i.actor) :
    ∀ b ∈ (w.place i a).actors, ∀ id,
      id ∈ b.instances ↔ ∃ j ∈ (w.place i a).instances, j.id = id ∧ j.actor = b.id := by
  intro b' hb' id
  obtain ⟨b, hb, ⟨hbid, rfl⟩ | ⟨hbid, rfl⟩⟩ := mem_updateActor hb'
  · dsimp only
    rw [mem_insertBefore, hw.members b hb id]
    constructor
    · rintro (rfl | ⟨j, hj, hid, hjact⟩)
      · exact ⟨_, List.mem_append_right _ List.mem_cons_self, rfl, hact.symm.trans hbid.symm⟩
      · exact ⟨j, List.mem_append_left _ hj, hid, hjact⟩
    · rintro ⟨j, hj, hid, hjact⟩
      rcases List.mem_append.1 hj with hj | hj
      · exact .inr ⟨j, hj, hid, hjact⟩
      · obtain rfl := List.mem_singleton.1 hj
        exact .inl hid.symm
  · rw [hw.members _ hb id]
    constructor
    · rintro ⟨j, hj, hid, hjact⟩
      exact ⟨j, List.mem_append_left _ hj, hid, hjact⟩
    · rintro ⟨j, hj, hid, hjact⟩
      rcases List.mem_append.1 hj with hj | hj
      · exact ⟨j, hj, hid, hjact⟩
      · obtain rfl := List.mem_singleton.1 hj
        exact absurd (hjact.symm.trans hact.symm) hbid

theorem parentless_place (hw : w.Registered) :
    ∀ b ∈ (w.place i a).actors, ∀ j ∈ (w.place i a).instances, j.actor = b.id →
      (j.parent = none ↔ j.id = b.founder) := by
  intro b' hb' j hj hjact
  have hold : ∃ b ∈ w.actors, b'.id = b.id ∧ b'.founder = b.founder := by
    obtain ⟨b, hb, ⟨-, rfl⟩ | ⟨-, rfl⟩⟩ := mem_updateActor hb'
    · exact ⟨b, hb, rfl, rfl⟩
    · exact ⟨_, hb, rfl, rfl⟩
  obtain ⟨b, hb, hbid, hbf⟩ := hold
  rw [hbf]
  rcases List.mem_append.1 hj with hj | hj
  · exact hw.parentless b hb j hj (hjact.trans hbid)
  · obtain rfl := List.mem_singleton.1 hj
    constructor
    · rintro ⟨⟩
    · intro h
      have hf := hw.founders b hb
      rw [← h] at hf
      exact absurd hf (hw.fresh hb)

theorem place (hw : w.Registered) {source : CloneSource} {parent : Nat}
    (hr : w.resolve source = .ok parent) (hm : w.member parent = .ok (i, a)) :
    (w.place i a).Registered := by
  obtain ⟨hi, -, ha, hact⟩ := hw.mem_of_member hm
  obtain ⟨i', a', hm', hsprite⟩ := hw.sprite_of_resolve hr
  rw [hm] at hm'
  cases hm'
  have hlen : (w.place i a).actors.length = w.actors.length := List.length_map _
  exact {
    positions := fun {k b} hk => by
      rw [actors_place] at hk
      exact hw.positions_updateActor hk fun _ => rfl
    names := by
      rw [actors_place]
      exact hw.names_updateActor fun _ => rfl
    oneStage := by
      rw [actors_place]
      exact hw.oneStage_updateActor fun _ => rfl
    ids := hw.ids_append rfl
    allocated := hw.allocated_append rfl
    inRange := fun j hj => by
      rw [hlen]
      rcases List.mem_append.1 hj with hj | hj
      · exact hw.inRange j hj
      · obtain rfl := List.mem_singleton.1 hj
        exact hw.inRange i hi
    listed := fun b' hb' => by
      obtain ⟨b, hb, ⟨-, rfl⟩ | ⟨-, rfl⟩⟩ := mem_updateActor hb'
      · exact nodup_insertBefore (hw.listed b hb) (hw.fresh hb)
      · exact hw.listed _ hb
    members := hw.members_place hact
    founders := fun b' hb' => by
      obtain ⟨b, hb, ⟨-, rfl⟩ | ⟨-, rfl⟩⟩ := mem_updateActor hb'
      · exact mem_insertBefore.2 (.inr (hw.founders b hb))
      · exact hw.founders _ hb
    parentless := hw.parentless_place
    -- Only sprites are cloned, so the list of a stage is not the one that grows.
    stages := fun b' hb' hstage => by
      obtain ⟨b, hb, ⟨hbid, rfl⟩ | ⟨-, rfl⟩⟩ := mem_updateActor hb'
      · obtain rfl := hw.eq_of_actor ha hb hbid
        rw [hsprite] at hstage
        cases hstage
      · exact hw.stages _ hb hstage }

end Place

section Remove

variable {i : Instance}

theorem founder_ne (hw : w.Registered) (hi : i ∈ w.instances) (hc : i.isClone = true) {b : Actor}
    (hb : b ∈ w.actors) : b.founder ≠ i.id := by
  intro hf
  obtain ⟨j, hj, hid, hact⟩ := (hw.members b hb _).1 (hw.founders b hb)
  obtain rfl := hw.eq_of_id hi hj (hid.trans hf)
  have hnone := (hw.parentless b hb j hj hact).2 hid
  rw [Instance.isClone, hnone] at hc
  cases hc

-- An actor that does not list the instance keeps its list, which is that list filtered as well.
theorem mem_actors_remove (hw : w.Registered) (hi : i ∈ w.instances) {b' : Actor}
    (hb' : b' ∈ (w.remove i).actors) :
    ∃ b ∈ w.actors, b'.id = b.id ∧ b'.kind = b.kind ∧ b'.founder = b.founder ∧
      b'.instances = b.instances.filter (· ≠ i.id) := by
  rw [actors_remove] at hb'
  obtain ⟨b, hb, ⟨-, rfl⟩ | ⟨hbid, rfl⟩⟩ := mem_updateActor hb'
  · exact ⟨b, hb, rfl, rfl, rfl, rfl⟩
  · refine ⟨_, hb, rfl, rfl, rfl, (List.filter_eq_self.2 fun id hid => ?_).symm⟩
    obtain ⟨j, hj, hjid, hact⟩ := (hw.members _ hb id).1 hid
    refine decide_eq_true fun he => hbid ?_
    obtain rfl := hw.eq_of_id hi hj (hjid.trans he)
    exact hact.symm

theorem members_remove (hw : w.Registered) (hi : i ∈ w.instances) :
    ∀ b ∈ (w.remove i).actors, ∀ id,
      id ∈ b.instances ↔ ∃ j ∈ (w.remove i).instances, j.id = id ∧ j.actor = b.id := by
  intro b' hb' id
  obtain ⟨b, hb, hbid, -, -, hids⟩ := hw.mem_actors_remove hi hb'
  simp only [hids, List.mem_filter, hw.members b hb id, hbid, decide_eq_true_eq, World.remove]
  constructor
  · rintro ⟨⟨j, hj, hid, hact⟩, hne⟩
    exact ⟨j, ⟨hj, hid ▸ hne⟩, hid, hact⟩
  · rintro ⟨j, ⟨hj, hne⟩, hid, hact⟩
    exact ⟨⟨j, hj, hid, hact⟩, hid ▸ hne⟩

theorem remove (hw : w.Registered) (hi : w.instance? i.id = some i) (hc : i.isClone = true) :
    (w.remove i).Registered := by
  have him := (mem_of_instance? hi).1
  have hlen : (w.remove i).actors.length = w.actors.length := List.length_map _
  exact {
    positions := fun {k b} hk => by
      rw [actors_remove] at hk
      exact hw.positions_updateActor hk fun _ => rfl
    names := by
      rw [actors_remove]
      exact hw.names_updateActor fun _ => rfl
    oneStage := by
      rw [actors_remove]
      exact hw.oneStage_updateActor fun _ => rfl
    ids := hw.ids.sublist (List.filter_sublist.map _)
    allocated := fun j hj => hw.allocated j (List.mem_of_mem_filter hj)
    inRange := fun j hj => by
      rw [hlen]
      exact hw.inRange j (List.mem_of_mem_filter hj)
    listed := fun b' hb' => by
      obtain ⟨b, hb, -, -, -, hids⟩ := hw.mem_actors_remove him hb'
      rw [hids]
      exact (hw.listed b hb).filter _
    members := hw.members_remove him
    founders := fun b' hb' => by
      obtain ⟨b, hb, -, -, hf, hids⟩ := hw.mem_actors_remove him hb'
      rw [hids, hf]
      exact List.mem_filter.2 ⟨hw.founders b hb, decide_eq_true (hw.founder_ne him hc hb)⟩
    parentless := fun b' hb' j hj hjact => by
      obtain ⟨b, hb, hbid, -, hf, -⟩ := hw.mem_actors_remove him hb'
      rw [hf]
      exact hw.parentless b hb j (List.mem_of_mem_filter hj) (hjact.trans hbid)
    stages := fun b' hb' hstage => by
      obtain ⟨b, hb, -, hk, hf, hids⟩ := hw.mem_actors_remove him hb'
      rw [hids, hf, hw.stages b hb (hk ▸ hstage)]
      refine List.filter_eq_self.2 fun id hid => ?_
      rw [List.mem_singleton.1 hid]
      exact decide_eq_true (hw.founder_ne him hc hb) }

end Remove

section Enrol

variable {c : ActorClass} {kind : ActorKind} {groups : List HandlerGroup}

theorem accepted_of_refusal (hr : Project.refusal? w c kind = none) :
    (∀ a ∈ w.actors, a.name ≠ c.name) ∧
      (c.kind = .stage → ∀ a ∈ w.actors, a.kind ≠ .stage) := by
  unfold Project.refusal? at hr
  split at hr
  · cases hr
  · rename_i hk
    have hk : c.kind = kind := by simpa using hk
    split at hr
    · cases hr
    · rename_i hn
      have hn : w.actorNamed? c.name = none := by simpa using hn
      refine ⟨fun a ha => by simpa using List.find?_eq_none.1 hn a ha, fun hs a ha => ?_⟩
      rw [if_pos (hk.symm.trans hs)] at hr
      have hstage : w.stage? = none := by simpa using hr
      simpa using List.find?_eq_none.1 hstage a ha

variable (figure : Figure)

theorem positions_enrol (hw : w.Registered) {k : Nat} {a : Actor}
    (hk : (w.enrol c groups figure).actors[k]? = some a) : a.id = k := by
  simp only [World.enrol] at hk
  rw [List.getElem?_append] at hk
  split at hk
  · exact hw.positions hk
  · rename_i hge
    obtain ⟨hlt, hk⟩ := List.getElem?_eq_some_iff.1 hk
    simp only [List.length_singleton] at hlt
    rw [List.getElem_singleton] at hk
    subst hk
    change w.actors.length = k
    omega

theorem members_enrol (hw : w.Registered) :
    ∀ b ∈ (w.enrol c groups figure).actors, ∀ id,
      id ∈ b.instances ↔ ∃ j ∈ (w.enrol c groups figure).instances, j.id = id ∧ j.actor = b.id := by
  intro b hb id
  rcases List.mem_append.1 hb with hb | hb
  · rw [hw.members b hb id]
    constructor
    · rintro ⟨j, hj, hid, hact⟩
      exact ⟨j, List.mem_append_left _ hj, hid, hact⟩
    · rintro ⟨j, hj, hid, hact⟩
      rcases List.mem_append.1 hj with hj | hj
      · exact ⟨j, hj, hid, hact⟩
      · obtain rfl := List.mem_singleton.1 hj
        exact absurd hact (Nat.ne_of_gt (hw.id_lt hb))
  · obtain rfl := List.mem_singleton.1 hb
    constructor
    · intro hid
      exact ⟨_, List.mem_append_right _ List.mem_cons_self, (List.mem_singleton.1 hid).symm, rfl⟩
    · rintro ⟨j, hj, hid, hact⟩
      rcases List.mem_append.1 hj with hj | hj
      · exact absurd hact (Nat.ne_of_lt (hw.inRange j hj))
      · obtain rfl := List.mem_singleton.1 hj
        exact List.mem_singleton.2 hid.symm

theorem parentless_enrol (hw : w.Registered) :
    ∀ b ∈ (w.enrol c groups figure).actors, ∀ j ∈ (w.enrol c groups figure).instances,
      j.actor = b.id → (j.parent = none ↔ j.id = b.founder) := by
  intro b hb j hj hjact
  rcases List.mem_append.1 hb with hb | hb <;> rcases List.mem_append.1 hj with hj | hj
  · exact hw.parentless b hb j hj hjact
  · obtain rfl := List.mem_singleton.1 hj
    exact absurd hjact (Nat.ne_of_gt (hw.id_lt hb))
  · obtain rfl := List.mem_singleton.1 hb
    exact absurd hjact (Nat.ne_of_lt (hw.inRange j hj))
  · obtain rfl := List.mem_singleton.1 hb
    obtain rfl := List.mem_singleton.1 hj
    exact ⟨fun _ => rfl, fun _ => rfl⟩

theorem enrol (hw : w.Registered) (hr : Project.refusal? w c kind = none) :
    (w.enrol c groups figure).Registered := by
  obtain ⟨hname, hstage⟩ := accepted_of_refusal hr
  have hlen : (w.enrol c groups figure).actors.length = w.actors.length + 1 :=
    List.length_append
  exact {
    positions := hw.positions_enrol figure
    names := by
      simp only [World.enrol, List.map_append, List.map_cons, List.map_nil]
      refine List.nodup_append.2 ⟨hw.names, List.nodup_cons.2 ⟨List.not_mem_nil, .nil⟩, ?_⟩
      rintro x hx y hy rfl
      obtain ⟨a, ha, hax⟩ := List.mem_map.1 hx
      exact hname a ha (hax.trans (List.mem_singleton.1 hy))
    oneStage := fun a ha b hb hak hbk => by
      rcases List.mem_append.1 ha with ha | ha <;> rcases List.mem_append.1 hb with hb | hb
      · exact hw.oneStage a ha b hb hak hbk
      · obtain rfl := List.mem_singleton.1 hb
        exact absurd hak (hstage hbk a ha)
      · obtain rfl := List.mem_singleton.1 ha
        exact absurd hbk (hstage hak b hb)
      · rw [List.mem_singleton.1 ha, List.mem_singleton.1 hb]
    ids := hw.ids_append rfl
    allocated := hw.allocated_append rfl
    inRange := fun j hj => by
      rw [hlen]
      rcases List.mem_append.1 hj with hj | hj
      · exact Nat.lt_succ_of_lt (hw.inRange j hj)
      · obtain rfl := List.mem_singleton.1 hj
        exact Nat.lt_succ_self _
    listed := fun b hb => by
      rcases List.mem_append.1 hb with hb | hb
      · exact hw.listed b hb
      · obtain rfl := List.mem_singleton.1 hb
        exact List.nodup_cons.2 ⟨List.not_mem_nil, .nil⟩
    members := hw.members_enrol figure
    founders := fun b hb => by
      rcases List.mem_append.1 hb with hb | hb
      · exact hw.founders b hb
      · obtain rfl := List.mem_singleton.1 hb
        exact List.mem_cons_self
    parentless := hw.parentless_enrol figure
    stages := fun b hb hs => by
      rcases List.mem_append.1 hb with hb | hb
      · exact hw.stages b hb hs
      · obtain rfl := List.mem_singleton.1 hb
        rfl }

end Enrol

theorem census (hw : w.Registered) (h : w.Census w') : w'.Registered := by
  cases h with
  | same h => exact hw.same h
  | reshaped id change => exact hw.reshape id change
  | placed hr hm => exact hw.place hr hm
  | removed hi hc => exact hw.remove hi hc
  | allocated => exact hw.allocate
  | enrolled figure hr => exact hw.enrol figure hr

end Registered

end World

theorem Project.Changes.registered {σ : Scope} {p q : Project} (h : Changes σ p q)
    (hp : p.world.Registered) : q.world.Registered := by
  induction h with
  | refl => exact hp
  | tail _ hq ih => exact ih.census hq.census

end SpriteStage

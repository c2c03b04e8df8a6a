import SpriteStage.Proofs.Freshness

namespace SpriteStage

open Project

namespace World

variable {w w' w'' : World} {owner id : Nat} {i : Instance}

-- All that is done to instances through a handle: to its own one, or by making a new one.
inductive Affects (w : World) (owner : Nat) : World → Prop where
  | spares {w' : World} (h : w.SameFolk w') : Affects w owner w'
  | reshapes (change : Figure → Figure) : Affects w owner (w.reshape owner change)
  | places {i : Instance} {a : Actor} {w' : World} (h : (w.place i a).SameFolk w') :
      Affects w owner w'
  | deletes : Affects w owner (w.deleteInstance owner).2

-- An instance that is still there is what it was.
structure Inherits (w : World) (id : Nat) (w' : World) : Prop where
  lastInstance : w.lastInstance ≤ w'.lastInstance
  same : ∀ j ∈ w'.instances, j.id = id → id ≤ w.lastInstance → j ∈ w.instances

theorem Inherits.trans (h : w.Inherits id w') (h' : w'.Inherits id w'') : w.Inherits id w'' :=
  ⟨Nat.le_trans h.lastInstance h'.lastInstance, fun j hj hid hle =>
    h.same j (h'.same j hj hid (Nat.le_trans hle h.lastInstance)) hid hle⟩

theorem SameFolk.inherits (h : w.SameFolk w') : w.Inherits id w' :=
  ⟨Nat.le_of_eq h.lastInstance.symm, fun _ hj _ _ => h.instances ▸ hj⟩

theorem inherits_deleteInstance (w : World) (owner id : Nat) :
    w.Inherits id (w.deleteInstance owner).2 := by
  rcases w.deleteInstance_cases owner with he | ⟨i, -, -, he⟩
  · rw [he]
    exact (SameFolk.refl w).inherits
  · rw [he]
    exact ⟨Nat.le_refl _, fun _ hj _ _ => List.mem_of_mem_filter hj⟩

-- An instance that is new does not take the identity of an old one.
theorem inherits_append {j : Instance} (hi : w'.instances = w.instances ++ [j])
    (hj : j.id = w.lastInstance + 1) (hl : w'.lastInstance = w.lastInstance + 1) :
    w.Inherits id w' := by
  refine ⟨by omega, fun k hk hid hle => ?_⟩
  rw [hi] at hk
  rcases List.mem_append.1 hk with hk | hk
  · exact hk
  · obtain rfl := List.mem_singleton.1 hk
    omega

theorem Affects.inherits (h : w.Affects owner w') (hne : owner ≠ id) : w.Inherits id w' := by
  cases h with
  | spares h => exact h.inherits
  | reshapes change =>
    refine ⟨Nat.le_refl _, fun j hj hid _ => ?_⟩
    obtain ⟨i, hi, rfl⟩ := List.mem_map.1 hj
    by_cases ho : i.id = owner
    · rw [if_pos ho] at hid
      exact absurd (ho.symm.trans hid) hne
    · rwa [if_neg ho]
  | places h => exact (inherits_append rfl rfl rfl).trans h.inherits
  | deletes => exact inherits_deleteInstance w owner id

theorem Affects.keeps (h : w.Affects owner w') (hi : i ∈ w.instances) (hne : owner ≠ i.id) :
    i ∈ w'.instances := by
  cases h with
  | spares h => exact h.instances ▸ hi
  | reshapes change => exact List.mem_map.2 ⟨i, hi, if_neg (Ne.symm hne)⟩
  | places h => exact h.instances ▸ List.mem_append_left _ hi
  | deletes =>
    rcases w.deleteInstance_cases owner with he | ⟨j, hj, -, he⟩
    · rwa [he]
    · rw [he]
      obtain ⟨-, hid⟩ := mem_of_instance? hj
      refine List.mem_filter.2 ⟨hi, decide_eq_true fun hij => hne ?_⟩
      exact hid.symm.trans hij.symm

theorem affects_answer {r : Request} {reply : r.Reply} (h : w.answer owner r = .ok (reply, w')) :
    w.Affects owner w' := by
  cases grants_of_answer h with
  | tells => exact .spares (.refl w)
  | reshapes change => exact .reshapes change
  | sends => exact .spares (sameFolk_queueGroup w _)
  | clones hr hm => exact .places (sameFolk_queueGroup _ _)
  | _ => exact .spares ⟨rfl, rfl, rfl⟩

end World

namespace Project

variable {p q : Project} {e : Exchange} {id : Nat} {i : Instance}

theorem affects_begin (p : Project) (h : Handle) (wait : Wait) :
    p.world.Affects h.owner (p.begin h wait).2.world := by
  have ho := p.opens_begin h wait
  generalize (p.begin h wait).2.world = w at ho
  cases ho with
  | keeps => exact .spares (.refl _)
  | sends => exact .spares (World.sameFolk_queueGroup _ _)
  | deletes => exact .deletes
  | _ => exact .spares ⟨rfl, rfl, rfl⟩

theorem affects_perform (p : Project) (e : Exchange) : p.world.SameFolk (p.perform e).world ∨
    ∃ h, e.handle? = some h ∧ p.world.Affects h.owner (p.perform e).world := by
  cases e with
  | pause h wait =>
    refine .inr ⟨h, rfl, ?_⟩
    rw [world_pause]
    exact affects_begin p h wait
  | call c =>
    cases c with
    | request h r =>
      refine .inr ⟨h, rfl, ?_⟩
      rw [perform, world_request]
      split
      · rename_i ha
        exact World.affects_answer ha
      · exact .spares (.refl _)
    | start h wait =>
      refine .inr ⟨h, rfl, ?_⟩
      rw [perform, world_start]
      exact affects_begin p h wait
    | _ => exact .inl ⟨rfl, rfl, rfl⟩

theorem keeps_perform (he : ¬ e.Through i.id) (hi : i ∈ p.world.instances) :
    i ∈ (p.perform e).world.instances := by
  rcases affects_perform p e with hf | ⟨h, hh, ha⟩
  · exact hf.instances ▸ hi
  · exact ha.keeps hi fun ho => he ⟨h, hh, ho⟩

theorem inherits_perform (he : ¬ e.Through id) : p.world.Inherits id (p.perform e).world := by
  rcases affects_perform p e with hf | ⟨h, hh, ha⟩
  · exact hf.inherits
  · exact ha.inherits fun ho => he ⟨h, hh, ho⟩

theorem inherits_performAll {exchanges : List Exchange} (he : ∀ e ∈ exchanges, ¬ e.Through id) :
    p.world.Inherits id (p.performAll exchanges).world := by
  induction exchanges generalizing p with
  | nil => exact (World.SameFolk.refl _).inherits
  | cons e exchanges ih =>
    exact (inherits_perform (he e List.mem_cons_self)).trans
      (ih fun e' hm => he e' (List.mem_cons_of_mem _ hm))

section Around

theorem inherits_stopEverything (p : Project) : p.world.Inherits id p.stopEverything.world := by
  have hlast : p.world.removeClones.SameFolk p.stopEverything.world := ⟨rfl, rfl, rfl⟩
  have hremoved : p.world.Inherits id p.world.removeClones :=
    foldl_carries (fun w => (World.SameFolk.refl w).inherits) .trans
      (fun w (i : Instance) => World.inherits_deleteInstance w i.id id) _ _
  exact hremoved.trans hlast.inherits

theorem inherits_settle (p : Project) : p.world.Inherits id p.settle.world := by
  rcases settle_cases p with hstop | ⟨groups, questions, hw⟩
  · rw [hstop]
    exact inherits_stopEverything p
  · rw [hw]
    exact World.SameFolk.inherits ⟨rfl, rfl, rfl⟩

theorem sameFolk_prepare (p : Project) : p.world.SameFolk p.prepare.world := by
  refine .trans ?_ (enlists_launchInput _).sameFolk
  rw [poll_eq]
  exact ⟨rfl, rfl, rfl⟩

theorem inherits_register (p : Project) (c : ActorClass) (kind : ActorKind) :
    p.world.Inherits id (p.register c kind).2.world := by
  unfold register
  split
  · exact (World.SameFolk.refl _).inherits
  · dsimp only
    split
    · exact ⟨Nat.le_succ _, fun _ hj _ _ => hj⟩
    · simp only [updateWorld, foldl_record_look]
      split
      · exact ⟨Nat.le_succ _, fun _ hj _ _ => hj⟩
      · exact World.inherits_append rfl rfl rfl

theorem inherits_apply (op : Operation) (p : Project) :
    p.world.Inherits id (op.apply p).world := by
  have sends (p : Project) (trigger : Trigger) : p.world.SameFolk
      (p.updateWorld fun w => (w.dispatch trigger).2).launchAll.world :=
    ((enlists_queueGroup p.world _).trans (enlists_launchAll _)).sameFolk
  cases op with
  | register c kind => exact inherits_register p c kind
  | broadcast message => exact (sends p (.message message)).inherits
  | greenFlag =>
    exact (inherits_stopEverything p).trans (sends p.stopEverything .greenFlag).inherits
  | redStop => exact inherits_stopEverything p
  | answer text =>
    simp only [Operation.apply, answerQuestion]
    split <;> exact World.SameFolk.inherits ⟨rfl, rfl, rfl⟩
  | loadAssets loader =>
    simp only [Operation.apply, loadAssets_eq, poll_eq]
    exact World.SameFolk.inherits ⟨rfl, rfl, rfl⟩
  | poll =>
    simp only [Operation.apply, poll_eq]
    exact World.SameFolk.inherits ⟨rfl, rfl, rfl⟩
  | _ => exact World.SameFolk.inherits ⟨rfl, rfl, rfl⟩

-- The rest of a turn, from one of its exchanges on.
theorem inherits_turn? {laps t : Nat} {resumed : Bool} {front back : List Exchange}
    (ht : p.turn? laps t = some (resumed, q)) (hx : p.turnExchanges laps t = front ++ back)
    (he : ∀ e ∈ back, ¬ e.Through id) :
    ((p.turnStart t).performAll front).world.Inherits id q.world := by
  have hnone (hd : (p.readiness t).1 ≠ .due) : front = [] := by
    rw [turnExchanges_of_not_due hd] at hx
    exact (List.append_eq_nil_iff.1 hx.symm).1
  cases ran_of_turn? ht with
  | resumed hthread hend =>
    rw [hx, performAll_append]
    exact ((inherits_performAll he).trans (sameFolk_leave _ _ _).inherits).trans
      (inherits_settle _)
  | passed hd =>
    rw [hnone hd, performAll, List.foldl_nil, world_turnStart, world_readiness]
    exact (World.SameFolk.refl _).inherits
  | orphaned hd =>
    rw [hnone (by simp [hd]), performAll, List.foldl_nil, world_turnStart,
      ← world_readiness p t]
    exact (sameFolk_endThread _ _).inherits

end Around

end Project

namespace World

variable {w : World} {source : CloneSource} {parent : Nat} {i : Instance} {a : Actor}

-- Named by its class, the instance to be cloned is the one that the class was registered with.
theorem source_of_resolve (hw : w.Registered) (hr : w.resolve source = .ok parent)
    (hm : w.member parent = .ok (i, a)) :
    source = .className a.name ∧ i.id = a.founder ∨ source = .member i.id := by
  obtain ⟨hi, rfl, ha, hact⟩ := hw.mem_of_member hm
  cases source with
  | className name =>
    simp only [resolve] at hr
    split at hr
    · cases hr
    · rename_i b hb
      split at hr
      · have hfounder : b.founder = i.id := Except.ok.inj hr
        have hbm := List.mem_of_find?_eq_some hb
        obtain ⟨j, hj, hjid, hjact⟩ := (hw.members b hbm b.founder).1 (hw.founders b hbm)
        obtain rfl := hw.eq_of_id hi hj (hjid.trans hfounder)
        obtain rfl := hw.eq_of_actor ha hbm (hjact.symm.trans hact.symm)
        have hname : b.name = name := by simpa using List.find?_some hb
        exact .inl ⟨by rw [hname], hjid⟩
      · cases hr
  | member id =>
    simp only [resolve] at hr
    split at hr
    · cases hr
    · split at hr
      · cases hr
        exact .inr rfl
      · cases hr

theorem startsOf_place (hw : w.Registered) (hr : w.resolve source = .ok parent)
    (hm : w.member parent = .ok (i, a)) (trigger : Trigger) :
    (w.place i a).startsOf trigger (w.lastInstance + 1) =
      (a.handlersFor trigger).map fun handler => ⟨a.id, w.lastInstance + 1, handler⟩ := by
  obtain ⟨hi, -, ha, hact⟩ := hw.mem_of_member hm
  have hnew : i.cloned (w.lastInstance + 1) ∈ (w.place i a).instances :=
    List.mem_append_right _ List.mem_cons_self
  obtain ⟨b, hb, hbm, hbid⟩ := (hw.place hr hm).member_of_mem hnew
  have hbid : b.id = a.id := hbid.trans hact.symm
  rw [actors_place] at hb
  obtain ⟨c, hc, ⟨hcid, rfl⟩ | ⟨hcid, rfl⟩⟩ := mem_updateActor hb
  · obtain rfl := hw.eq_of_actor ha hc hcid
    unfold startsOf
    simp only [Instance.cloned] at hbm
    rw [hbm]
    rfl
  · exact absurd hbid hcid

end World

namespace Moment

variable {κ : Conduct} {m : Moment} {p q : Project} {id : Nat}

-- What is exchanged on the way from a project, be it in the midst of a turn, to a later moment.
inductive Passage : Project → List Exchange → Moment → Prop where
  | here {p : Project} {ids : List Nat} : Passage p [] ⟨p, ids⟩
  | rest {p q : Project} {laps id : Nat} {ids : List Nat} {resumed : Bool}
      {front back : List Exchange} (ht : p.turn? laps id = some (resumed, q))
      (hx : p.turnExchanges laps id = front ++ back) :
      Passage ((p.turnStart id).performAll front) back ⟨q, ids⟩
  | operate {p q : Project} {exchanges : List Exchange} (h : Passage p exchanges ⟨q, []⟩)
      (op : Operation) : Passage p exchanges ⟨op.apply q, []⟩
  | frame {p q : Project} {exchanges : List Exchange} (h : Passage p exchanges ⟨q, []⟩) :
      Passage p exchanges ⟨q.prepare, q.prepare.threads.map (·.id)⟩
  | turn {p q r : Project} {exchanges : List Exchange} {laps id : Nat} {ids : List Nat}
      {resumed : Bool} (h : Passage p exchanges ⟨q, id :: ids⟩)
      (ht : q.turn? laps id = some (resumed, r)) :
      Passage p (exchanges ++ q.turnExchanges laps id) ⟨r, ids⟩

theorem Passage.inherits {exchanges : List Exchange} (h : Passage p exchanges m)
    (he : ∀ e ∈ exchanges, ¬ e.Through id) : p.world.Inherits id m.project.world := by
  induction h with
  | here => exact (World.SameFolk.refl _).inherits
  | rest ht hx => exact inherits_turn? ht hx he
  | operate h op ih => exact (ih he).trans (inherits_apply op _)
  | frame h ih => exact (ih he).trans (sameFolk_prepare _).inherits
  | turn h ht ih =>
    have hfirst := ih fun e hm => he e (List.mem_append_left _ hm)
    have hturn := inherits_turn? ht (List.nil_append _).symm fun e hm =>
      he e (List.mem_append_right _ hm)
    rw [performAll, List.foldl_nil, world_turnStart] at hturn
    exact hfirst.trans hturn

theorem Passage.unchanged {exchanges : List Exchange} (hp : p.world.Registered)
    (h : Passage p exchanges m) {i j : Instance} (hi : i ∈ p.world.instances)
    (hj : j ∈ m.project.world.instances) (hid : j.id = i.id)
    (he : ∀ e ∈ exchanges, ¬ e.Through i.id) : j = i :=
  hp.eq_of_id hi ((h.inherits he).same j hj hid (hp.allocated i hi)) hid

-- A clone as it is made: it is a copy of its parent, nothing has been noted about it, and nothing
-- runs for it but what its start is greeted with.
structure Clones (p : Project) (source : CloneSource) (i : Instance) (a : Actor) (q : Project) :
    Prop where
  source : source = .className a.name ∧ i.id = a.founder ∨ source = .member i.id
  instances : q.world.instances =
    p.world.instances ++ [⟨p.world.lastInstance + 1, i.actor, some i.id, i.figure⟩]
  unused : ∀ j ∈ p.world.instances, j.id ≠ p.world.lastInstance + 1
  unwatched : ∀ shown ∈ q.world.watchers, shown.owner ≠ p.world.lastInstance + 1
  gain : q.world.gains.lookup (q.world.busOf (p.world.lastInstance + 1)) = none ∧
    q.world.volume (p.world.lastInstance + 1) = 1.0
  threads : ∀ t ∈ q.threads, t.owner ≠ p.world.lastInstance + 1
  spawns : q.world.spawns = p.world.spawns ++ (a.handlersFor .startAsClone).map fun handler =>
    ⟨p.world.lastGroup + 1, a.id, p.world.lastInstance + 1, handler⟩
  unqueued : ∀ s ∈ p.world.spawns, s.owner ≠ p.world.lastInstance + 1

theorem Midway.clones (hq : Midway κ q) {source : CloneSource} {parent : Nat}
    (hr : q.world.resolve source = .ok parent) (h : Handle) :
    ∃ i a q', q.world.member parent = .ok (i, a) ∧
      q.answer (.request h (.createClone source)) = (.ok (q.world.lastInstance + 1), q') ∧
      Clones q source i a q' := by
  obtain ⟨hw, howned, hthreads⟩ := hq.elder
  obtain ⟨hwatchers, hgains⟩ := hq.unnoted
  obtain ⟨i, a, front, back, w', hm, -, -, hclone⟩ := createClone_of_resolve hw hr
  obtain ⟨parent', i', a', hr', hm', -, -, rfl⟩ := World.createClone_eq_ok hclone
  rw [hr] at hr'
  cases hr'
  rw [hm] at hm'
  cases hm'
  have hanswer : q.answer (.request h (.createClone source)) = (.ok (q.world.lastInstance + 1),
      { q with world :=
        ((q.world.place i a).dispatchTo .startAsClone (q.world.lastInstance + 1)).2 }) := by
    simp only [Project.answer, World.answer, hclone]
  have hplaced : q.world.SameNotes (q.world.place i a) := ⟨rfl, rfl⟩
  have hnotes : q.world.SameNotes
      ((q.world.place i a).dispatchTo .startAsClone (q.world.lastInstance + 1)).2 :=
    hplaced.trans (.queueGroup _ _)
  refine ⟨i, a, _, hm, hanswer, ?_⟩
  constructor
  · exact World.source_of_resolve hw hr hm
  · exact World.instances_queueGroup _ _
  · exact fun j hj hid => Nat.not_succ_le_self _ (hid ▸ hw.allocated j hj)
  · intro shown hshown hid
    rw [hnotes.watchers] at hshown
    exact Nat.not_succ_le_self _ (hid ▸ hwatchers shown hshown)
  · have hnone : ∀ w : World, w.gains = q.world.gains →
        w.gains.lookup (w.busOf (q.world.lastInstance + 1)) = none := fun w hg => by
      obtain ⟨name, hbus⟩ := w.busOf_numbered (q.world.lastInstance + 1)
      rw [hg, hbus]
      exact hgains name _ (Nat.lt_succ_self _)
    have hlookup := hnone _ hnotes.gains
    refine ⟨hlookup, ?_⟩
    rw [World.volume, Gains.get, hlookup]
    rfl
  · exact fun t ht hid => Nat.not_succ_le_self _ (hid ▸ hthreads t ht)
  · rw [World.dispatchTo, World.spawns_queueGroup, World.startsOf_place hw hr hm, List.map_map]
    rfl
  · exact fun s hs hid => Nat.not_succ_le_self _ (hid ▸ (howned.spawns s hs).1)

-- What is done through a handle leaves every other instance alone; and what is not done through
-- handles of an instance never changes it.
structure Apart (q : Project) : Prop where
  clones : ∀ {source : CloneSource} {parent : Nat} (h : Handle),
    q.world.resolve source = .ok parent → ∃ i a q', q.world.member parent = .ok (i, a) ∧
      q.answer (.request h (.createClone source)) = (.ok (q.world.lastInstance + 1), q') ∧
      Clones q source i a q' ∧
      ∀ {exchanges : List Exchange} {m : Moment} {j : Instance}, Passage q' exchanges m →
        j ∈ m.project.world.instances → (∀ e ∈ exchanges, ¬ e.Through j.id) →
          (j.id = i.id → j = i) ∧ (j.id = q.world.lastInstance + 1 →
            j = ⟨q.world.lastInstance + 1, i.actor, some i.id, i.figure⟩)
  others : ∀ {e : Exchange} {i : Instance}, i ∈ q.world.instances → ¬ e.Through i.id →
    i ∈ (q.perform e).world.instances ∧ (q.perform e).world.instance? i.id = some i
  parents : ∀ (e : Exchange), ∀ j ∈ (q.perform e).world.instances, j.id ≤ q.world.lastInstance →
    ∃ i ∈ q.world.instances, i.id = j.id ∧ i.actor = j.actor ∧ i.parent = j.parent
  later : ∀ {exchanges : List Exchange} {m : Moment} {i j : Instance}, Passage q exchanges m →
    i ∈ q.world.instances → j ∈ m.project.world.instances → j.id = i.id →
      (∀ e ∈ exchanges, ¬ e.Through i.id) → j = i

theorem Midway.clones_apart (hq : Midway κ q) : Apart q := by
  have hw := hq.elder.registered
  have hperform (e : Exchange) : Changes (.under .any) q (q.perform e) := changes_perform q e
  refine ⟨fun {source parent} h hr => ?_, fun {e i} hi he => ?_, fun e j hj hle => ?_,
    fun hp hi hj hid he => hp.unchanged hw hi hj hid he⟩
  · obtain ⟨i, a, q', hm, hanswer, hclones⟩ := hq.clones hr h
    refine ⟨i, a, q', hm, hanswer, hclones, fun {exchanges m j} hp hj he => ?_⟩
    have hq' : q.perform (.call (.request h (.createClone source))) = q' :=
      congrArg Prod.snd hanswer
    have hw' : q'.world.Registered := hq' ▸ (hperform _).registered hw
    have hi : i ∈ q'.world.instances := by
      rw [hclones.instances]
      exact List.mem_append_left _ (hw.mem_of_member hm).1
    have hnew : ⟨q.world.lastInstance + 1, i.actor, some i.id, i.figure⟩ ∈ q'.world.instances := by
      rw [hclones.instances]
      exact List.mem_append_right _ List.mem_cons_self
    exact ⟨fun hid => hp.unchanged hw' hi hj hid (hid ▸ he),
      fun hid => hp.unchanged hw' hnew hj hid (hid ▸ he)⟩
  · have hkept := keeps_perform he hi
    exact ⟨hkept, ((hperform e).registered hw).instance?_of_mem hkept⟩
  · exact (hperform e).precedes.survivors j hj hle

theorem genuine_haunted (message : String) :
    Genuine .confined ⟨haunted message fun _ => .finish, []⟩ := by
  have hnew : Project.new {} = .ok {} := rfl
  have hstart : Start .confined {} := .new hnew {} fun h _ _ => trivial
  have hregister : (Operation.register (ghost fun _ => .finish) .sprite).Keeps .confined := by
    intro d hd h
    simp only [ghost, List.mem_cons, List.not_mem_nil, or_false] at hd
    rcases hd with rfl | rfl | rfl
    · exact fun _ => trivial
    · exact ⟨fun k hk => (Option.some.inj hk).symm, fun _ => trivial⟩
    · trivial
  have hnone (n : Note) : ¬ ({} : Project).world.Notes n := by
    cases n with
    | watcher shown => exact List.not_mem_nil
    | gain bus =>
      rintro ⟨_, hg⟩
      exact List.not_mem_nil hg
  have hsend : (Operation.broadcast message).Keeps .confined := trivial
  exact ((Genuine.start hstart hnone).operate hregister).operate hsend

-- The founder has just been cloned, and its clone could be.
theorem ghosts_apart :
    let p := (haunted "boo" fun _ => .finish).prepare
    let q := (p.turnStart 1).performAll (p.turnExchanges 1 1)
    q.world.resolve (.member 2) = .ok 2 ∧ Midway .confined q ∧ Apart q := by
  intro p q
  have hp : Genuine .confined ⟨p, [1]⟩ := (genuine_haunted "boo").frame
  have hq : Midway .confined q :=
    .turn hp (genuine_turnExchanges hp.reachable.obeys hp.reachable.elder 1 1)
  exact ⟨rfl, hq, Midway.clones_apart hq⟩

end Moment

end SpriteStage

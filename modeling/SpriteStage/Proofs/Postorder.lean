import SpriteStage.Proofs.Descent

namespace SpriteStage

open Project

namespace World

variable {w w' : World} {births : List Birth}

-- The instances of each actor, against all that were ever made of it.
structure Drawn (w : World) (births : List Birth) : Prop where
  registered : w.Registered
  chronological : Chronological births
  issued : ∀ b ∈ births, b.id ≤ w.lastInstance
  founders : ∀ a ∈ w.actors, ∀ b ∈ births, b.id ≠ a.founder
  instances : ∀ a ∈ w.actors, a.instances = (family a.founder births).postorder.filter w.isLive
  rooted : ∀ b ∈ births, ∃ a ∈ w.actors, b.id ∈ (family a.founder births).postorder

theorem isLive_iff {id : Nat} : w.isLive id = true ↔ ∃ i ∈ w.instances, i.id = id := by
  simp only [isLive, List.any_eq_true, beq_iff_eq]

theorem isLive_append {j : Instance} {n : Nat} (h : w'.instances = w.instances ++ [j])
    (hj : j.id = n) (id : Nat) : w'.isLive id = (w.isLive id || n == id) := by
  simp only [isLive, h, hj, List.any_append, List.any_cons, List.any_nil, Bool.or_false]

theorem Registered.founder_le (hw : w.Registered) {a : Actor} (ha : a ∈ w.actors) :
    a.founder ≤ w.lastInstance := by
  obtain ⟨i, hi, hid, -⟩ := (hw.members a ha _).1 (hw.founders a ha)
  exact hid ▸ hw.allocated i hi

namespace Drawn

theorem of_blank (hw : w.Blank) : w.Drawn [] := by
  refine ⟨.of_blank hw, ⟨.nil, nofun⟩, nofun, ?_, ?_, nofun⟩
  · simp [hw.actors]
  · simp [hw.actors]

theorem nodup (hd : w.Drawn births) {a : Actor} (ha : a ∈ w.actors) :
    (family a.founder births).postorder.Nodup :=
  (family_sound hd.chronological (hd.founders a ha)).1

theorem le_of_mem (hd : w.Drawn births) {a : Actor} (ha : a ∈ w.actors) {x : Nat}
    (hx : x ∈ (family a.founder births).postorder) : x ≤ w.lastInstance := by
  rcases (family_sound hd.chronological (hd.founders a ha)).2 x hx with rfl | ⟨b, hb, rfl⟩
  · exact hd.registered.founder_le ha
  · exact hd.issued b hb

theorem keep (hd : w.Drawn births) (hw : w'.Registered) (hl : w.lastInstance ≤ w'.lastInstance)
    (hlive : ∀ id, w'.isLive id = true → w.isLive id = true)
    (hold : ∀ a' ∈ w'.actors, ∃ a ∈ w.actors, a'.founder = a.founder ∧
      a'.instances = a.instances.filter w'.isLive)
    (hnew : ∀ a ∈ w.actors, ∃ a' ∈ w'.actors, a'.founder = a.founder) : w'.Drawn births := by
  refine ⟨hw, hd.chronological, fun b hb => Nat.le_trans (hd.issued b hb) hl, fun a' ha' => ?_,
    fun a' ha' => ?_, fun b hb => ?_⟩
  · obtain ⟨a, ha, hf, -⟩ := hold a' ha'
    rw [hf]
    exact hd.founders a ha
  · obtain ⟨a, ha, hf, hi⟩ := hold a' ha'
    rw [hi, hf, hd.instances a ha, List.filter_filter]
    refine List.filter_congr fun x _ => ?_
    cases hx : w'.isLive x with
    | false => rfl
    | true => rw [hlive x hx, Bool.and_true]
  · obtain ⟨a, ha, hm⟩ := hd.rooted b hb
    obtain ⟨a', ha', hf⟩ := hnew a ha
    exact ⟨a', ha', hf ▸ hm⟩

theorem filter_isLive (hd : w.Drawn births) {a : Actor} (ha : a ∈ w.actors) :
    a.instances.filter w.isLive = a.instances := by
  refine List.filter_eq_self.2 fun id hid => ?_
  obtain ⟨i, hi, rfl, -⟩ := (hd.registered.members a ha id).1 hid
  exact isLive_iff.2 ⟨i, hi, rfl⟩

theorem same (hd : w.Drawn births) (hw : w'.Registered) (hl : w.lastInstance ≤ w'.lastInstance)
    (ha : w'.actors = w.actors) (hi : w'.instances.map (·.id) = w.instances.map (·.id)) :
    w'.Drawn births := by
  have hlive : w'.isLive = w.isLive := by
    funext id
    have hmem : w'.isLive id = true ↔ w.isLive id = true := by
      have hids : id ∈ w'.instances.map (·.id) ↔ id ∈ w.instances.map (·.id) := by rw [hi]
      simpa only [isLive_iff, List.mem_map] using hids
    exact Bool.eq_iff_iff.2 hmem
  refine hd.keep hw hl (fun id h => hlive ▸ h) (fun a h => ?_) fun a h => ⟨a, ha ▸ h, rfl⟩
  rw [ha] at h
  exact ⟨a, h, rfl, by rw [hlive, hd.filter_isLive h]⟩

theorem sameFolk (hd : w.Drawn births) (h : w.SameFolk w') : w'.Drawn births :=
  hd.same (hd.registered.same h) (Nat.le_of_eq h.lastInstance.symm) h.actors
    (congrArg _ h.instances)

theorem allocate (hd : w.Drawn births) :
    { w with lastInstance := w.lastInstance + 1 }.Drawn births :=
  hd.same hd.registered.allocate (Nat.le_succ _) rfl rfl

theorem remove (hd : w.Drawn births) {i : Instance} (hi : w.instance? i.id = some i)
    (hc : i.isClone = true) : (w.remove i).Drawn births := by
  have hmem := (mem_of_instance? hi).1
  have hw := hd.registered.remove hi hc
  have hlive : ∀ id, (w.remove i).isLive id = (w.isLive id && decide (id ≠ i.id)) := fun id => by
    refine Bool.eq_iff_iff.2 ?_
    rw [Bool.and_eq_true, decide_eq_true_eq, isLive_iff, isLive_iff]
    constructor
    · rintro ⟨j, hj, rfl⟩
      obtain ⟨hj, hne⟩ := List.mem_filter.1 hj
      exact ⟨⟨j, hj, rfl⟩, by simpa using hne⟩
    · rintro ⟨⟨j, hj, rfl⟩, hne⟩
      exact ⟨j, List.mem_filter.2 ⟨hj, decide_eq_true hne⟩, rfl⟩
  refine hd.keep hw (Nat.le_refl _) (fun id h => ?_) (fun a' ha' => ?_) fun a ha => ?_
  · rw [hlive, Bool.and_eq_true] at h
    exact h.1
  · obtain ⟨a, ha, -, -, hf, hids⟩ := hd.registered.mem_actors_remove hmem ha'
    refine ⟨a, ha, hf, ?_⟩
    rw [hids, ← hd.filter_isLive ha, List.filter_filter, List.filter_filter]
    refine List.filter_congr fun x _ => ?_
    rw [hlive, Bool.and_right_comm, Bool.and_self, Bool.and_comm]
  · exact ⟨_, List.mem_map.2 ⟨a, ha, rfl⟩, by split <;> rfl⟩

-- An instance stands in the family of its own actor, and in no other.
theorem mem_family_iff (hd : w.Drawn births) {i : Instance} {a : Actor} (hi : i ∈ w.instances)
    (ha : a ∈ w.actors) : i.id ∈ (family a.founder births).postorder ↔ i.actor = a.id := by
  have hlive : w.isLive i.id = true := isLive_iff.2 ⟨i, hi, rfl⟩
  constructor
  · intro hmem
    have hin : i.id ∈ a.instances := by
      rw [hd.instances a ha]
      exact List.mem_filter.2 ⟨hmem, hlive⟩
    obtain ⟨j, hj, hid, hact⟩ := (hd.registered.members a ha i.id).1 hin
    obtain rfl := hd.registered.eq_of_id hi hj hid
    exact hact
  · intro hact
    have hin : i.id ∈ a.instances := (hd.registered.members a ha i.id).2 ⟨i, hi, rfl, hact⟩
    rw [hd.instances a ha] at hin
    exact List.mem_of_mem_filter hin

-- A number that has just been given out is in nobody's family yet.
theorem filter_fresh (hd : w.Drawn births)
    (hlive : ∀ id, w'.isLive id = (w.isLive id || w.lastInstance + 1 == id)) {a : Actor}
    (ha : a ∈ w.actors) : (family a.founder births).postorder.filter w'.isLive = a.instances := by
  rw [hd.instances a ha]
  refine List.filter_congr fun x hx => ?_
  have hne : w.lastInstance + 1 ≠ x := Nat.ne_of_gt (Nat.lt_succ_of_le (hd.le_of_mem ha hx))
  rw [hlive, beq_eq_false_iff_ne.2 hne, Bool.or_false]

section Place

variable {i : Instance} {a : Actor}

-- A clone comes right before its parent among all that were ever made, and so among the live ones.
theorem instances_place (hd : w.Drawn births) (hi : i ∈ w.instances) (ha : a ∈ w.actors)
    (hact : i.actor = a.id) {b : Actor} (hb : b ∈ (w.place i a).actors) :
    b.instances = (family b.founder (births ++ [⟨i.id, w.lastInstance + 1⟩])).postorder.filter
      (w.place i a).isLive := by
  have hlive : ∀ id, (w.place i a).isLive id = (w.isLive id || w.lastInstance + 1 == id) :=
    isLive_append rfl rfl
  obtain ⟨c, hc, ⟨hid, rfl⟩ | ⟨hid, rfl⟩⟩ := mem_updateActor hb
  · obtain rfl := hd.registered.eq_of_actor ha hc hid
    have hfamily := (hd.mem_family_iff hi hc).2 hact
    dsimp only
    rw [postorder_append (hd.nodup hc), if_pos hfamily, filter_insertBefore hfamily ?_ ?_,
      hd.filter_fresh hlive hc]
    · rw [hlive, isLive_iff.2 ⟨i, hi, rfl⟩, Bool.true_or]
    · rw [hlive, beq_self_eq_true, Bool.or_true]
  · have hno : i.id ∉ (family b.founder births).postorder := fun hmem =>
      hid (((hd.mem_family_iff hi hc).1 hmem).symm.trans hact)
    rw [postorder_append (hd.nodup hc), if_neg hno, hd.filter_fresh hlive hc]

theorem rooted_place (hd : w.Drawn births) (hi : i ∈ w.instances) (ha : a ∈ w.actors)
    (hact : i.actor = a.id) {b : Birth} (hb : b ∈ births ++ [⟨i.id, w.lastInstance + 1⟩]) :
    ∃ a' ∈ (w.place i a).actors,
      b.id ∈ (family a'.founder (births ++ [⟨i.id, w.lastInstance + 1⟩])).postorder := by
  have hkept : ∀ c ∈ w.actors, ∃ c' ∈ (w.place i a).actors, c'.founder = c.founder := fun c hc =>
    ⟨_, List.mem_map.2 ⟨c, hc, rfl⟩, by split <;> rfl⟩
  rcases List.mem_append.1 hb with hb | hb
  · obtain ⟨c, hc, hx⟩ := hd.rooted b hb
    obtain ⟨c', hc', hf⟩ := hkept c hc
    exact ⟨c', hc', hf ▸ mem_postorder_append (hd.nodup hc) hx⟩
  · obtain rfl := List.mem_singleton.1 hb
    obtain ⟨a', ha', hf⟩ := hkept a ha
    refine ⟨a', ha', ?_⟩
    rw [hf, postorder_append (hd.nodup ha), if_pos ((hd.mem_family_iff hi ha).2 hact)]
    exact mem_insertBefore.2 (.inl rfl)

theorem place (hd : w.Drawn births) {source : CloneSource} {parent : Nat}
    (hr : w.resolve source = .ok parent) (hm : w.member parent = .ok (i, a)) :
    (w.place i a).Drawn (births ++ [⟨i.id, w.lastInstance + 1⟩]) := by
  have hw := hd.registered
  obtain ⟨hi, -, ha, hact⟩ := hw.mem_of_member hm
  have hid : i.id ≤ w.lastInstance := hw.allocated i hi
  refine ⟨hw.place hr hm, ?_, fun b hb => ?_, fun b hb c hc => ?_,
    fun b hb => hd.instances_place hi ha hact.symm hb,
    fun b hb => hd.rooted_place hi ha hact.symm hb⟩
  · exact hd.chronological.append (fun c hc => Nat.lt_succ_of_le (hd.issued c hc))
      (Nat.lt_succ_of_le hid)
  · rcases List.mem_append.1 hb with hb | hb
    · exact Nat.le_succ_of_le (hd.issued b hb)
    · obtain rfl := List.mem_singleton.1 hb
      exact Nat.le_refl _
  · have hold : ∃ b' ∈ w.actors, b.founder = b'.founder := by
      obtain ⟨b', hb', ⟨-, rfl⟩ | ⟨-, rfl⟩⟩ := mem_updateActor hb
      · exact ⟨b', hb', rfl⟩
      · exact ⟨_, hb', rfl⟩
    obtain ⟨b', hb', hf⟩ := hold
    rw [hf]
    rcases List.mem_append.1 hc with hc | hc
    · exact hd.founders b' hb' c hc
    · obtain rfl := List.mem_singleton.1 hc
      exact Nat.ne_of_gt (Nat.lt_succ_of_le (hw.founder_le hb'))

end Place

theorem enrol (hd : w.Drawn births) {c : ActorClass} {kind : ActorKind}
    {groups : List HandlerGroup} (figure : Figure) (hr : Project.refusal? w c kind = none) :
    (w.enrol c groups figure).Drawn births := by
  have hw := hd.registered
  have hlive : ∀ id, (w.enrol c groups figure).isLive id =
      (w.isLive id || w.lastInstance + 1 == id) := isLive_append rfl rfl
  have halone : (family (w.lastInstance + 1) births).postorder = [w.lastInstance + 1] := by
    rw [family_of_childless fun b hb => ?_]
    · rfl
    · have hlt := hd.chronological.older b hb
      have hle := hd.issued b hb
      omega
  refine ⟨hw.enrol figure hr, hd.chronological, fun b hb => Nat.le_succ_of_le (hd.issued b hb),
    fun a ha b hb => ?_, fun a ha => ?_, fun b hb => ?_⟩
  · rcases List.mem_append.1 ha with ha | ha
    · exact hd.founders a ha b hb
    · obtain rfl := List.mem_singleton.1 ha
      exact Nat.ne_of_lt (Nat.lt_succ_of_le (hd.issued b hb))
  · rcases List.mem_append.1 ha with ha | ha
    · exact (hd.filter_fresh hlive ha).symm
    · obtain rfl := List.mem_singleton.1 ha
      have hself : (w.enrol c groups figure).isLive (w.lastInstance + 1) = true := by
        rw [hlive, beq_self_eq_true, Bool.or_true]
      dsimp only [actorOf]
      rw [halone, List.filter_cons_of_pos hself, List.filter_nil]
  · obtain ⟨a, ha, hm⟩ := hd.rooted b hb
    exact ⟨a, List.mem_append_left _ ha, hm⟩

theorem census (hd : w.Drawn births) (h : w.Census w') (hl : w'.lastInstance = w.lastInstance) :
    w'.Drawn births := by
  have hno : w.lastInstance + 1 ≠ w.lastInstance := Nat.succ_ne_self _
  cases h with
  | same h => exact hd.sameFolk h
  | reshaped id change =>
    exact hd.same (hd.registered.reshape id change) (Nat.le_refl _) rfl (Registered.ids_reshape w id change)
  | removed hi hc => exact hd.remove hi hc
  | placed hr hm => exact absurd hl hno
  | allocated => exact absurd hl hno
  | enrolled figure hr => exact absurd hl hno

end Drawn

end World

def Order.births : Order → World → List Birth
  | .clone source, w =>
    match w.resolve source, w.createClone source with
    | .ok parent, .ok (id, _) => [⟨parent, id⟩]
    | _, _ => []
  | _, _ => []

def Exchange.births (e : Exchange) (p : Project) : List Birth :=
  e.order?.elim [] (·.births p.world)

section Births

variable {σ : Scope} {κ : Conduct} {p q : Project} {births : List Birth}

theorem Project.Changes.drawn (h : Changes σ p q) (hd : p.world.Drawn births)
    (hl : q.world.lastInstance = p.world.lastInstance) : q.world.Drawn births := by
  induction h with
  | refl => exact hd
  | tail hpr hq ih =>
    have hfirst := (Changes.precedes hpr).lastInstance
    have hlast := hq.census.precedes.lastInstance
    have hmid := Nat.le_antisymm (hl ▸ hlast) hfirst
    exact (ih hmid).census hq.census (hl.trans hmid.symm)

theorem World.Drawn.order {w : World} (hd : w.Drawn births) (o : Order) :
    (o.apply w).Drawn (births ++ o.births w) := by
  cases o with
  | send trigger => exact (List.append_nil births).symm ▸ hd.sameFolk (sameFolk_queueGroup _ _)
  | click place =>
    refine (List.append_nil births).symm ▸ ?_
    simp only [Order.apply, Project.click]
    split <;> exact hd.sameFolk (sameFolk_queueGroup _ _)
  | clone source =>
    simp only [Order.apply, Order.births]
    cases hc : w.createClone source with
    | error e =>
      cases w.resolve source <;> exact (List.append_nil births).symm ▸ hd
    | ok made =>
      obtain ⟨id, w'⟩ := made
      obtain ⟨parent, i, a, hr, hm, rfl, rfl, rfl⟩ := World.createClone_eq_ok hc
      simp only [hr]
      exact (hd.place hr hm).sameFolk (World.sameFolk_queueGroup _ _)

theorem World.Drawn.perform (hd : p.world.Drawn births) (e : Exchange) :
    (p.perform e).world.Drawn (births ++ e.births p) := by
  cases ho : e.order? with
  | none =>
    rw [Exchange.births, ho, Option.elim_none, List.append_nil]
    have hc : Changes (anything True) p (p.perform e) := changes_perform p e
    exact hc.drawn hd (steady_of_order ho).lastInstance
  | some o =>
    rw [Exchange.births, ho, Option.elim_some, world_of_order ho]
    exact hd.order o

theorem World.Drawn.performAll (hd : p.world.Drawn births) (exchanges : List Exchange) :
    (p.performAll exchanges).world.Drawn (births ++ gather Exchange.births exchanges p) := by
  induction exchanges generalizing p births with
  | nil => exact (List.append_nil births).symm ▸ hd
  | cons e exchanges ih =>
    rw [gather, ← List.append_assoc]
    exact ih (hd.perform e)

end Births

namespace Project

variable {p q : Project} {births : List Birth}

theorem lastInstance_stopEverything (p : Project) :
    p.stopEverything.world.lastInstance = p.world.lastInstance :=
  foldl_keeps World.lastInstance
    (fun w (i : Instance) => (World.steady_deleteInstance w i.id).lastInstance) _ _

theorem lastInstance_settle (p : Project) : p.settle.world.lastInstance = p.world.lastInstance := by
  rcases settle_cases p with hstop | ⟨groups, questions, hw⟩
  · rw [hstop]
    exact lastInstance_stopEverything p
  · rw [hw]

theorem lastInstance_poll (p : Project) : p.poll.world.lastInstance = p.world.lastInstance := by
  rw [poll_eq]

theorem lastInstance_loadAssets (p : Project) (loader : Loader) :
    (p.loadAssets loader).world.lastInstance = p.world.lastInstance := by
  rw [loadAssets_eq, poll_eq]

theorem lastInstance_prepare (p : Project) : p.prepare.world.lastInstance = p.world.lastInstance :=
  (enlists_launchInput _).sameFolk.lastInstance.trans
    (lastInstance_poll { p with frame := p.frame + 1 })

theorem lastInstance_apply {op : Operation} (p : Project)
    (hr : ∀ c kind, op ≠ .register c kind) :
    (op.apply p).world.lastInstance = p.world.lastInstance := by
  cases op with
  | register c kind => exact absurd rfl (hr c kind)
  | broadcast message =>
    exact ((enlists_queueGroup p.world _).trans (enlists_launchAll _)).sameFolk.lastInstance
  | greenFlag =>
    refine .trans ?_ (lastInstance_stopEverything p)
    exact ((enlists_queueGroup p.stopEverything.world _).trans
      (enlists_launchAll _)).sameFolk.lastInstance
  | redStop => exact lastInstance_stopEverything p
  | answer text =>
    simp only [Operation.apply, answerQuestion]
    split <;> rfl
  | loadAssets loader => exact lastInstance_loadAssets p loader
  | poll => exact lastInstance_poll p
  | _ => rfl

theorem drawn_register (hd : p.world.Drawn births) (c : ActorClass) (kind : ActorKind) :
    (p.register c kind).2.world.Drawn births := by
  unfold register
  split
  · exact hd
  · rename_i hr
    dsimp only
    split
    · exact hd.allocate
    · simp only [updateWorld, foldl_record_look]
      -- Only the looks that are recorded come between the project and the new actor.
      have hseen : ({ p.world with
          journal := ((c.init {}).1.map Entry.look).reverse ++ p.world.journal } : World).Drawn births :=
        hd.sameFolk ⟨rfl, rfl, rfl⟩
      split
      · exact hseen.allocate
      · rename_i figure _
        exact hseen.enrol figure hr

theorem drawn_apply (hd : p.world.Drawn births) (op : Operation) :
    (op.apply p).world.Drawn births := by
  by_cases hr : ∃ c kind, op = .register c kind
  · obtain ⟨c, kind, rfl⟩ := hr
    exact drawn_register hd c kind
  · have hc : Changes (.under .any) p (op.apply p) := by
      refine changes_apply ?_ ⟨fun _ => trivial, trivial⟩ p fun _ _ => trivial
      cases op <;> first | exact trivial | exact fun _ _ _ => trivial
    exact hc.drawn hd (lastInstance_apply p fun c kind he => hr ⟨c, kind, he⟩)

theorem drawn_turn {laps id : Nat} {resumed : Bool} (hd : p.world.Drawn births)
    (h : p.turn? laps id = some (resumed, q)) :
    q.world.Drawn (births ++ gather Exchange.births (p.turnExchanges laps id) (p.turnStart id)) := by
  cases ran_of_turn? h with
  | passed hr =>
    rw [turnExchanges_of_not_due hr, gather, List.append_nil, world_readiness]
    exact hd
  | orphaned hr =>
    rw [turnExchanges_of_not_due (by simp [hr]), gather, List.append_nil]
    have hready : (p.readiness id).2.world.Drawn births := by
      rw [world_readiness]
      exact hd
    exact hready.sameFolk (sameFolk_endThread _ id)
  | resumed ht he =>
    rename_i t r
    have hstart : (p.turnStart id).world.Drawn births := by
      rw [world_turnStart]
      exact hd
    have hleft := (hstart.performAll (p.turnExchanges laps id)).sameFolk (sameFolk_leave _ t r)
    exact (changes_settle (σ := .under .any) fun _ _ => trivial).drawn hleft (lastInstance_settle _)

end Project

namespace Moment

variable {κ : Conduct} {m : Moment} {births : List Birth}

-- A history, calls made from outside the threads included, and the clones made in it.
inductive Chronicle (κ : Conduct) : Moment → List Birth → Prop where
  | start {p : Project} (h : Start κ p) : Chronicle κ ⟨p, []⟩ []
  | operate {p : Project} {op : Operation} {births : List Birth} (h : op.Keeps κ)
      (hc : Chronicle κ ⟨p, []⟩ births) : Chronicle κ ⟨op.apply p, []⟩ births
  | frame {p : Project} {births : List Birth} (hc : Chronicle κ ⟨p, []⟩ births) :
      Chronicle κ ⟨p.prepare, p.prepare.threads.map (·.id)⟩ births
  | turn {laps id : Nat} {ids : List Nat} {resumed : Bool} {p q : Project} {births : List Birth}
      (h : p.turn? laps id = some (resumed, q)) (hc : Chronicle κ ⟨p, id :: ids⟩ births) :
      Chronicle κ ⟨q, ids⟩
        (births ++ gather Exchange.births (p.turnExchanges laps id) (p.turnStart id))
  | outside {p : Project} {ids : List Nat} {births : List Birth} (c : Call)
      (hc : Chronicle κ ⟨p, ids⟩ births) :
      Chronicle κ ⟨(p.answer c).2, ids⟩ (births ++ Exchange.births (.call c) p)

theorem Reachable.chronicle (hm : Reachable κ m) : ∃ births, Chronicle κ m births := by
  refine hm.induction (motive := fun m => ∃ births, Chronicle κ m births)
    (fun h => ⟨[], .start h⟩) fun _ hs ih => ?_
  obtain ⟨births, hc⟩ := ih
  cases hs with
  | operate h => exact ⟨_, .operate h hc⟩
  | frame => exact ⟨_, .frame hc⟩
  | turn h => exact ⟨_, .turn h hc⟩

theorem Start.drawn {p : Project} (h : Start κ p) : p.world.Drawn [] := by
  cases h with
  | new h bus hl => exact (World.Drawn.of_blank (blank_of_new h).world).sameFolk ⟨rfl, rfl, rfl⟩
  | script h hl hj =>
    exact load_invariant (I := fun p => p.world.Drawn []) (fun p _ hp _ => .of_blank hp.world)
      (fun p c kind _ hp => drawn_register hp c kind) h

theorem Chronicle.drawn (hc : Chronicle κ m births) : m.project.world.Drawn births := by
  induction hc with
  | start h => exact h.drawn
  | operate h hc ih => exact drawn_apply ih _
  | frame hc ih =>
    exact (changes_prepare (σ := .under .any) trivial _).drawn ih (lastInstance_prepare _)
  | turn h hc ih => exact drawn_turn ih h
  | outside c hc ih => exact ih.perform (.call c)

end Moment

-- What the drawing order of the instances has to do with how they were made.
structure World.Postordered (w : World) (births : List Birth) : Prop where
  chronological : Chronological births
  instances : ∀ a ∈ w.actors, a.instances = (family a.founder births).postorder.filter w.isLive
  rooted : ∀ b ∈ births, ∃ a ∈ w.actors, b.id ∈ (family a.founder births).postorder
  ancestors : ∀ a ∈ w.actors, ∀ x ∈ a.instances, ∀ y ∈ a.instances, Descends births x y →
    [x, y].Sublist a.instances
  founders : ∀ a ∈ w.actors, ∃ front, a.instances = front ++ [a.founder]
  newborn : ∀ {source : CloneSource} {id : Nat} {w' : World}, w.createClone source = .ok (id, w') →
    ∃ parent, w.resolve source = .ok parent ∧ ∃ a ∈ w'.actors, ∃ front back,
      a.instances = front ++ id :: parent :: back

theorem World.Drawn.postordered {w : World} {births : List Birth} (hd : w.Drawn births) :
    w.Postordered births where
  chronological := hd.chronological
  instances := hd.instances
  rooted := hd.rooted
  ancestors a ha x hx y hy hxy := by
    rw [hd.instances a ha] at hx hy ⊢
    obtain ⟨-, hxlive⟩ := List.mem_filter.1 hx
    obtain ⟨hymem, hylive⟩ := List.mem_filter.1 hy
    have hs := (ancestor_after hd.chronological (hd.founders a ha) hxy hymem).filter w.isLive
    rwa [List.filter_cons_of_pos hxlive, List.filter_cons_of_pos hylive, List.filter_nil] at hs
  founders a ha := by
    obtain ⟨front, hf⟩ := postorder_family a.founder births
    have hin := hd.registered.founders a ha
    rw [hd.instances a ha] at hin ⊢
    rw [hf, List.filter_append, List.filter_cons_of_pos (List.mem_filter.1 hin).2]
    exact ⟨_, rfl⟩
  newborn {source id w'} h := by
    obtain ⟨parent, i, a, hr, hm, rfl, rfl, rfl⟩ := createClone_eq_ok h
    obtain ⟨hi, -, ha, hact⟩ := hd.registered.mem_of_member hm
    have hin : i.id ∈ a.instances := (hd.registered.members a ha i.id).2 ⟨i, hi, rfl, hact.symm⟩
    obtain ⟨front, back, -, hins⟩ := insertBefore_mem (n := w.lastInstance + 1) hin
    refine ⟨i.id, hr, { a with instances := insertBefore i.id (w.lastInstance + 1) a.instances }, ?_,
      front, back, hins⟩
    rw [dispatchTo, (sameFolk_queueGroup _ _).actors, actors_place]
    exact List.mem_map.2 ⟨a, ha, if_pos rfl⟩

namespace Moment

-- The same holds in the midst of a turn, whatever is done from there on.
theorem drawn_in_postorder {κ : Conduct} :
    (∀ {m : Moment}, Reachable κ m → ∃ births, Chronicle κ m births) ∧
      ∀ {m : Moment} {births : List Birth}, Chronicle κ m births →
        ∀ {start : Project}, start.world = m.project.world → ∀ exchanges : List Exchange,
          (start.performAll exchanges).world.Postordered
            (births ++ gather Exchange.births exchanges start) := by
  refine ⟨fun hm => hm.chronicle, fun {m births} hc {start} hs exchanges => ?_⟩
  have hd : start.world.Drawn births := hs ▸ hc.drawn
  exact (hd.performAll exchanges).postordered

-- The founder is cloned twice and the first clone once. That one goes then; its own clone stays
-- where it is.
theorem haunted_drawn :
    let p := haunted "boo" fun _ => .finish
    let exchanges : List Exchange := [
      .call (.request ⟨1, 1⟩ (.createClone (.member 1))),
      .call (.request ⟨1, 1⟩ (.createClone (.member 2))),
      .call (.request ⟨1, 1⟩ (.createClone (.member 1))),
      .call (.start ⟨1, 2⟩ .delete)]
    (p.performAll exchanges).world.actors.map (·.instances) = [[3, 4, 1]] ∧
      (family 1 [⟨1, 2⟩, ⟨2, 3⟩, ⟨1, 4⟩]).postorder = [3, 2, 4, 1] ∧
        (p.performAll exchanges).world.Postordered [⟨1, 2⟩, ⟨2, 3⟩, ⟨1, 4⟩] := by
  intro p exchanges
  have hnew : Project.new {} = .ok {} := rfl
  have hstart : Chronicle .any ⟨{}, []⟩ [] := .start (.new hnew {} fun _ _ _ => trivial)
  have hregister : Chronicle .any
      ⟨(Operation.register (ghost fun _ => .finish) .sprite).apply {}, []⟩ [] :=
    .operate (fun _ _ _ => trivial) hstart
  have hsend : ∀ {q : Project}, Chronicle .any ⟨q, []⟩ [] →
      Chronicle .any ⟨(Operation.broadcast "boo").apply q, []⟩ [] := .operate trivial
  have hp : Chronicle .any ⟨p, []⟩ [] := hsend hregister
  have hbirths : gather Exchange.births exchanges p = [⟨1, 2⟩, ⟨2, 3⟩, ⟨1, 4⟩] := by decide +kernel
  have h := drawn_in_postorder.2 hp rfl exchanges
  rw [List.nil_append, hbirths] at h
  exact ⟨by decide +kernel, rfl, h⟩

end Moment

end SpriteStage

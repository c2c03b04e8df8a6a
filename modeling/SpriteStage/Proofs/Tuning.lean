import SpriteStage.Proofs.Ordering
import SpriteStage.Proofs.Story

namespace SpriteStage

open Project

-- The gain that an instance has been given last since it came.
def tuned (id : Nat) : List Happening → Float
  | [] => 1.0
  | .tunes owner gain :: past => if owner = id then Gains.clamp gain else tuned id past
  | .arrives other :: past => if other = id then 1.0 else tuned id past
  | _ :: past => tuned id past

-- Nothing has been done through an instance before it came.
def Timely (past : List Happening) : Prop :=
  past.Pairwise fun now before => ∀ id gain, now = .arrives id → before ≠ .tunes id gain

-- Handles come with threads: nothing has been done through an instance that is yet to come, either.
structure Punctual (past : List Happening) (w : World) : Prop where
  timely : Timely past
  made : ∀ id gain, .tunes id gain ∈ past → id ≤ w.lastInstance

section Clamping

variable {gain stored : Float}

-- A gain as it is stored.
structure Clamps (gain stored : Float) : Prop where
  silent : gain.isNaN = true → stored = 0.0
  low : gain < 0.0 → stored = 0.0
  high : 1.0 < gain → stored = 1.0
  within : 0.0 ≤ gain → gain ≤ 1.0 → stored = gain
  range : 0.0 ≤ stored ∧ stored ≤ 1.0

theorem clamps_clamp (gain : Float) : Clamps gain (Gains.clamp gain) := by
  have hunit : (0.0 : Float) ≤ 1.0 := by decide +kernel
  obtain ⟨hzero, hone, hheight⟩ := float_le_iff.1 hunit
  unfold Gains.clamp
  by_cases hn : gain.isNaN = true
  · rw [if_pos hn]
    refine ⟨fun _ => rfl, fun _ => rfl, fun h => ?_, fun h => ?_, ?_, hunit⟩
    · have hnot := (float_lt_iff.1 h).2.1
      rw [hn] at hnot
      cases hnot
    · have hnot := (float_le_iff.1 h).2.1
      rw [hn] at hnot
      cases hnot
    · exact float_le_iff.2 ⟨hzero, hzero, le_refl _⟩
  · rw [if_neg hn]
    have hg : gain.isNaN = false := by simpa using hn
    by_cases hlow : gain < 0.0
    · have hbelow := (float_lt_iff.1 hlow).2.2
      rw [if_pos hlow]
      refine ⟨fun _ => rfl, fun _ => rfl, fun h => ?_, fun h => ?_,
        float_le_iff.2 ⟨hzero, hzero, le_refl _⟩, hunit⟩
      · exact absurd (hbelow.trans_le hheight) (not_lt_of_gt (float_lt_iff.1 h).2.2)
      · exact absurd hbelow (not_lt_of_ge (float_le_iff.1 h).2.2)
    · have habove : height 0.0 ≤ height gain :=
        le_of_not_gt fun h => hlow (float_lt_iff.2 ⟨hg, hzero, h⟩)
      rw [if_neg hlow]
      by_cases hhigh : gain > 1.0
      · rw [if_pos hhigh]
        refine ⟨fun h => absurd h hn, fun h => absurd h hlow, fun _ => rfl, fun _ h => ?_, hunit,
          float_le_iff.2 ⟨hone, hone, le_refl _⟩⟩
        exact absurd (float_le_iff.1 h).2.2 (not_le_of_gt (float_lt_iff.1 hhigh).2.2)
      · rw [if_neg hhigh]
        have hbelow : height gain ≤ height 1.0 :=
          le_of_not_gt fun h => hhigh (float_lt_iff.2 ⟨hone, hg, h⟩)
        exact ⟨fun h => absurd h hn, fun h => absurd h hlow, fun h => absurd h hhigh,
          fun _ _ => rfl, float_le_iff.2 ⟨hzero, hg, habove⟩, float_le_iff.2 ⟨hg, hone, hbelow⟩⟩

end Clamping

section Buses

namespace World

variable {w : World} {i j : Nat}

-- The name of a bus tells whose it is, even when one of the two instances is gone.
theorem busOf_ne (w w' : World) (h : i ≠ j) : w.busOf i ≠ w'.busOf j := fun he => by
  obtain ⟨name, hi⟩ := w.busOf_numbered i
  obtain ⟨other, hj⟩ := w'.busOf_numbered j
  rw [hi, hj] at he
  exact h (numbered_inj he)

theorem volume_setVolume (w : World) (id : Nat) (gain : Float) :
    (w.setVolume id gain).2.volume id = Gains.clamp gain :=
  w.gains.get_set (w.busOf id) gain

theorem volume_setVolume_of_ne (h : i ≠ j) (gain : Float) :
    (w.setVolume i gain).2.volume j = w.volume j := by
  have hne : w.busOf j ≠ w.busOf i := busOf_ne w w h.symm
  have hlookup :
      (w.gains.set (w.busOf i) gain).lookup (w.busOf j) = w.gains.lookup (w.busOf j) := by
    rw [Gains.set, List.lookup_cons, beq_false_of_ne hne]
    exact lookup_filter fun _ => decide_eq_true hne
  exact congrArg (·.getD 1.0) hlookup

end World

end Buses

section Gaining

variable {id : Nat} {past now news : List Happening} {w w' : World}

theorem tuned_of_arrives (hn : ∀ x ∈ news, x.Passing)
    (h : .arrives id ∈ news) : tuned id (news ++ past) = 1.0 := by
  refine read_settled (fun x hx hne past => ?_) h fun _ => if_pos rfl
  cases hn x hx with
  | leaves k => rfl
  | arrives k => exact if_neg fun hk : k = id => hne (congrArg _ hk)

theorem tuned_of_absent (hn : ∀ x ∈ news, x.Passing)
    (h : .arrives id ∉ news) : tuned id (news ++ past) = tuned id past := by
  refine read_skipped fun x hx past => ?_
  cases hn x hx with
  | leaves k => rfl
  | arrives k => exact if_neg fun hk : k = id => h (hk ▸ hx)

def Noted (past : List Happening) (w : World) : Prop :=
  ∀ (bus : String) (gain : Float), (bus, gain) ∈ w.gains →
    ∃ (name : String) (id : Nat), bus = s!"{name}-{id}" ∧ ∃ g, .tunes id g ∈ past

theorem Noted.mono (hn : Noted past w) (hg : w'.gains.Sublist w.gains) (hp : past ⊆ now) :
    Noted now w' := fun bus gain hm =>
  let ⟨name, id, hbus, g, ht⟩ := hn bus gain (hg.mem hm)
  ⟨name, id, hbus, g, hp ht⟩

theorem Noted.untuned (hn : Noted past w) (hu : ∀ gain, .tunes id gain ∉ past) :
    w.volume id = 1.0 := by
  have hnone : w.gains.lookup (w.busOf id) = none := by
    rw [List.lookup_eq_none_iff]
    rintro ⟨bus, gain⟩ hg
    by_contra hbus
    obtain rfl : w.busOf id = bus := by simpa using hbus
    obtain ⟨name, other, he, g, hm⟩ := hn _ _ hg
    obtain ⟨own, hown⟩ := w.busOf_numbered id
    rw [hown] at he
    obtain rfl := numbered_inj he
    exact hu g hm
  rw [World.volume, Gains.get, hnone]
  rfl

-- Gains are only there for what has been tuned, and those of live instances are the latest ones.
structure Voiced (past : List Happening) (w : World) : Prop where
  noted : Noted past w
  volumes : Timely past → ∀ {id : Nat}, w.isLive id = true → w.volume id = tuned id past

theorem Voiced.skip {x : Happening} (hv : Voiced past w) (hf : w.SameFolk w')
    (hg : w'.gains = w.gains) (hx : ∀ id, tuned id (x :: past) = tuned id past) :
    Voiced (x :: past) w' := by
  refine ⟨hv.noted.mono (hg ▸ .refl _) (List.subset_cons_self x past), fun ht {id} hl => ?_⟩
  rw [hx, World.volume, hg, hf.busOf]
  exact hv.volumes (List.pairwise_cons.1 ht).2 ((hf.isLive id).symm.trans hl)

theorem Voiced.tunes (hv : Voiced past w) (owner : Nat) (gain : Float) :
    Voiced (.tunes owner gain :: past) (w.setVolume owner gain).2 := by
  refine ⟨fun bus g hm => ?_, fun ht {id} hl => ?_⟩
  · rcases List.mem_cons.1 hm with he | hm
    · obtain ⟨name, hbus⟩ := w.busOf_numbered owner
      obtain ⟨rfl, -⟩ := Prod.mk.inj he
      exact ⟨name, owner, hbus, gain, List.mem_cons_self⟩
    · obtain ⟨name, id, hbus, g, hm⟩ := hv.noted _ _ (List.mem_of_mem_filter hm)
      exact ⟨name, id, hbus, g, List.mem_cons_of_mem _ hm⟩
  · by_cases ho : owner = id
    · subst ho
      exact (World.volume_setVolume w owner gain).trans (if_pos rfl).symm
    · rw [World.volume_setVolume_of_ne ho, tuned, if_neg ho]
      exact hv.volumes (List.pairwise_cons.1 ht).2 hl

-- An instance that has just come is at full volume: nothing has been done through it.
theorem Voiced.sheds (hv : Voiced past w) (hs : w.Sheds w') :
    Voiced (w.turnover w' ++ past) w' := by
  have hquiet : ∀ x ∈ w.turnover w', x.Passing := fun _ => World.passing_of_mem_turnover
  refine ⟨hv.noted.mono hs.gains (List.subset_append_right _ _), fun ht {id} hl => ?_⟩
  obtain ⟨-, hpast, hcross⟩ := List.pairwise_append.1 ht
  cases hold : w.isLive id with
  | true =>
    have habsent : .arrives id ∉ w.turnover w' := fun hm => by
      have hd := World.arrives_mem_turnover.1 hm
      rw [World.drops, hold, Bool.not_true, Bool.and_false] at hd
      cases hd
    rw [tuned_of_absent hquiet habsent, hs.volumes id hold hl]
    exact hv.volumes hpast hold
  | false =>
    have hcame : .arrives id ∈ w.turnover w' :=
      World.arrives_mem_turnover.2 (by rw [World.drops, hl, hold]; rfl)
    rw [tuned_of_arrives hquiet hcame]
    exact (hv.noted.mono hs.gains (List.Subset.refl past)).untuned fun gain hm =>
      hcross _ hcame _ hm id gain rfl rfl

theorem World.Annals.voiced (ha : w.Annals past) : Voiced past w := by
  induction ha with
  | quiet hn =>
    have hnoted : Noted [] _ := fun bus gain hg => absurd ⟨gain, hg⟩ (hn (.gain bus))
    exact ⟨hnoted, fun _ _ _ => hnoted.untuned fun _ => List.not_mem_nil⟩
  | sheds ha h ih => exact ih.sheds h
  | shows ha ih => exact ih.skip ⟨rfl, rfl, rfl⟩ rfl fun _ => rfl
  | hides ha ih => exact ih.skip ⟨rfl, rfl, rfl⟩ rfl fun _ => rfl
  | tunes ha ih => exact ih.tunes _ _

end Gaining

section Telling

def Entry.gain? : Entry → Option (String × Float)
  | .bus (.gain name value) => some (name, value)
  | _ => none

-- The gains that the mix bus has been told, the latest first.
def World.told (w : World) : List (String × Float) := w.journal.filterMap Entry.gain?

def Exchange.tells (p : Project) : Exchange → List (String × Float)
  | .call (.request h (.setVolume gain)) => [(p.world.busOf h.owner, Gains.clamp gain)]
  | .call (.record entry) => entry.gain?.toList
  | _ => []

namespace World

variable {w w' : World} {id : Nat}

theorem told_queueGroup (w : World) (starts : List Start) :
    (w.queueGroup starts).2.told = w.told := by
  obtain ⟨lastGroup, groups, spawns, hw, -⟩ := Project.world_queueGroup w starts
  rw [hw]
  rfl

theorem told_play {name : String} {performance : Nat}
    (h : w.play id name = .ok (performance, w')) : w'.told = w.told := by
  unfold play at h
  split at h
  · cases h
  · split at h
    · cases h
    · cases h
      rfl

theorem told_deleteInstance (w : World) (id : Nat) : (w.deleteInstance id).2.told = w.told := by
  rcases w.deleteInstance_cases id with he | ⟨i, -, -, he⟩ <;> rw [he]
  rfl

theorem told_of_grants {r : Request} (h : w.Grants id r w') (hp : ∀ name, r ≠ .startSound name)
    (ht : ∀ gain, r ≠ .setVolume gain) : w'.told = w.told := by
  cases h with
  | sends => exact told_queueGroup w _
  | clones hr hm => exact told_queueGroup _ _
  | plays => exact absurd rfl (hp _)
  | tunes => exact absurd rfl (ht _)
  | _ => rfl

theorem setVolume_eq (w : World) (id : Nat) (gain : Float) : w.setVolume id gain =
    (Gains.clamp gain, { w with
      gains := w.gains.set (w.busOf id) gain
      journal := .bus (.gain (w.busOf id) (Gains.clamp gain)) :: w.journal }) := by
  simp only [setVolume, Gains.get_set]
  rfl

end World

namespace Project

theorem told_begin (p : Project) (h : Handle) (wait : Wait) :
    (p.begin h wait).2.world.told = p.world.told := by
  cases wait with
  | playUntilDone name =>
    simp only [begin]
    split
    · rfl
    · rename_i hp
      exact World.told_play hp
  | broadcastAndWait message => exact World.told_queueGroup _ _
  | delete =>
    have hdelete : (p.begin h .delete).2.world = (p.world.deleteInstance h.owner).2 := by
      simp only [begin]
      split <;> rfl
    rw [hdelete]
    exact World.told_deleteInstance _ _
  | yield =>
    simp only [begin]
    split
    · rfl
    · split <;> rfl
  | seconds time =>
    simp only [begin]
    split <;> rfl
  | _ => rfl

theorem told_answer (p : Project) (h : Handle) {r : Request} (hp : ∀ name, r ≠ .startSound name)
    (ht : ∀ gain, r ≠ .setVolume gain) :
    (p.answer (.request h r)).2.world.told = p.world.told := by
  rw [world_request]
  split
  · rename_i ha
    exact World.told_of_grants (World.grants_of_answer ha) hp ht
  · rfl

theorem told_request (p : Project) (h : Handle) (r : Request) :
    (p.answer (.request h r)).2.world.told =
      (Exchange.call (.request h r)).tells p ++ p.world.told := by
  cases r with
  | setVolume gain =>
    rw [world_request]
    simp only [World.answer]
    rw [World.setVolume_eq]
    rfl
  | startSound name =>
    rw [world_request]
    simp only [World.answer]
    cases hp : p.world.play h.owner name with
    | error e => rfl
    | ok played => exact World.told_play hp
  | _ => exact told_answer p h (fun _ he => by cases he) (fun _ he => by cases he)

theorem told_perform (p : Project) (e : Exchange) :
    (p.perform e).world.told = e.tells p ++ p.world.told := by
  cases e with
  | pause h wait =>
    rw [world_pause]
    exact told_begin p h wait
  | call c =>
    cases c with
    | request h r => exact told_request p h r
    | start h wait =>
      rw [perform, world_start]
      exact told_begin p h wait
    | record entry =>
      change (entry :: p.world.journal).filterMap Entry.gain? = _
      rw [List.filterMap_cons, Exchange.tells, World.told]
      cases entry.gain? <;> rfl
    | _ => rfl

end Project

end Telling

section Handling

variable {past : List Happening} {w w' : World} {p : Project} {e : Exchange}
  {exchanges : List Exchange} {id : Nat}

-- An instance that comes has a new identity, and nothing has been done through that yet.
theorem Punctual.turnover (hp : Punctual past w) (h : w.Precedes w') :
    Punctual (w.turnover w' ++ past) w' := by
  have hquiet {id : Nat} {gain : Float} : .tunes id gain ∉ w.turnover w' := fun hm => by
    cases World.passing_of_mem_turnover hm
  refine ⟨List.pairwise_append.2 ⟨?_, hp.timely, ?_⟩, fun id gain hm => ?_⟩
  · exact List.Pairwise.imp_of_mem (fun _ hb _ id gain _ he => hquiet (he ▸ hb))
      (List.pairwise_of_forall (R := fun _ _ => True) fun _ _ => trivial)
  · rintro now hnow before hbefore id gain rfl rfl
    have hd := World.arrives_mem_turnover.1 hnow
    obtain ⟨hl, hn⟩ := Bool.and_eq_true_iff.1 hd
    obtain ⟨j, hj, rfl⟩ := World.mem_of_isLive hl
    obtain ⟨i, hi, hid, -⟩ := h.survivors j hj (hp.made _ gain hbefore)
    rw [← hid, World.isLive_of_mem hi] at hn
    cases hn
  · exact Nat.le_trans (hp.made id gain ((List.mem_append.1 hm).resolve_left hquiet))
      h.lastInstance

theorem Punctual.heeded (hp : Punctual past w)
    (he : ∀ id, e.Through id → id ≤ w.lastInstance) : Punctual (e.heeded ++ past) w := by
  have hcons {now : Happening} (ha : ∀ id, now ≠ .arrives id)
      (ht : ∀ id gain, now = .tunes id gain → id ≤ w.lastInstance) : Punctual (now :: past) w := by
    have hnever : ∀ before ∈ past, ∀ id gain, now = .arrives id → before ≠ .tunes id gain :=
      fun _ _ id _ hn => absurd hn (ha id)
    refine ⟨List.pairwise_cons.2 ⟨hnever, hp.timely⟩, fun id gain hm => ?_⟩
    rcases List.mem_cons.1 hm with hm | hm
    · exact ht id gain hm.symm
    · exact hp.made id gain hm
  unfold Exchange.heeded
  split
  · split
    · exact hcons nofun nofun
    · exact hp
  · exact hcons nofun nofun
  · rename_i h gain
    refine hcons nofun fun id g hg => ?_
    cases hg
    exact he h.owner ⟨h, rfl, rfl⟩
  · exact hp

theorem Punctual.tale (hp : Punctual past p.world) (hg : p.Genuine exchanges) :
    Punctual (p.tale exchanges ++ past) (p.performAll exchanges).world := by
  induction exchanges generalizing p past with
  | nil => exact hp
  | cons e later ih =>
    have hc : Changes (.under .any) p (p.perform e) := changes_perform p e
    have hfirst := (hp.heeded fun id hid => hg [] e later id rfl hid).turnover hc.precedes
    rw [← List.append_assoc] at hfirst
    rw [Project.tale, List.append_assoc]
    refine ih hfirst fun front e' back id hx hid => ?_
    exact hg (e :: front) e' back id (by rw [hx]; rfl) hid

theorem World.SameFolk.precedes (h : w.SameFolk w') : w.Precedes w' where
  actors := Nat.le_of_eq (congrArg List.length h.actors).symm
  names k _ := by rw [World.className, World.className, h.actors]
  lastInstance := Nat.le_of_eq h.lastInstance.symm
  survivors j hj _ := ⟨j, h.instances ▸ hj, rfl, rfl, rfl⟩

theorem Project.precedes_turn? {laps : Nat} {resumed : Bool} {q : Project}
    (ht : p.turn? laps id = some (resumed, q)) :
    ((p.turnStart id).performAll (p.turnExchanges laps id)).world.Precedes q.world := by
  cases ran_of_turn? ht with
  | resumed hthread he =>
    exact (sameFolk_leave _ _ _).precedes.trans
      (changes_settle (σ := .under .any) fun _ _ => trivial).precedes
  | passed hd =>
    rw [turnExchanges_of_not_due hd, performAll, List.foldl_nil, world_turnStart, world_readiness]
    exact .refl _
  | orphaned hd =>
    rw [turnExchanges_of_not_due (by simp [hd]), performAll, List.foldl_nil, world_turnStart,
      ← world_readiness p id]
    exact (sameFolk_endThread _ _).precedes

end Handling

namespace Moment

variable {κ : Conduct} {m : Moment}

theorem Genuine.story (hm : Genuine κ m) :
    ∃ past, Story κ past m ∧ Punctual past m.project.world := by
  induction hm with
  | start h hn =>
    exact ⟨[], .start h (.quiet (Reachable.start h).registered hn), .nil, nofun⟩
  | operate hm h ih =>
    obtain ⟨past, hs, hp⟩ := ih
    exact ⟨_, hs.operate h, hp.turnover (hm.reachable.changes_of_step (.operate h)).precedes⟩
  | frame hm ih =>
    obtain ⟨past, hs, hp⟩ := ih
    refine ⟨past, hs.frame, hp.timely, fun id gain hm' => ?_⟩
    exact Nat.le_trans (hp.made id gain hm')
      (hm.reachable.changes_of_step .frame).precedes.lastInstance
  | turn hm ht hx ih =>
    rename_i laps id ids resumed p q
    obtain ⟨past, hs, hp⟩ := ih
    refine ⟨_, hs.turn ht, ?_⟩
    have hmid := Punctual.tale ((world_turnStart p id).symm ▸ hp) hx
    rw [turnTale, List.append_assoc]
    exact hmid.turnover (precedes_turn? ht)

-- The volume of every instance is its own: what was set last through it, as the mix bus was told.
structure Attuned (past : List Happening) (q : Project) : Prop where
  buses : ∀ {i j : Nat}, i ≠ j → q.world.busOf i ≠ q.world.busOf j
  apart : ∀ {i j : Nat} (gain : Float), i ≠ j →
    (q.world.setVolume i gain).2.volume j = q.world.volume j
  latest : ∀ {h : Handle}, q.world.isLive h.owner = true →
    q.answer (.request h .volume) = (.ok (tuned h.owner past), q)
  fresh : ∀ {source : CloneSource} {parent : Nat} (h : Handle),
    q.world.resolve source = .ok parent → ∃ q',
      q.answer (.request h (.createClone source)) = (.ok (q.world.lastInstance + 1), q') ∧
      q'.world.isLive (q.world.lastInstance + 1) = true ∧
      q'.world.volume (q.world.lastInstance + 1) = 1.0
  stored : ∀ (h : Handle) (gain : Float), ∃ stored q', Clamps gain stored ∧
    q.answer (.request h (.setVolume gain)) = (.ok stored, q') ∧
    q'.world.volume h.owner = stored ∧
    q'.world.journal = .bus (.gain (q.world.busOf h.owner) stored) :: q.world.journal
  told : ∀ e : Exchange, (q.perform e).world.told = e.tells q ++ q.world.told

theorem attuned_of_voiced {past : List Happening} {q : Project} (hw : q.world.Registered)
    (hv : Voiced past q.world) (hp : Punctual past q.world) : Attuned past q := by
  refine ⟨World.busOf_ne _ _, fun gain hne => World.volume_setVolume_of_ne hne gain,
    fun {h} hl => ?_, fun {source parent} h hr => ?_, fun h gain => ?_, told_perform q⟩
  · have hvolume : q.world.volume h.owner = tuned h.owner past := hv.volumes hp.timely hl
    simp only [Project.answer, World.answer, hvolume]
  · obtain ⟨i, a, -, -, w', -, -, -, hclone⟩ := createClone_of_resolve hw hr
    obtain ⟨parent', i', a', hr', hm', -, -, rfl⟩ := World.createClone_eq_ok hclone
    have hplaced : q.world.SameNotes (q.world.place i' a') := ⟨rfl, rfl⟩
    have hnotes : q.world.SameNotes
        ((q.world.place i' a').dispatchTo .startAsClone (q.world.lastInstance + 1)).2 :=
      hplaced.trans (.queueGroup _ _)
    refine ⟨_, by simp only [Project.answer, World.answer, hclone]; rfl, ?_, ?_⟩
    · have hmade : i'.cloned (q.world.lastInstance + 1) ∈ (q.world.place i' a').instances :=
        List.mem_append_right _ List.mem_cons_self
      exact ((World.sameFolk_queueGroup _ _).isLive _).trans (World.isLive_of_mem hmade)
    · have hnoted : Noted past _ := fun bus gain hg => hv.noted bus gain (hnotes.gains ▸ hg)
      exact hnoted.untuned fun gain hm => Nat.not_succ_le_self _ (hp.made _ gain hm)
  · have hset := World.setVolume_eq q.world h.owner gain
    refine ⟨_, { q with world := (q.world.setVolume h.owner gain).2 }, clamps_clamp gain, ?_,
      World.volume_setVolume q.world h.owner gain, ?_⟩
    · simp only [Project.answer, World.answer, hset]
    · rw [hset]

theorem volumes_apart {κ : Conduct} :
    (∀ {m : Moment}, Genuine κ m → ∃ past, Story κ past m ∧ ∀ {p : Project},
      p.world = m.project.world → ∀ exchanges, p.Genuine exchanges →
        Punctual (p.tale exchanges ++ past) (p.performAll exchanges).world) ∧
    ∀ {m : Moment} {past : List Happening}, Story κ past m → ∀ {p : Project},
      p.world = m.project.world → ∀ exchanges,
        Punctual (p.tale exchanges ++ past) (p.performAll exchanges).world →
          Attuned (p.tale exchanges ++ past) (p.performAll exchanges) := by
  refine ⟨fun hm => ?_, fun {m past} hm {p} hp exchanges ht => ?_⟩
  · obtain ⟨past, hs, hpunctual⟩ := hm.story
    exact ⟨past, hs, fun hp exchanges hg => Punctual.tale (hp ▸ hpunctual) hg⟩
  · have hc : Changes (.under .any) p (p.performAll exchanges) := changes_performAll p exchanges
    exact attuned_of_voiced (hc.registered (hp ▸ hm.reachable.registered))
      (hm.annals_performAll hp exchanges).voiced ht

-- The bus of a clone of this class is called the same before and after the clone is gone.
def lost : Project :=
  (({} : Project).register { name := "gone", kind := .sprite, handlers := [] } .sprite).2

theorem lost_attuned :
    let exchanges : List Exchange := [
      .call (.request ⟨1, 1⟩ (.createClone (.member 1))),
      .call (.request ⟨1, 1⟩ (.setVolume 7.0)),
      .call (.request ⟨1, 2⟩ (.setVolume 0.5)),
      .call (.start ⟨1, 2⟩ .delete),
      .call (.request ⟨1, 2⟩ (.setVolume 0.25)),
      .call (.request ⟨1, 1⟩ (.createClone (.member 1)))]
    let past : List Happening :=
      [.arrives 3, .tunes 2 0.25, .leaves 2, .tunes 2 0.5, .tunes 1 7.0, .arrives 2, .arrives 1]
    let q := lost.performAll exchanges
    Story .any [.arrives 1] ⟨lost, []⟩ ∧ lost.tale exchanges ++ [.arrives 1] = past ∧
      Punctual past q.world ∧ Attuned past q ∧
        q.answer (.request ⟨1, 1⟩ .volume) = (.ok (1.0 : Float), q) ∧
        q.answer (.request ⟨1, 3⟩ .volume) = (.ok (1.0 : Float), q) ∧
        (lost.performAll (exchanges.take 3)).world.busOf 2 = "gone-2" ∧
        q.world.busOf 2 = "gone-2" := by
  intro exchanges past q
  have hnew : Project.new {} = .ok {} := rfl
  have hstart : Start .any {} := .new hnew {} fun _ _ _ => trivial
  have hregister : (Operation.register { name := "gone", kind := .sprite, handlers := [] }
      .sprite).Keeps .any := fun _ _ _ => trivial
  have hstory : Story .any [.arrives 1] ⟨lost, []⟩ :=
    (Story.start hstart (prologue_of_new hnew)).operate hregister
  have hpast : lost.tale exchanges ++ [.arrives 1] = past := rfl
  have hpunctual : Punctual past q.world := by
    refine ⟨by simp [Timely, past], fun id gain hm => ?_⟩
    have hlast : q.world.lastInstance = 3 := rfl
    simp only [past, List.mem_cons, Happening.tunes.injEq, reduceCtorEq, List.not_mem_nil, or_false,
      false_or] at hm
    omega
  have h := volumes_apart.2 hstory rfl exchanges (hpast ▸ hpunctual)
  rw [hpast] at h
  refine ⟨hstory, hpast, hpunctual, h, ?_, h.latest rfl, rfl, rfl⟩
  have hloud : Gains.clamp 7.0 = 1.0 := (clamps_clamp 7.0).high (by decide +kernel)
  exact hloud ▸ h.latest rfl

end Moment

end SpriteStage

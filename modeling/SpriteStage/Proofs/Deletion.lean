import SpriteStage.Proofs.Clearance
import SpriteStage.Proofs.Delivery
import SpriteStage.Proofs.Failure
import SpriteStage.Proofs.Splitting

namespace SpriteStage

open Project

namespace Project

variable {h k : Handle} {p q : Project}

theorem world_of_passes {wait : Wait} {outcome : Except CallError wait.Reply}
    (hw : p.begin h wait = (.passes outcome, q)) : q.world = p.world := by
  cases wait with
  | yield =>
    simp only [begin] at hw
    split at hw
    · cases hw
    · split at hw <;> cases hw
      rfl
  | seconds time =>
    simp only [begin] at hw
    split at hw <;> cases hw
    rfl
  | playUntilDone name =>
    simp only [begin] at hw
    split at hw <;> cases hw
    rfl
  | delete =>
    simp only [begin] at hw
    split at hw
    · rename_i hk
      cases hw
      exact deleteInstance_of_kept hk
    · cases hw
  | _ => cases hw

theorem Enlists.deleted {w w' : World} (h : Enlists w w') : w'.deleted = w.deleted := by
  obtain ⟨_, _, _, _, _, rfl⟩ := h
  rfl

theorem Change.deleted_nil {σ : Scope} (hc : Change σ p q) (hr : ∀ id, ¬ σ.removes id)
    (hd : p.world.deleted = []) : q.world.deleted = [] := by
  cases hc with
  | aside h => exact h.world.deleted.trans hd
  | dispatched trigger => exact (enlists_queueGroup _ _).deleted.trans hd
  | dispatchedTo trigger owner => exact (enlists_queueGroup _ _).deleted.trans hd
  | removed h => exact absurd h (hr _)
  | ended id => exact (deleted_endThread p id).trans hd
  | launched h => exact (enlists_launch (p.updateWorld _) _).deleted.trans hd
  | purged h => rfl
  | cleared => rfl
  | _ => exact hd

theorem deleted_answer {c : Call} (hc : c.startsWait = false) (hd : p.world.deleted = []) :
    (p.answer c).2.world.deleted = [] := by
  let σ : Scope := ⟨fun _ => True, fun _ => False, .any, True⟩
  have hs : Changes σ p (p.answer c).2 := changes_answer p c fun k wait hk => by
    subst hk
    cases hc
  generalize (p.answer c).2 = q at hs
  induction hs with
  | refl => exact hd
  | tail _ hq ih => exact hq.deleted_nil (fun _ => id) ih

-- A resumption that waits for all it begins deletes nothing and asks for no stop before its end.
theorem orders_of_passed {front : List Exchange} (hp : Passed h p front q)
    (hc : ∀ c, .call c ∈ front → c.startsWait = false) (hd : p.world.deleted = [])
    (hs : p.world.stopRequested = false) :
    q.world.deleted = [] ∧ q.world.stopRequested = false := by
  induction hp with
  | refl => exact ⟨hd, hs⟩
  | call hl ih =>
    rename_i p q c later
    have hfirst := hc c List.mem_cons_self
    exact ih (fun c' hm => hc c' (List.mem_cons_of_mem _ hm)) (deleted_answer hfirst hd)
      ((sameTerms_call hfirst p).stopRequested.trans hs)
  | pause hw hl ih =>
    have hsame := world_of_passes hw
    exact ih (fun c' hm => hc c' (List.mem_cons_of_mem _ hm)) (hsame ▸ hd) (hsame ▸ hs)

theorem world_of_deletes {e : Exchange} (he : e.Deletes k) :
    (p.perform e).world = (p.world.deleteInstance k.owner).2 := by
  have hb : (p.begin k .delete).2.world = (p.world.deleteInstance k.owner).2 := by
    simp only [begin]
    split <;> rfl
  cases he with
  | awaited => exact (world_pause p k .delete).trans hb
  | dropped => exact (world_start p k .delete).trans hb

end Project

section Removal

-- The tables that an instance is taken out of; the others keep their places in them.
structure World.Loses (w : World) (id : Nat) (w' : World) : Prop where
  instances : w'.instances = w.instances.filter (·.id ≠ id)
  actors : w'.actors = w.actors.map fun a => { a with instances := a.instances.filter (id ≠ ·) }
  watchers : w'.watchers = w.watchers.filter (·.owner ≠ id)
  gains : w'.gains = w.gains.filter (·.1 ≠ w.busOf id)
  volumes : ∀ j ∈ w.instances, j.id ≠ id → w'.busOf j.id = w.busOf j.id ∧
    w'.gains.lookup (w.busOf j.id) = w.gains.lookup (w.busOf j.id)

namespace World

variable {w w' : World} {i : Instance}

theorem isLive_remove (w : World) (i : Instance) (id : Nat) :
    (w.remove i).isLive id = (w.isLive id && decide (id ≠ i.id)) := by
  rw [Bool.eq_iff_iff, Bool.and_eq_true, decide_eq_true_iff]
  constructor
  · intro h
    obtain ⟨j, hj, rfl⟩ := mem_of_isLive h
    obtain ⟨hmem, hne⟩ := List.mem_filter.1 hj
    exact ⟨List.any_eq_true.2 ⟨j, hmem, beq_self_eq_true _⟩, of_decide_eq_true hne⟩
  · rintro ⟨h, hne⟩
    obtain ⟨j, hj, rfl⟩ := mem_of_isLive h
    exact List.any_eq_true.2
      ⟨j, List.mem_filter.2 ⟨hj, decide_eq_true hne⟩, beq_self_eq_true _⟩

theorem loses_remove (hw : w.Registered) (hi : i ∈ w.instances) (hc : i.isClone = true) :
    w.Loses i.id (w.remove i) := by
  have hr : (w.remove i).Registered := hw.remove (hw.instance?_of_mem hi) hc
  refine ⟨rfl, actors_remove_of_registered hw hi, rfl, rfl, fun j hj hne => ⟨?_, ?_⟩⟩
  · have hkept : j ∈ (w.remove i).instances := List.mem_filter.2 ⟨hj, decide_eq_true hne⟩
    rw [busOf_of_mem hw hj, busOf_of_mem hr hkept, className_remove]
  · refine lookup_filter fun gain => decide_eq_true fun he => hne ?_
    rw [busOf_of_mem hw hj, busOf_of_mem hw hi] at he
    exact numbered_inj he

theorem deleteInstance_of_clone (hi : w.instance? i.id = some i) (hc : i.isClone = true) :
    w.deleteInstance i.id = (.deleted, w.remove i) := by
  simp only [deleteInstance, hi, hc, if_true]

theorem deleteInstance_of_gone {id : Nat} (hi : w.instance? id = none) :
    w.deleteInstance id = (.alreadyGone, w) := by
  simp only [deleteInstance, hi]

end World

namespace Project

variable {κ : Conduct} {h k : Handle} {p q r mid : Project} {t u : Thread} {i : Instance}
  {laps id : Nat}

def boundTo (p : Project) (ids : List Nat) : List Thread := p.threads.filter (·.owner ∈ ids)

-- A deletion that has been settled, seen from the project in which it was asked for.
structure Excises (p : Project) (id : Nat) (q : Project) : Prop where
  tables : p.world.Loses id q.world
  threads : ∃ news, q.threads = p.threads.filter (·.owner ∉ p.world.deleted ++ [id]) ++ news ∧
    news.map Thread.post = (p.world.spawns.filter fun s =>
      p.world.isLive s.owner && decide (s.owner ≠ id)).map Spawn.post ∧
    ∀ u ∈ news, p.lastThread < u.id
  questions : q.world.questions = p.world.questions.filter fun x =>
    (p.boundTo (p.world.deleted ++ [id])).all (·.id ≠ x.thread)
  groups : ∀ g, p.world.live g =
    q.world.live g + (p.boundTo (p.world.deleted ++ [id])).countP (·.group = g) +
      (p.world.spawns.filter fun s =>
        !(p.world.isLive s.owner && decide (s.owner ≠ id))).countP (·.group = g)
  world : q.world = { p.world with
    instances := q.world.instances, actors := q.world.actors, watchers := q.world.watchers
    gains := q.world.gains, groups := q.world.groups, questions := q.world.questions
    spawns := [], deleted := [] }
  beyond : p.Beyond q

theorem endThread_updateThread {change : Thread → Thread}
    (hc : ∀ t : Thread, t.Continues (change t)) :
    (p.updateThread id change).endThread id = p.endThread id := by
  have hthreads : (p.updateThread id change).threads.filter (·.id ≠ id) =
      p.threads.filter (·.id ≠ id) := by
    unfold updateThread
    induction p.threads with
    | nil => rfl
    | cons t ts ih =>
      by_cases ht : t.id = id
      · rw [List.map_cons, if_pos ht, List.filter_cons_of_neg (by simp [(hc t).id, ht]),
          List.filter_cons_of_neg (by simp [ht]), ih]
      · rw [List.map_cons, if_neg ht, List.filter_cons_of_pos (by simp [ht]),
          List.filter_cons_of_pos (by simp [ht]), ih]
  unfold endThread
  rw [thread?_updateThread fun t => (hc t).id]
  cases ht : p.thread? id with
  | none =>
    have hnone : ∀ t ∈ p.threads, t.id ≠ id := fun t hm => by
      simpa using List.find?_eq_none.1 ht t hm
    have hsame : p.threads.map (fun t => if t.id = id then change t else t) = p.threads := by
      refine (List.map_congr_left fun t hm => ?_).trans (List.map_id' _)
      exact if_neg (hnone t hm)
    simp only [Option.map_none, updateThread, hsame]
  | some t =>
    simp only [Option.map_some, (hc t).group, hthreads]
    rfl

def excised (p : Project) (i : Instance) : Project := p.updateWorld (·.remove i)

theorem excises_of_clears (hw : p.world.Registered) (hi : i ∈ p.world.instances)
    (hc : i.isClone = true) (hq : (p.excised i).Clears q) : p.Excises i.id q := by
  obtain ⟨hthreads, hquestions, hgroups, hworld, hbeyond⟩ := hq
  have hloses := World.loses_remove hw hi hc
  simp only [excised, updateWorld, World.isLive_remove] at hthreads hgroups
  refine ⟨?_, hthreads, hquestions, hgroups, ?_, ⟨hbeyond.loads, hbeyond.frame, hbeyond.library⟩⟩
  · rw [hworld]
    exact ⟨hloses.instances, hloses.actors, hloses.watchers, hloses.gains, hloses.volumes⟩
  · rw [hworld]
    rfl

theorem excises_settle (hp : p.Ranked) (ha : p.Accounted) (hw : p.world.Registered)
    (hs : p.world.stopRequested = false) (hi : i ∈ p.world.instances) (hc : i.isClone = true)
    (ht : t ∈ p.threads) (hown : t.owner = i.id) :
    p.Excises i.id ((p.excised i).endThread t.id).settle := by
  have hranked : (p.excised i).Ranked := ⟨hp.ordered, hp.bounded⟩
  have haccounted : (p.excised i).Accounted := ha.same rfl rfl fun _ => rfl
  have hcond : t ∈ (p.excised i).condemned := by
    refine mem_condemned.2 ⟨ht, List.mem_append_right _ ?_⟩
    rw [hown]
    exact List.mem_singleton_self _
  have hrest : ((p.excised i).endThread t.id).Clears ((p.excised i).endThread t.id).settle := by
    refine clears_settle (hranked.change (σ := .under .any) (.ended t.id))
      (haccounted.endThread hranked t.id) ?_
    obtain ⟨_, _, hw, -⟩ := world_endThread (p.excised i) t.id
    rw [hw]
    exact hs
  exact excises_of_clears hw hi hc (.of_ended hranked haccounted hcond hrest)

-- Whatever happens, an instance that is gone has no thread and can be deleted no more.
structure Banished (mid : Project) (id : Nat) (q : Project) : Prop where
  gone : q.world.isLive id = false
  threads : ∀ u ∈ q.threads, u.owner ≠ id
  turns : ∀ u ∈ mid.threads, u.owner = id → ∀ laps, q.turn? laps u.id = some (false, q)
  again : ∀ h : Handle, h.owner = id → q.begin h .delete = (.suspends .terminate, q)

theorem Change.bereft {σ : Scope} (hq : Change σ p q) (hp : p.Ranked)
    (hl : p.world.isLive id = false) (hn : ∀ u ∈ p.threads, u.owner ≠ id) :
    ∀ u ∈ q.threads, u.owner ≠ id := by
  intro u hu he
  have hold : ¬ u.id ≤ p.lastThread := fun hle => by
    obtain ⟨s, hs, hc⟩ := hq.continued hu hle
    exact hn s hs (hc.owner.symm.trans he)
  have hsame : q.lastThread ≠ p.lastThread := fun hlast =>
    hold (hlast ▸ (hp.change hq).bounded u hu)
  cases hq with
  | aside h => exact hsame h.lastThread
  | ended id => exact hsame (lastThread_endThread p id)
  | launched h =>
    rename_i s rest
    unfold launch at hu
    split at hu
    · rename_i hlive
      rcases List.mem_append.1 hu with hu | hu
      · exact hn u hu he
      · obtain rfl := List.mem_singleton.1 hu
        have hgone : p.world.isLive s.owner = false := (show s.owner = id from he) ▸ hl
        exact Bool.false_ne_true (hgone.symm.trans hlive)
    · exact hn u hu he
  | _ => exact hsame rfl

theorem banished_of_changes {σ σ' : Scope} (hmid : mid.Ranked) (hq : Changes σ mid q)
    (hle : id ≤ q.world.lastInstance) (hl : q.world.isLive id = false)
    (hn : ∀ u ∈ q.threads, u.owner ≠ id) (hr : Changes σ' q r) : mid.Banished id r := by
  have hthreads : ∀ u ∈ r.threads, u.owner ≠ id := by
    induction hr with
    | refl => exact hn
    | tail hqr hr ih =>
      exact hr.bereft (ranked_changes (ranked_changes hmid hq) hqr)
        ((Changes.precedes hqr).gone hle hl) ih
  have hgone := hr.precedes.gone hle hl
  refine ⟨hgone, hthreads, fun u hu hown laps => turn?_of_gone ?_, fun h hh => ?_⟩
  · refine List.find?_eq_none.2 fun v hv hid => ?_
    have hid : v.id = u.id := by simpa using hid
    have hbound := hmid.bounded u hu
    obtain ⟨v', hv', hc'⟩ := hr.continued hv (hid ▸ Nat.le_trans hbound hq.lastThread_le)
    obtain ⟨s, hs, hc⟩ := hq.continued hv' (hc'.id.symm.trans hid ▸ hbound)
    obtain rfl := hmid.eq_of_id hu hs ((hc.trans hc').id.symm.trans hid)
    exact hthreads v hv ((hc.trans hc').owner.trans hown)
  · have hnone : r.world.instance? h.owner = none := by
      refine List.find?_eq_none.2 fun j hj hid => ?_
      have hlive : r.world.isLive id = true := List.any_eq_true.2 ⟨j, hj, hh ▸ hid⟩
      rw [hgone] at hlive
      cases hlive
    simp only [begin, World.deleteInstance_of_gone hnone]
    rfl

end Project

end Removal

section Requesting

open Project

variable {κ : Conduct} {h k : Handle} {p mid q : Project} {t : Thread} {e : Exchange}
  {front back : List Exchange} {laps : Nat} {ids : List Nat}

-- An original stays what it is, and the thread that waits for its end goes on at once.
structure Declined (laps : Nat) (p : Project) (t : Thread) (mid : Project) (k : Handle)
    (e : Exchange) (back : List Exchange) : Prop where
  unchanged : mid.perform e = mid.updateMailbox k.thread fun m => { m with resume := none }
  carriesOn : e = .pause k .delete → ∃ (laps' : Nat) (next : Except CallError Unit → Behavior),
    p.ending? laps t.id = runOn? k laps' (next (.ok ())) (mid.perform e) ∧
      back = exchangesOn k laps' (next (.ok ())) (mid.perform e)

-- A clone leaves every table at once, and its threads leave with the end of the resumption.
structure Expelled (laps : Nat) (p : Project) (t : Thread) (mid : Project) (k : Handle)
    (e : Exchange) (back : List Exchange) : Prop where
  tables : mid.world.Loses k.owner (mid.perform e).world
  apart : (mid.perform e).world = { mid.world with
    instances := (mid.perform e).world.instances, actors := (mid.perform e).world.actors
    watchers := (mid.perform e).world.watchers, gains := (mid.perform e).world.gains
    deleted := mid.world.deleted ++ [k.owner] }
  awaited : e = .pause k .delete → back = [] ∧ ∃ q, p.turn? laps t.id = some (true, q) ∧
    (mid.world.stopRequested = false → mid.Excises k.owner q)
  settled : ∀ {resumed : Bool} {q : Project}, p.turn? laps t.id = some (resumed, q) →
    ∃ (u : Thread) (r : Resumption), t.Continues u ∧
      let left := ((mid.perform e).performAll back).leave u r
      q = left.settle ∧ (∀ v ∈ left.threads, v.owner = k.owner → v ∈ left.condemned) ∧
        (left.world.stopRequested = false → left.Clears q)
  later : ∀ {resumed : Bool} {q r : Project}, p.turn? laps t.id = some (resumed, q) →
    Changes (.under .any) q r → mid.Banished k.owner r

-- What is at hand at an exchange of a turn.
structure Midway (p : Project) (t : Thread) (mid : Project) : Prop where
  changes : Changes (.under .any) p mid
  ranked : mid.Ranked
  accounted : mid.Accounted
  registered : mid.world.Registered
  running : ∃ u ∈ mid.threads, t.Continues u

theorem Moment.Reachable.midway (hm : Moment.Reachable κ ⟨p, t.id :: ids⟩) (ht : t ∈ p.threads)
    (exchanges : List Exchange) : Midway p t ((p.turnStart t.id).performAll exchanges) := by
  have hc : Changes (.under .any) p ((p.turnStart t.id).performAll exchanges) :=
    (changes_turnStart p t.id).trans (changes_performAll _ exchanges)
  have hranked := hm.obeys.toRanked
  have hroll := (sameRoll_turnStart p t.id).trans (sameRoll_performAll _ exchanges)
  generalize (p.turnStart t.id).performAll exchanges = mid at hc hroll
  have hmid := ranked_changes hranked hc
  refine ⟨hc, hmid, accounted_changes (hm.any.accounted .refl) hranked hc,
    hc.registered hm.registered, ?_⟩
  have hid : t.id ∈ mid.threads.map (·.id) := by
    rw [hroll.ids]
    exact List.mem_map.2 ⟨t, ht, rfl⟩
  obtain ⟨u, hu, huid⟩ := List.mem_map.1 hid
  obtain ⟨s, hs, hcont⟩ := hc.continued hu (huid ▸ hranked.bounded t ht)
  obtain rfl := hranked.eq_of_id ht hs (hcont.id.symm.trans huid)
  exact ⟨u, hu, hcont⟩

theorem declined_of_original (hm : Moment.Reachable κ ⟨p, t.id :: ids⟩) (ht : t ∈ p.threads)
    (hx : p.turnExchanges laps t.id = front ++ e :: back) (he : e.Deletes k) {i : Instance}
    (hi : ((p.turnStart t.id).performAll front).world.instance? k.owner = some i)
    (hc : i.isClone = false) :
    Declined laps p t ((p.turnStart t.id).performAll front) k e back := by
  obtain ⟨u, b, -, -, hex, hend⟩ := taken_of_exchanges hm.obeys.toRanked ht (by rw [hx]; simp)
  rw [hx] at hex
  obtain ⟨laps', b', hl, -, hrun, hrest⟩ := exchangesOn_split hex.symm
  generalize (p.turnStart t.id).performAll front = mid at *
  have hkept := World.deleteInstance_founder hi hc
  have hbegin : mid.begin k .delete =
      (.passes (.ok ()), mid.updateMailbox k.thread fun m => { m with resume := none }) := by
    simp only [begin, hkept, if_true]
  cases he with
  | dropped =>
    refine ⟨?_, fun hawaited => ?_⟩
    · simp only [perform, answer, hbegin]
    · cases hawaited
  | awaited =>
    have hperform : mid.perform (.pause k .delete) =
        mid.updateMailbox k.thread fun m => { m with resume := none } := by
      simp only [perform, hbegin]
    cases hl with
    | pause =>
      rename_i next
      obtain ⟨hgoes, hback⟩ := runOn?_passes hbegin laps' next
      rw [hrest] at hback
      obtain ⟨-, rfl⟩ := List.cons.inj hback
      refine ⟨hperform, fun _ => ⟨laps' + 1, next, ?_, ?_⟩⟩ <;> rw [hperform]
      · exact hend.trans (hrun.trans hgoes)
      · rfl

theorem left_of_turn? (hm : Moment.Reachable κ ⟨p, t.id :: ids⟩) (ht : t ∈ p.threads)
    (hx : p.turnExchanges laps t.id = front ++ e :: back) {resumed : Bool}
    (h : p.turn? laps t.id = some (resumed, q)) : ∃ (u : Thread) (r : Resumption), t.Continues u ∧
      let mid := (p.turnStart t.id).performAll front
      q = (((mid.perform e).performAll back).leave u r).settle := by
  have hne : p.turnExchanges laps t.id ≠ [] := by simp [hx]
  obtain ⟨u, b, hcont, hthread, -, -⟩ := taken_of_exchanges hm.obeys.toRanked ht hne
  cases ran_of_turn? h with
  | resumed hu he =>
    rename_i v r
    obtain rfl := Option.some.inj (hthread.symm.trans hu)
    refine ⟨u, r, hcont, ?_⟩
    rw [hx, performAll_append]
    rfl
  | passed hd => exact absurd (turnExchanges_of_not_due hd) hne
  | orphaned hd => exact absurd (turnExchanges_of_not_due (by simp [hd])) hne

theorem Midway.excises_settle (hp : Midway p t mid) {i : Instance} (hi : i ∈ mid.world.instances)
    (hc : i.isClone = true) (hown : t.owner = i.id) (hs : mid.world.stopRequested = false) :
    mid.Excises i.id ((mid.excised i).endThread t.id).settle := by
  obtain ⟨u, hu, hcont⟩ := hp.running
  rw [← hcont.id]
  exact Project.excises_settle hp.ranked hp.accounted hp.registered hs hi hc hu
    (hcont.owner.trans hown)

theorem Midway.changes_leave (hp : Midway p t mid) {u : Thread} (hu : t.Continues u)
    (r : Resumption) : Changes (.under .any) mid (mid.leave u r) := by
  refine Project.changes_leave trivial ⟨fun _ => trivial, trivial⟩ (fun _ body _ => ?_)
    fun v hv hid => ?_
  · cases body with
    | start behavior => trivial
    | waiting wait next => exact fun _ => trivial
  · obtain ⟨s, hs, hcont⟩ := hp.running
    obtain rfl := hp.ranked.eq_of_id hs hv (hid.trans (hu.id.trans hcont.id.symm))
    exact hcont.owner.trans hu.owner.symm

section Clone

variable {i : Instance} (hmid : Midway p t mid) (hi : mid.world.instance? k.owner = some i)
  (hc : i.isClone = true) (he : e.Deletes k)

include hi hc

theorem deleteInstance_of_handle :
    mid.world.deleteInstance k.owner = (.deleted, mid.world.remove i) := by
  obtain ⟨-, hid⟩ := World.mem_of_instance? hi
  rw [← hid] at hi ⊢
  exact World.deleteInstance_of_clone hi hc

-- The turn of a thread that waits for the end of its own instance ends there.
theorem awaited_of_suspends (hmid : Midway p t mid) {b : Behavior} {laps' : Nat}
    (hk : k = t.handle) (hl : (Exchange.pause k .delete).Leads t.handle b)
    (hend : p.ending? laps t.id = runOn? t.handle (laps' + 1) b mid)
    (hrest : exchangesOn t.handle (laps' + 1) b mid = .pause k .delete :: back) :
    back = [] ∧ ∃ q, p.turn? laps t.id = some (true, q) ∧
      (mid.world.stopRequested = false → mid.Excises k.owner q) := by
  obtain ⟨himem, hid⟩ := World.mem_of_instance? hi
  have hdelete := deleteInstance_of_handle hi hc
  subst hk
  cases hl with
  | pause =>
    rename_i next
    have hbegin : mid.begin t.handle .delete = (.suspends .terminate, mid.excised i) := by
      simp only [begin, hdelete]
      rfl
    obtain ⟨hsuspends, hone⟩ := runOn?_suspends hbegin laps' next
    obtain ⟨u, hu, -, hturn⟩ := ending?_eq_some (hend.trans hsuspends)
    refine ⟨(List.cons.inj (hrest.symm.trans hone)).2, _, hturn, fun hs => ?_⟩
    have hleave : (mid.perform (.pause t.handle .delete)).leave u
        (.suspended .terminate (.waiting .delete next)) = (mid.excised i).endThread t.id := by
      simp only [leave, ThreadState.ofSuspension?, id_of_thread? hu, perform, hbegin]
      exact endThread_updateThread fun _ => ⟨rfl, rfl, rfl, rfl, rfl⟩
    rw [hleave, ← hid]
    exact hmid.excises_settle himem hc hid.symm hs

include he

theorem world_of_expels : (mid.perform e).world = mid.world.remove i := by
  rw [world_of_deletes he, deleteInstance_of_handle hi hc]

theorem gone_of_expels : (mid.perform e).world.isLive k.owner = false := by
  obtain ⟨-, hid⟩ := World.mem_of_instance? hi
  rw [world_of_expels hi hc he, World.isLive_remove, hid]
  simp

include hmid

theorem allocated_of_expels : k.owner ≤ (mid.perform e).world.lastInstance := by
  obtain ⟨himem, hid⟩ := World.mem_of_instance? hi
  rw [world_of_expels hi hc he, ← hid]
  exact hmid.registered.allocated i himem

theorem dead_after (hq : Changes (.under .any) (mid.perform e) q) :
    q.world.isLive k.owner = false :=
  hq.precedes.gone (allocated_of_expels hmid hi hc he) (gone_of_expels hi hc he)

-- What still lives of the instance when the resumption ends is waiting to be ended.
theorem condemned_of_expels (hm : Moment.Reachable κ ⟨p, t.id :: ids⟩) {left : Project}
    (hp : Changes (.under .any) p left) (hq : Changes (.under .any) (mid.perform e) left)
    {v : Thread} (hv : v ∈ left.threads) (hown : v.owner = k.owner) : v ∈ left.condemned := by
  refine mem_condemned.2 ⟨hv, ((hm.any.owned hp).threads v hv).resolve_right fun ho => ?_⟩
  have hlive := ho.isLive
  rw [hown, dead_after hmid hi hc he hq] at hlive
  cases hlive

theorem banished_of_expels (hq : Changes (.under .any) (mid.perform e) q)
    (hn : Moment.Reachable κ ⟨q, ids⟩) {r : Project} (hr : Changes (.under .any) q r) :
    mid.Banished k.owner r := by
  have hdead := dead_after hmid hi hc he hq
  have hle := Nat.le_trans (allocated_of_expels hmid hi hc he) hq.precedes.lastInstance
  refine banished_of_changes hmid.ranked ((changes_perform mid e).trans hq) hle hdead
    (fun v hv hown => ?_) hr
  have hlive := (hn.owns hv).isLive
  rw [hown, hdead] at hlive
  cases hlive

end Clone

theorem expelled_of_clone (hm : Moment.Reachable κ ⟨p, t.id :: ids⟩) (ht : t ∈ p.threads)
    (hx : p.turnExchanges laps t.id = front ++ e :: back) (he : e.Deletes k) {i : Instance}
    (hi : ((p.turnStart t.id).performAll front).world.instance? k.owner = some i)
    (hc : i.isClone = true) :
    Expelled laps p t ((p.turnStart t.id).performAll front) k e back := by
  obtain ⟨-, b, -, -, hex, hend⟩ := taken_of_exchanges hm.obeys.toRanked ht (by rw [hx]; simp)
  obtain ⟨laps', b', hl, -, hrun, hrest⟩ := exchangesOn_split (hex.symm.trans hx)
  have hmid := hm.midway ht front
  have hlast : Midway p t ((((p.turnStart t.id).performAll front).perform e).performAll back) := by
    have hwhole := hm.midway ht (front ++ e :: back)
    rw [performAll_append] at hwhole
    exact hwhole
  have hworld := world_of_expels hi hc he
  obtain ⟨himem, hid⟩ := World.mem_of_instance? hi
  have hafter : Changes (.under .any) (((p.turnStart t.id).performAll front).perform e) _ :=
    changes_performAll _ back
  refine ⟨?_, ?_, fun hawaited => ?_, fun h => ?_, fun h hr => ?_⟩
  · rw [hworld, ← hid]
    exact World.loses_remove hmid.registered himem hc
  · rw [hworld, ← hid]
    rfl
  · subst hawaited
    have hk : k = t.handle := by
      cases hl
      rfl
    exact awaited_of_suspends hi hc hmid hk hl (hend.trans hrun) hrest
  · obtain ⟨u, r, hcont, hq⟩ := left_of_turn? hm ht hx h
    have hchanges := hlast.changes_leave hcont r
    refine ⟨u, r, hcont, hq, fun v hv hown => ?_, fun hs => ?_⟩
    · exact condemned_of_expels hmid hi hc he hm (hlast.changes.trans hchanges)
        (hafter.trans hchanges) hv hown
    · rw [hq]
      exact clears_settle (ranked_changes hlast.ranked hchanges)
        (accounted_changes hlast.accounted hlast.ranked hchanges) hs
  · obtain ⟨u, r, hcont, rfl⟩ := left_of_turn? hm ht hx h
    have hend := (hafter.trans (hlast.changes_leave hcont r)).trans
      (changes_settle fun _ _ => trivial)
    exact banished_of_expels hmid hi hc he hend (hm.step (.turn h)) hr

end Requesting

namespace Moment

variable {κ : Conduct} {k : Handle} {p : Project} {t : Thread} {e : Exchange}
  {front back : List Exchange} {laps : Nat} {ids : List Nat}

theorem Reachable.deletion_exact (hm : Reachable κ ⟨p, t.id :: ids⟩) (ht : t ∈ p.threads)
    (hx : p.turnExchanges laps t.id = front ++ e :: back) (he : e.Deletes k) :
    let mid := (p.turnStart t.id).performAll front
    (e = .pause k .delete → k = t.handle) ∧ (∃ u ∈ mid.threads, t.Continues u) ∧
      ((∀ c, .call c ∈ front → c.startsWait = false) →
        mid.world.deleted = [] ∧ mid.world.stopRequested = false) ∧
      (mid.world.instance? k.owner = none → (mid.perform e).world = mid.world) ∧
      ∀ i, mid.world.instance? k.owner = some i →
        (i.isClone = false → Declined laps p t mid k e back) ∧
          (i.isClone = true → Expelled laps p t mid k e back) := by
  intro mid
  obtain ⟨-, b, -, -, hex, -⟩ := taken_of_exchanges hm.obeys.toRanked ht (by rw [hx]; simp)
  obtain ⟨laps', b', hl, hpassed, -, -⟩ := exchangesOn_split (hex.symm.trans hx)
  refine ⟨fun hawaited => ?_, (hm.midway ht front).running, fun hc => ?_, fun hi => ?_,
    fun i hi => ⟨declined_of_original hm ht hx he hi, expelled_of_clone hm ht hx he hi⟩⟩
  · subst hawaited
    cases hl
    rfl
  · have hquiet := hm.quiet
    refine orders_of_passed hpassed hc ?_ ?_ <;> rw [world_turnStart]
    · exact hquiet.deleted
    · exact hquiet.stopRequested
  · rw [world_of_deletes he, World.deleteInstance_of_gone hi]

def vanish (_ : Handle) : Behavior := .pause .delete fun _ => .finish

def vanishing : Project := ((haunted "boo" vanish).prepare.turned 1).prepare

theorem vanishing_exact :
    let e : Exchange := .pause ⟨2, 2⟩ .delete
    ∃ t ∈ vanishing.threads, t.id = 2 ∧ vanishing.turnExchanges 1 t.id = [] ++ e :: [] ∧
      vanishing.turn? 1 2 = some (true, vanishing.turned 2) ∧
      (vanishing.turnStart 2).Excises 2 (vanishing.turned 2) ∧
      (vanishing.turned 2).threads.map (·.id) = [] ∧
      (vanishing.turned 2).world.instances.map (·.id) = [1] := by
  intro e
  have hstart : Reachable .any ⟨(haunted "boo" vanish).prepare, [1]⟩ :=
    (reachable_haunted (fun _ => trivial) (fun _ _ _ => trivial) "boo").step .frame
  have hscare : ((haunted "boo" vanish).prepare.turn? 1 1).map (·.1) = some true := rfl
  have hm : Reachable .any ⟨vanishing, [2]⟩ := (hstart.turned hscare).step .frame
  have hturn : vanishing.turn? 1 2 = some (true, vanishing.turned 2) := turn?_turned rfl
  have hclone : ((vanishing.turnStart 2).world.instance? 2).map (·.isClone) = some true := rfl
  obtain ⟨i, hi, hc⟩ := Option.map_eq_some_iff.1 hclone
  obtain ⟨t, ht, hid⟩ : ∃ t ∈ vanishing.threads, t.id = 2 := ⟨_, List.mem_cons_self, rfl⟩
  have hx : vanishing.turnExchanges 1 t.id = [] ++ e :: [] := by
    rw [hid]
    rfl
  refine ⟨t, ht, hid, hx, hturn, ?_, rfl, rfl⟩
  have h := Reachable.deletion_exact (hid ▸ hm) ht hx .awaited
  obtain ⟨-, q, hq, hexcises⟩ := ((h.2.2.2.2 i (hid ▸ hi)).2 hc).awaited rfl
  rw [hid, hturn] at hq
  cases hq
  exact hid ▸ hexcises (h.2.2.1 nofun).2

end Moment

end SpriteStage

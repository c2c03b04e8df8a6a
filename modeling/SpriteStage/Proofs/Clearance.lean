import SpriteStage.Proofs.Accounting
import SpriteStage.Proofs.Settlement

namespace SpriteStage

-- How many members of a group have not ended.
def World.live (w : World) (g : Nat) : Nat := (w.groups.find? (·.id == g)).elim 0 (·.live)

namespace Project

variable {σ : Scope} {p q : Project} {t : Thread}

theorem live_of_accounted (hp : p.Accounted) (g : Nat) : p.world.live g = p.members g := by
  unfold World.live
  cases hf : p.world.groups.find? (·.id == g) with
  | none =>
    have hnone : ¬ ∃ e ∈ p.world.groups, e.id = g := by
      rintro ⟨e, he, hid⟩
      simpa [hid] using List.find?_eq_none.1 hf e he
    exact (Nat.eq_zero_of_not_pos fun h => hnone ((hp.present g).2 h)).symm
  | some e =>
    have hid : e.id = g := by simpa using List.find?_some hf
    rw [← hid]
    exact hp.counted e (List.mem_of_find?_eq_some hf)

def condemned (p : Project) : List Thread := p.threads.filter (·.owner ∈ p.world.deleted)

-- Nothing differs but the world and the threads.
structure Beyond (p q : Project) : Prop where
  loads : q.loads = p.loads
  frame : q.frame = p.frame
  library : q.library = p.library

theorem Beyond.refl (p : Project) : p.Beyond p := ⟨rfl, rfl, rfl⟩

theorem Beyond.trans {r : Project} (h : p.Beyond q) (h' : q.Beyond r) : p.Beyond r :=
  ⟨h'.loads.trans h.loads, h'.frame.trans h.frame, h'.library.trans h.library⟩

theorem beyond_endThread (p : Project) (id : Nat) : p.Beyond (p.endThread id) := by
  unfold endThread
  split <;> exact ⟨rfl, rfl, rfl⟩

theorem beyond_launch (p : Project) (s : Spawn) : p.Beyond (p.launch s) := by
  unfold launch
  split <;> exact ⟨rfl, rfl, rfl⟩

theorem beyond_foldl_launch (queue : List Spawn) (p : Project) :
    p.Beyond (queue.foldl launch p) :=
  foldl_carries .refl .trans beyond_launch queue p

theorem ranked_changes (hp : p.Ranked) (h : Changes σ p q) : q.Ranked := by
  induction h with
  | refl => exact hp
  | tail _ hq ih => exact ih.change hq

theorem accounted_changes (ha : p.Accounted) (hp : p.Ranked) (h : Changes σ p q) : q.Accounted := by
  induction h with
  | refl => exact ha
  | tail hpr hq ih => exact ih.change (ranked_changes hp hpr) hq

-- What settling does when no stop is asked for, to each table.
structure Clears (p q : Project) : Prop where
  threads : ∃ news, q.threads = p.threads.filter (·.owner ∉ p.world.deleted) ++ news ∧
    news.map Thread.post = (p.world.spawns.filter (p.world.isLive ·.owner)).map Spawn.post ∧
    ∀ u ∈ news, p.lastThread < u.id
  questions : q.world.questions =
    p.world.questions.filter fun x => p.condemned.all (·.id ≠ x.thread)
  groups : ∀ g, p.world.live g = q.world.live g + p.condemned.countP (·.group = g) +
    (p.world.spawns.filter (!p.world.isLive ·.owner)).countP (·.group = g)
  world : q.world = { p.world with
    groups := q.world.groups, questions := q.world.questions, spawns := [], deleted := [] }
  beyond : p.Beyond q

-- What is left of settling once all threads of deleted instances have ended.
def reopened (p : Project) : Project := (p.updateWorld fun w => { w with deleted := [] }).launchAll

theorem settle_eq_reopened (hs : p.world.stopRequested = false) :
    p.settle = ((p.condemned.map (·.id)).foldl endThread p).reopened := by
  have hcontains : (p.threads.filter fun t => p.world.deleted.contains t.owner) = p.condemned :=
    List.filter_congr fun t _ => List.contains_eq_mem _ _
  unfold settle reopened
  rw [if_neg (by simp [hs]), hcontains, ← foldl_endThread_updateWorld]

theorem accounted_reopened (ha : p.Accounted) (hp : p.Ranked) : p.reopened.Accounted := by
  have hpurged : (p.updateWorld fun w => { w with deleted := [] }).Accounted :=
    ha.same rfl rfl fun _ => rfl
  have hranked : (p.updateWorld fun w => { w with deleted := [] }).Ranked :=
    ⟨hp.ordered, hp.bounded⟩
  exact accounted_changes (σ := .under .any) hpurged hranked (changes_launchAll _)

theorem countP_posts {news : List Thread} {queue : List Spawn}
    (h : news.map Thread.post = queue.map Spawn.post) (g : Nat) :
    news.countP (·.group = g) = queue.countP (·.group = g) := by
  have hcount := congrArg (List.countP (·.1 = g)) h
  rwa [List.countP_map, List.countP_map] at hcount

theorem clears_reopened (hp : p.Ranked) (ha : p.Accounted) (hn : p.condemned = []) :
    p.Clears p.reopened := by
  have hkept : p.threads.filter (·.owner ∉ p.world.deleted) = p.threads := by
    refine List.filter_eq_self.2 fun t ht => decide_eq_true fun hd => ?_
    have hc : t ∈ p.condemned := List.mem_filter.2 ⟨ht, decide_eq_true hd⟩
    rw [hn] at hc
    cases hc
  let opened := p.updateWorld fun w => { w with deleted := [], spawns := [] }
  have hopened : p.reopened = p.world.spawns.foldl launch opened := rfl
  obtain ⟨news, hthreads, hposts, hids⟩ := threads_foldl_launch p.world.spawns opened
  obtain ⟨groups, hworld⟩ := world_foldl_launch p.world.spawns opened
  rw [← hopened] at hthreads hworld
  have hspawns : p.reopened.world.spawns = [] := congrArg World.spawns hworld
  refine ⟨⟨news, ?_, hposts, hids⟩, ?_, fun g => ?_, ?_, ?_⟩
  · rw [hkept]
    exact hthreads
  · rw [hworld, hn]
    exact (List.filter_eq_self.2 fun x _ => rfl).symm
  · have hsplit := List.countP_eq_countP_filter_add p.world.spawns (·.group = g)
      (p.world.isLive ·.owner)
    rw [live_of_accounted ha, live_of_accounted (accounted_reopened ha hp), hn]
    unfold members
    rw [hthreads, hspawns, List.countP_append, countP_posts hposts, hsplit]
    simp only [List.countP_nil, Nat.add_zero, Nat.add_assoc]
    rfl
  · rw [hworld]
    rfl
  · have hbeyond : p.Beyond opened := ⟨rfl, rfl, rfl⟩
    exact hbeyond.trans (beyond_foldl_launch p.world.spawns opened)

theorem mem_condemned : t ∈ p.condemned ↔ t ∈ p.threads ∧ t.owner ∈ p.world.deleted := by
  rw [condemned, List.mem_filter, decide_eq_true_iff]

theorem condemned_endThread (p : Project) (id : Nat) :
    (p.endThread id).condemned = p.condemned.filter (·.id ≠ id) := by
  unfold condemned
  rw [threads_endThread, deleted_endThread, List.filter_filter, List.filter_filter]
  simp only [Bool.and_comm]

theorem Clears.of_ended (hp : p.Ranked) (ha : p.Accounted) (ht : t ∈ p.condemned)
    (hq : (p.endThread t.id).Clears q) : p.Clears q := by
  obtain ⟨hmem, hdel⟩ := mem_condemned.1 ht
  obtain ⟨hthreads, hquestions, hgroups, hworld, hbeyond⟩ := hq
  have hthread := hp.thread?_of_mem hmem
  have hend : (p.endThread t.id).world = { p.world.leaveGroup t.group with
      questions := p.world.questions.filter (·.thread ≠ t.id) } := by
    unfold endThread
    rw [hthread]
  have hlive : ∀ id, (p.endThread t.id).world.isLive id = p.world.isLive id := fun id => by
    rw [hend]
    rfl
  simp only [deleted_endThread, spawns_endThread, lastThread_endThread, hlive] at hthreads hgroups
  refine ⟨?_, ?_, fun g => ?_, ?_, (beyond_endThread p t.id).trans hbeyond⟩
  · obtain ⟨news, hnews, hposts, hids⟩ := hthreads
    refine ⟨news, ?_, hposts, hids⟩
    rw [hnews, threads_endThread, List.filter_filter]
    congr 1
    refine List.filter_congr fun u hu => ?_
    by_cases hid : u.id = t.id
    · obtain rfl := hp.eq_of_id hmem hu hid
      simp [hdel]
    · simp [hid]
  · rw [hquestions, condemned_endThread, hend, List.filter_filter]
    refine List.filter_congr fun x _ => ?_
    rw [Bool.eq_iff_iff]
    simp only [Bool.and_eq_true, List.all_eq_true, List.mem_filter, decide_eq_true_eq]
    constructor
    · rintro ⟨hrest, hx⟩ u hu
      by_cases hid : u.id = t.id
      · exact fun he => hx (he.symm.trans hid)
      · exact hrest u ⟨hu, hid⟩
    · exact fun hall => ⟨fun u hu => hall u hu.1, fun he => hall t ht he.symm⟩
  · have hnodup : (p.condemned.map (·.id)).Nodup :=
      hp.nodup.sublist (List.filter_sublist.map _)
    have hmembers := members_endThread hp hmem g
    have hrest := hgroups g
    rw [live_of_accounted (ha.endThread hp t.id), condemned_endThread] at hrest
    rw [live_of_accounted ha, hmembers, countP_endThread hnodup ht g, hrest]
    omega
  · rw [hworld, hend]
    rfl

theorem clears_foldl_endThread {ids : List Nat} (hp : p.Ranked) (ha : p.Accounted)
    (hids : p.condemned.map (·.id) = ids) : p.Clears (ids.foldl endThread p).reopened := by
  induction ids generalizing p with
  | nil => exact clears_reopened hp ha (List.map_eq_nil_iff.1 hids)
  | cons id ids ih =>
    obtain ⟨t, rest, hcond, rfl, hrest⟩ := List.map_eq_cons_iff.1 hids
    have hnodup : ((t :: rest).map (·.id)).Nodup := by
      rw [← hcond]
      exact hp.nodup.sublist (List.filter_sublist.map _)
    have hnext : (p.endThread t.id).condemned = rest := by
      rw [condemned_endThread, hcond, List.filter_cons_of_neg (by simp)]
      refine List.filter_eq_self.2 fun u hu => decide_eq_true fun he => ?_
      exact (List.nodup_cons.1 hnodup).1 (List.mem_map.2 ⟨u, hu, he⟩)
    have hlast : (p.endThread t.id).Ranked := hp.change (σ := .under .any) (.ended t.id)
    refine .of_ended hp ha (by rw [hcond]; exact List.mem_cons_self) ?_
    exact ih hlast (ha.endThread hp t.id) (by rw [hnext]; exact hrest)

theorem clears_settle (hp : p.Ranked) (ha : p.Accounted) (hs : p.world.stopRequested = false) :
    p.Clears p.settle := by
  rw [settle_eq_reopened hs]
  exact clears_foldl_endThread hp ha rfl

end Project

end SpriteStage

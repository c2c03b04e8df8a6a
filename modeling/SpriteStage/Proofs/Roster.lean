import SpriteStage.Proofs.Change

namespace SpriteStage

-- What every step carries over, a preorder on the states, a whole fold carries over.
theorem foldl_carries {σ α : Type} {r : σ → σ → Prop} (hr : ∀ s, r s s)
    (ht : ∀ {s s' s''}, r s s' → r s' s'' → r s s'') {step : σ → α → σ}
    (hs : ∀ s a, r s (step s a)) (as : List α) (s : σ) : r s (as.foldl step s) :=
  List.foldlRecOn as step (hr s) fun s' h a _ => ht h (hs s' a)

theorem foldl_keeps {σ α β : Type} (f : σ → β) {step : σ → α → σ}
    (hs : ∀ s a, f (step s a) = f s) (as : List α) (s : σ) : f (as.foldl step s) = f s :=
  foldl_carries (r := fun s s' => f s' = f s) (fun _ => rfl) (fun h h' => h'.trans h) hs as s

namespace Project

variable {σ : Scope} {κ : Conduct} {p q : Project}

section Threads

theorem mem_updateThread {id : Nat} {change : Thread → Thread} {u : Thread}
    (hu : u ∈ (p.updateThread id change).threads) :
    ∃ t ∈ p.threads, (t.id = id ∧ u = change t) ∨ (t.id ≠ id ∧ u = t) := by
  obtain ⟨t, ht, rfl⟩ := List.mem_map.1 hu
  refine ⟨t, ht, ?_⟩
  by_cases hid : t.id = id
  · exact .inl ⟨hid, if_pos hid⟩
  · exact .inr ⟨hid, if_neg hid⟩

theorem continues_of_mem_updateThread {id : Nat} {change : Thread → Thread} {u : Thread}
    (hc : ∀ t : Thread, t.Continues (change t)) (hu : u ∈ (p.updateThread id change).threads) :
    ∃ t ∈ p.threads, t.Continues u := by
  obtain ⟨t, ht, ⟨-, rfl⟩ | ⟨-, rfl⟩⟩ := mem_updateThread hu
  · exact ⟨t, ht, hc t⟩
  · exact ⟨_, ht, .refl _⟩

theorem threads_endThread (p : Project) (id : Nat) :
    (p.endThread id).threads = p.threads.filter (·.id ≠ id) := by
  unfold endThread
  split
  · rename_i ht
    refine (List.filter_eq_self.2 fun t hm => ?_).symm
    simpa using List.find?_eq_none.1 ht t hm
  · rfl

theorem world_endThread (p : Project) (id : Nat) : ∃ groups questions,
    (p.endThread id).world = { p.world with groups := groups, questions := questions } ∧
      questions.Sublist p.world.questions := by
  unfold endThread
  split
  · exact ⟨_, _, rfl, .refl _⟩
  · exact ⟨_, _, rfl, List.filter_sublist⟩

theorem world_launch (p : Project) (s : Spawn) :
    ∃ groups, (p.launch s).world = { p.world with groups := groups } := by
  unfold launch
  split
  · exact ⟨_, rfl⟩
  · exact ⟨_, rfl⟩

theorem world_queueGroup (w : World) (starts : List World.Start) : ∃ lastGroup groups spawns,
    (w.queueGroup starts).2 =
      { w with lastGroup := lastGroup, groups := groups, spawns := spawns } ∧
      w.lastGroup ≤ lastGroup := by
  unfold World.queueGroup
  split
  · exact ⟨_, _, _, rfl, Nat.le_refl _⟩
  · exact ⟨_, _, _, rfl, Nat.le_succ _⟩

theorem world_foldl_endThread (ids : List Nat) (p : Project) : ∃ groups questions,
    (ids.foldl endThread p).world = { p.world with groups := groups, questions := questions } := by
  refine foldl_carries (r := fun p q : Project => ∃ groups questions,
    q.world = { p.world with groups := groups, questions := questions }) (fun _ => ⟨_, _, rfl⟩)
    ?_ (fun p id => ?_) ids p
  · rintro p q r ⟨_, _, hq⟩ ⟨groups, questions, hr⟩
    exact ⟨groups, questions, by rw [hr, hq]⟩
  · obtain ⟨groups, questions, hw, -⟩ := world_endThread p id
    exact ⟨groups, questions, hw⟩

theorem world_foldl_launch (queue : List Spawn) (p : Project) :
    ∃ groups, (queue.foldl launch p).world = { p.world with groups := groups } := by
  refine foldl_carries (r := fun p q : Project => ∃ groups,
    q.world = { p.world with groups := groups }) (fun _ => ⟨_, rfl⟩) ?_ world_launch queue p
  rintro p q r ⟨_, hq⟩ ⟨groups, hr⟩
  exact ⟨groups, by rw [hr, hq]⟩

theorem world_launchAll (p : Project) :
    ∃ groups, p.launchAll.world = { p.world with groups := groups, spawns := [] } :=
  world_foldl_launch p.world.spawns (p.updateWorld fun w => { w with spawns := [] })

theorem world_settle (hs : p.world.stopRequested = false) : ∃ groups questions,
    p.settle.world =
      { p.world with groups := groups, questions := questions, spawns := [], deleted := [] } := by
  let doomed := (p.threads.filter fun t => p.world.deleted.contains t.owner).map (·.id)
  let purged := p.updateWorld fun w => { w with deleted := [] }
  obtain ⟨_, questions, hended⟩ := world_foldl_endThread doomed purged
  obtain ⟨groups, hlaunched⟩ := world_launchAll (doomed.foldl endThread purged)
  unfold settle
  rw [if_neg (by simp [hs]), hlaunched, hended]
  exact ⟨groups, questions, rfl⟩

theorem settle_cases (p : Project) : p.settle = p.stopEverything ∨ ∃ groups questions,
    p.settle.world =
      { p.world with groups := groups, questions := questions, spawns := [], deleted := [] } := by
  by_cases hs : p.world.stopRequested
  · exact .inl (if_pos hs)
  · exact .inr (world_settle (by simpa using hs))

section Input

-- All that input and the launching of threads write: the devices, the groups and the queue.
def Enlists (w w' : World) : Prop := ∃ lastGroup groups spawns keyboard pointer,
  w' = { w with lastGroup := lastGroup, groups := groups, spawns := spawns
                keyboard := keyboard, pointer := pointer }

theorem Enlists.refl (w : World) : Enlists w w := ⟨_, _, _, _, _, rfl⟩

theorem Enlists.trans {w w' w'' : World} (h : Enlists w w') (h' : Enlists w' w'') :
    Enlists w w'' := by
  obtain ⟨_, _, _, _, _, rfl⟩ := h
  obtain ⟨lastGroup, groups, spawns, keyboard, pointer, rfl⟩ := h'
  exact ⟨lastGroup, groups, spawns, keyboard, pointer, rfl⟩

theorem enlists_queueGroup (w : World) (starts : List World.Start) :
    Enlists w (w.queueGroup starts).2 := by
  obtain ⟨lastGroup, groups, spawns, hw, -⟩ := world_queueGroup w starts
  exact ⟨lastGroup, groups, spawns, _, _, hw⟩

theorem enlists_click (w : World) (place : Point) : Enlists w (click w place) := by
  unfold click
  split <;> exact enlists_queueGroup w _

theorem enlists_launch (p : Project) (s : Spawn) : Enlists p.world (p.launch s).world := by
  obtain ⟨groups, hw⟩ := world_launch p s
  exact ⟨_, groups, _, _, _, hw⟩

theorem enlists_launchAll (p : Project) : Enlists p.world p.launchAll.world := by
  obtain ⟨groups, hw⟩ := world_launchAll p
  exact ⟨_, groups, [], _, _, hw⟩

theorem enlists_launchInput (p : Project) : Enlists p.world p.launchInput.world := by
  let drained : World := { p.world with keyboard := p.world.keyboard.drained }
  let keyed := p.world.keyboard.fresh.foldl (fun w name => (w.dispatch (.keyPressed name)).2) drained
  have hdrained : Enlists p.world drained := ⟨_, _, _, _, _, rfl⟩
  have hkeyed : Enlists drained keyed :=
    foldl_carries Enlists.refl .trans (fun w _ => enlists_queueGroup w _) _ _
  have hpointed : Enlists keyed { keyed with pointer := p.world.pointer.drained } :=
    ⟨_, _, _, _, _, rfl⟩
  have hclicked := foldl_carries Enlists.refl .trans enlists_click p.world.pointer.clicks
    { keyed with pointer := p.world.pointer.drained }
  have hall := ((hdrained.trans hkeyed).trans hpointed).trans hclicked
  exact hall.trans (enlists_launchAll (p.updateWorld fun _ => _))

end Input

theorem spawns_endThread (p : Project) (id : Nat) :
    (p.endThread id).world.spawns = p.world.spawns := by
  obtain ⟨groups, questions, hw, -⟩ := world_endThread p id
  rw [hw]

theorem lastThread_endThread (p : Project) (id : Nat) :
    (p.endThread id).lastThread = p.lastThread := by
  unfold endThread
  split <;> rfl

theorem library_endThread (p : Project) (id : Nat) : (p.endThread id).library = p.library := by
  unfold endThread
  split <;> rfl

theorem launch_of_live {s : Spawn} (h : p.world.isLive s.owner) :
    p.launch s = { p with
      lastThread := p.lastThread + 1
      threads := p.threads ++ [{
        id := p.lastThread + 1, group := s.group, actor := s.actor, owner := s.owner
        label := s.handler.label
        mailbox := { rates := .new p.world.config.defaultLoopIterationsPerFrame }
        body := .start (s.handler.body ⟨p.lastThread + 1, s.owner⟩) }] } := if_pos h

theorem launch_of_gone {s : Spawn} (h : ¬ p.world.isLive s.owner) :
    p.launch s = p.updateWorld (·.leaveGroup s.group) := if_neg h

theorem lastThread_le_launch (p : Project) (s : Spawn) :
    p.lastThread ≤ (p.launch s).lastThread := by
  unfold launch
  split
  · exact Nat.le_succ _
  · exact Nat.le_refl _

theorem mem_launch {s : Spawn} {u : Thread} (hu : u ∈ (p.launch s).threads) :
    u ∈ p.threads ∨ u.id = p.lastThread + 1 := by
  unfold launch at hu
  split at hu
  · rcases List.mem_append.1 hu with hu | hu
    · exact .inl hu
    · obtain rfl := List.mem_singleton.1 hu
      exact .inr rfl
  · exact .inl hu

theorem Change.lastThread_le (h : Change σ p q) : p.lastThread ≤ q.lastThread := by
  cases h with
  | aside h => exact Nat.le_of_eq h.lastThread.symm
  | ended id => exact Nat.le_of_eq (lastThread_endThread p id).symm
  | launched h => exact lastThread_le_launch (p.updateWorld _) _
  | _ => exact Nat.le_refl _

theorem Changes.lastThread_le (h : Changes σ p q) : p.lastThread ≤ q.lastThread := by
  induction h with
  | refl => exact Nat.le_refl _
  | tail _ hq ih => exact Nat.le_trans ih hq.lastThread_le

theorem Change.library (h : Change σ p q) : q.library = p.library := by
  cases h with
  | aside h => exact h.library
  | ended id => exact library_endThread p id
  | launched h =>
    unfold launch
    split <;> rfl
  | _ => rfl

theorem Changes.library (h : Changes σ p q) : q.library = p.library := by
  induction h with
  | refl => rfl
  | tail _ hq ih => exact hq.library.trans ih

theorem Change.continued (h : Change σ p q) {u : Thread} (hu : u ∈ q.threads)
    (hl : u.id ≤ p.lastThread) : ∃ t ∈ p.threads, t.Continues u := by
  cases h with
  | aside h =>
    rw [h.threads] at hu
    exact ⟨u, hu, .refl u⟩
  | mailbox id change =>
    have hc : ∀ t : Thread, t.Continues { t with mailbox := change t.mailbox } := fun _ =>
      ⟨rfl, rfl, rfl, rfl, rfl⟩
    exact continues_of_mem_updateThread hc hu
  | turn hid h hb => exact continues_of_mem_updateThread h hu
  | ended id =>
    rw [threads_endThread] at hu
    exact ⟨u, List.mem_of_mem_filter hu, .refl u⟩
  | launched h =>
    rcases mem_launch hu with hu | hid
    · exact ⟨u, hu, .refl u⟩
    · exact absurd (hid ▸ hl) (Nat.not_succ_le_self _)
  | cleared => cases hu
  | _ => exact ⟨u, hu, .refl u⟩

theorem Changes.continued (h : Changes σ p q) {u : Thread} (hu : u ∈ q.threads)
    (hl : u.id ≤ p.lastThread) : ∃ t ∈ p.threads, t.Continues u := by
  induction h generalizing u with
  | refl => exact ⟨u, hu, .refl u⟩
  | tail hpr hq ih =>
    obtain ⟨t, ht, hc⟩ := hq.continued hu (Nat.le_trans hl (Changes.lastThread_le hpr))
    obtain ⟨s, hs, hc'⟩ := ih ht (hc.id ▸ hl)
    exact ⟨s, hs, hc'.trans hc⟩

theorem Change.stays (h : Change σ p q) {u : Thread} (hu : u ∈ q.threads)
    (hl : u.id ≤ p.lastThread) (hn : ¬ σ.turns u.id) : ∃ t ∈ p.threads, t.Stays u := by
  cases h with
  | aside h =>
    rw [h.threads] at hu
    exact ⟨u, hu, .refl u⟩
  | mailbox id change =>
    unfold updateMailbox at hu
    obtain ⟨t, ht, ⟨-, rfl⟩ | ⟨-, rfl⟩⟩ := mem_updateThread hu
    · exact ⟨t, ht, ⟨⟨rfl, rfl, rfl, rfl, rfl⟩, rfl, rfl⟩⟩
    · exact ⟨_, ht, .refl _⟩
  | turn hid h hb =>
    obtain ⟨t, ht, ⟨htid, rfl⟩ | ⟨-, rfl⟩⟩ := mem_updateThread hu
    · rw [(h t).id, htid] at hn
      exact absurd hid hn
    · exact ⟨_, ht, .refl _⟩
  | ended id =>
    rw [threads_endThread] at hu
    exact ⟨u, List.mem_of_mem_filter hu, .refl u⟩
  | launched h =>
    rcases mem_launch hu with hu | hid
    · exact ⟨u, hu, .refl u⟩
    · exact absurd (hid ▸ hl) (Nat.not_succ_le_self _)
  | cleared => cases hu
  | _ => exact ⟨u, hu, .refl u⟩

theorem Changes.stays (h : Changes σ p q) {u : Thread} (hu : u ∈ q.threads)
    (hl : u.id ≤ p.lastThread) (hn : ¬ σ.turns u.id) : ∃ t ∈ p.threads, t.Stays u := by
  induction h generalizing u with
  | refl => exact ⟨u, hu, .refl u⟩
  | tail hpr hq ih =>
    obtain ⟨t, ht, hs⟩ := hq.stays hu (Nat.le_trans hl (Changes.lastThread_le hpr)) hn
    obtain ⟨s, hsm, hs'⟩ := ih ht (hs.id ▸ hl) (hs.id ▸ hn)
    exact ⟨s, hsm, hs'.trans hs⟩

end Threads

structure Ranked (p : Project) : Prop where
  ordered : p.threads.Pairwise (·.id < ·.id)
  bounded : ∀ t ∈ p.threads, t.id ≤ p.lastThread

namespace Ranked

theorem nodup (hp : p.Ranked) : (p.threads.map (·.id)).Nodup :=
  List.pairwise_map.2 (hp.ordered.imp Nat.ne_of_lt)

theorem eq_of_id (hp : p.Ranked) {t u : Thread} (ht : t ∈ p.threads) (hu : u ∈ p.threads)
    (h : u.id = t.id) : u = t :=
  List.inj_on_of_nodup_map hp.nodup hu ht h

theorem thread?_of_mem (hp : p.Ranked) {t : Thread} (ht : t ∈ p.threads) :
    p.thread? t.id = some t := by
  unfold thread?
  cases hf : p.threads.find? (·.id == t.id) with
  | none => simpa using List.find?_eq_none.1 hf t ht
  | some u =>
    have hu : u.id = t.id := by simpa using List.find?_some hf
    rw [hp.eq_of_id ht (List.mem_of_find?_eq_some hf) hu]

theorem of_sublist {q : Project} (hp : p.Ranked) (hs : q.threads.Sublist p.threads)
    (hl : q.lastThread = p.lastThread) : q.Ranked :=
  ⟨hp.ordered.sublist hs, fun t ht => hl ▸ hp.bounded t (hs.mem ht)⟩

theorem updateThread (hp : p.Ranked) {id : Nat} {change : Thread → Thread}
    (hc : ∀ t, (change t).id = t.id) : (p.updateThread id change).Ranked := by
  have hi : ∀ t : Thread, (if t.id = id then change t else t).id = t.id := fun t => by
    split
    · exact hc t
    · rfl
  refine ⟨List.pairwise_map.2 (hp.ordered.imp fun h => ?_), fun u hu => ?_⟩
  · rwa [hi, hi]
  · obtain ⟨t, ht, rfl⟩ := List.mem_map.1 hu
    rw [hi]
    exact hp.bounded t ht

theorem launch (hp : p.Ranked) (s : Spawn) : (p.launch s).Ranked := by
  by_cases hl : p.world.isLive s.owner
  · rw [launch_of_live hl]
    refine ⟨List.pairwise_append.2 ⟨hp.ordered, List.pairwise_singleton _ _, fun t ht u hu => ?_⟩,
      fun t ht => ?_⟩
    · obtain rfl := List.mem_singleton.1 hu
      exact Nat.lt_succ_of_le (hp.bounded t ht)
    · rcases List.mem_append.1 ht with ht | ht
      · exact Nat.le_succ_of_le (hp.bounded t ht)
      · obtain rfl := List.mem_singleton.1 ht
        exact Nat.le_refl _
  · rw [launch_of_gone hl]
    exact ⟨hp.ordered, hp.bounded⟩

theorem change (hp : p.Ranked) (h : Change σ p q) : q.Ranked := by
  cases h with
  | aside h => exact hp.of_sublist (h.threads ▸ .refl _) h.lastThread
  | mailbox id change => exact hp.updateThread fun _ => rfl
  | turn hid h hb => exact hp.updateThread fun t => (h t).id
  | ended id =>
    refine hp.of_sublist ?_ (lastThread_endThread p id)
    rw [threads_endThread]
    exact List.filter_sublist
  | launched h => exact launch (p := p.updateWorld _) ⟨hp.ordered, hp.bounded⟩ _
  | cleared => exact ⟨.nil, by rintro t ⟨⟩⟩
  | _ => exact ⟨hp.ordered, hp.bounded⟩

end Ranked

end Project

end SpriteStage

import SpriteStage.Proofs.Origin

namespace SpriteStage

open Project

structure Tally (groups : List Group) (last : Nat) (members : Nat → Nat) : Prop where
  ids : (groups.map (·.id)).Nodup
  allocated : ∀ e ∈ groups, e.id ≤ last
  present : ∀ g, (∃ e ∈ groups, e.id = g) ↔ 0 < members g
  counted : ∀ e ∈ groups, e.live = members e.id

namespace Tally

variable {groups : List Group} {last : Nat} {members members' : Nat → Nat}

theorem empty (h : ∀ g, members g = 0) : Tally [] last members where
  ids := .nil
  allocated e he := nomatch he
  present g := by simp [h g]
  counted e he := nomatch he

theorem congr (ht : Tally groups last members) (h : ∀ g, members' g = members g) :
    Tally groups last members' := by
  obtain rfl : members' = members := funext h
  exact ht

theorem none_above (ht : Tally groups last members) {g : Nat} (hg : last < g) : members g = 0 := by
  by_contra hne
  obtain ⟨e, he, rfl⟩ := (ht.present g).2 (Nat.pos_of_ne_zero hne)
  exact absurd (ht.allocated e he) (Nat.not_le_of_lt hg)

theorem positive (ht : Tally groups last members) {e : Group} (he : e ∈ groups) : 0 < e.live := by
  rw [ht.counted e he]
  exact (ht.present e.id).1 ⟨e, he, rfl⟩

theorem opened (ht : Tally groups last members) {k : Nat} (hk : 0 < k)
    (h : ∀ g, members' g = members g + if last + 1 = g then k else 0) :
    Tally (groups ++ [⟨last + 1, k⟩]) (last + 1) members' := by
  have hnone : members (last + 1) = 0 := ht.none_above (Nat.lt_succ_self last)
  refine ⟨?_, fun e he => ?_, fun g => ?_, fun e he => ?_⟩
  · rw [List.map_append]
    refine List.nodup_append.2 ⟨ht.ids, List.nodup_cons.2 ⟨List.not_mem_nil, .nil⟩, ?_⟩
    rintro x hx y hy rfl
    obtain ⟨e, he, rfl⟩ := List.mem_map.1 hx
    have hle := ht.allocated e he
    have heq : e.id = last + 1 := List.mem_singleton.1 hy
    omega
  · rcases List.mem_append.1 he with he | he
    · exact Nat.le_succ_of_le (ht.allocated e he)
    · obtain rfl := List.mem_singleton.1 he
      exact Nat.le_refl _
  · rw [h g]
    by_cases hg : last + 1 = g
    · subst hg
      rw [if_pos rfl]
      exact ⟨fun _ => Nat.add_pos_right _ hk,
        fun _ => ⟨_, List.mem_append_right _ List.mem_cons_self, rfl⟩⟩
    · rw [if_neg hg, Nat.add_zero (members g), ← ht.present g]
      constructor
      · rintro ⟨e, he, rfl⟩
        rcases List.mem_append.1 he with he | he
        · exact ⟨e, he, rfl⟩
        · obtain rfl := List.mem_singleton.1 he
          exact absurd rfl hg
      · rintro ⟨e, he, rfl⟩
        exact ⟨e, List.mem_append_left _ he, rfl⟩
  · rw [h e.id]
    rcases List.mem_append.1 he with he | he
    · have hle := ht.allocated e he
      rw [if_neg (by omega), Nat.add_zero]
      exact ht.counted e he
    · obtain rfl := List.mem_singleton.1 he
      rw [if_pos rfl, hnone, Nat.zero_add]

end Tally

namespace World

theorem mem_leaveGroup {w : World} {id : Nat} {e : Group} :
    e ∈ (w.leaveGroup id).groups ↔
      (e ∈ w.groups ∧ e.id ≠ id) ∨
        ∃ d ∈ w.groups, d.id = id ∧ 1 < d.live ∧ e = { d with live := d.live - 1 } := by
  simp only [leaveGroup, List.mem_filterMap]
  constructor
  · rintro ⟨d, hd, h⟩
    split at h
    · rename_i hid
      split at h
      · cases h
      · rename_i hlive
        cases h
        exact .inr ⟨d, hd, hid, Nat.lt_of_not_le hlive, rfl⟩
    · rename_i hid
      cases h
      exact .inl ⟨hd, hid⟩
  · rintro (⟨he, hid⟩ | ⟨d, hd, hid, hlive, rfl⟩)
    · exact ⟨e, he, if_neg hid⟩
    · refine ⟨d, hd, ?_⟩
      rw [if_pos hid, if_neg (Nat.not_le_of_lt hlive)]

theorem ids_leaveGroup (w : World) (id : Nat) :
    ((w.leaveGroup id).groups.map (·.id)).Sublist (w.groups.map (·.id)) := by
  simp only [leaveGroup]
  induction w.groups with
  | nil => exact .refl _
  | cons e rest ih =>
    rw [List.filterMap_cons]
    split
    · exact .cons _ ih
    · rename_i d hd
      have hid : d.id = e.id := by
        split at hd
        · split at hd
          · cases hd
          · cases hd
            rfl
        · cases hd
          rfl
      rw [List.map_cons, List.map_cons, hid]
      exact ih.cons_cons _

end World

theorem Tally.left {w : World} {last : Nat} {members members' : Nat → Nat} {id : Nat}
    (ht : Tally w.groups last members)
    (h : ∀ g, members g = members' g + if id = g then 1 else 0) :
    Tally (w.leaveGroup id).groups last members' := by
  have hother : ∀ {g}, g ≠ id → members' g = members g := fun {g} hg => by
    rw [h g, if_neg hg.symm, Nat.add_zero]
  have hself : members id = members' id + 1 := by
    rw [h id, if_pos rfl]
  refine ⟨ht.ids.sublist (w.ids_leaveGroup id), fun e he => ?_, fun g => ?_, fun e he => ?_⟩
  · rcases World.mem_leaveGroup.1 he with ⟨he, -⟩ | ⟨d, hd, -, -, rfl⟩
    · exact ht.allocated e he
    · exact ht.allocated d hd
  · constructor
    · rintro ⟨e, he, rfl⟩
      rcases World.mem_leaveGroup.1 he with ⟨he, hid⟩ | ⟨d, hd, rfl, hlive, rfl⟩
      · rw [hother hid]
        exact (ht.present e.id).1 ⟨e, he, rfl⟩
      · have hc := ht.counted d hd
        dsimp only
        omega
    · intro hg
      by_cases hid : g = id
      · subst hid
        obtain ⟨d, hd, rfl⟩ := (ht.present g).2 (by omega)
        have hc := ht.counted d hd
        exact ⟨_, World.mem_leaveGroup.2 (.inr ⟨d, hd, rfl, by omega, rfl⟩), rfl⟩
      · rw [hother hid] at hg
        obtain ⟨e, he, rfl⟩ := (ht.present g).2 hg
        exact ⟨e, World.mem_leaveGroup.2 (.inl ⟨he, hid⟩), rfl⟩
  · rcases World.mem_leaveGroup.1 he with ⟨he, hid⟩ | ⟨d, hd, rfl, -, rfl⟩
    · rw [hother hid]
      exact ht.counted e he
    · have hc := ht.counted d hd
      dsimp only
      omega

namespace Project

variable {σ : Scope} {p q : Project}

def members (p : Project) (g : Nat) : Nat :=
  p.threads.countP (·.group = g) + p.world.spawns.countP (·.group = g)

def Accounted (p : Project) : Prop := Tally p.world.groups p.world.lastGroup p.members

theorem members_pos_of_thread {t : Thread} (ht : t ∈ p.threads) : 0 < p.members t.group :=
  Nat.add_pos_left (List.countP_pos_iff.2 ⟨t, ht, decide_eq_true rfl⟩) _

theorem members_pos_of_spawn {s : Spawn} (hs : s ∈ p.world.spawns) : 0 < p.members s.group :=
  Nat.add_pos_right _ (List.countP_pos_iff.2 ⟨s, hs, decide_eq_true rfl⟩)

theorem members_updateThread {id : Nat} {change : Thread → Thread}
    (hc : ∀ t : Thread, t.Continues (change t)) (g : Nat) :
    (p.updateThread id change).members g = p.members g := by
  have ht : (p.updateThread id change).threads.countP (·.group = g) =
      p.threads.countP (·.group = g) := by
    simp only [updateThread, List.countP_map]
    refine List.countP_congr fun t _ => ?_
    simp only [Function.comp]
    split
    · rw [(hc t).group]
    · rfl
  exact congrArg (· + _) ht

theorem countP_endThread {ts : List Thread} (hd : (ts.map (·.id)).Nodup) {t : Thread}
    (ht : t ∈ ts) (g : Nat) :
    ts.countP (·.group = g) =
      (ts.filter (·.id ≠ t.id)).countP (·.group = g) + if t.group = g then 1 else 0 := by
  induction ts with
  | nil => cases ht
  | cons u us ih =>
    rw [List.map_cons, List.nodup_cons] at hd
    by_cases hu : u.id = t.id
    · have hrest : us.filter (·.id ≠ t.id) = us := List.filter_eq_self.2 fun v hv => by
        refine decide_eq_true fun he => hd.1 ?_
        exact List.mem_map.2 ⟨v, hv, he.trans hu.symm⟩
      obtain rfl : t = u := by
        rcases List.mem_cons.1 ht with h | h
        · exact h
        · exact absurd (List.mem_map.2 ⟨t, h, hu.symm⟩) hd.1
      rw [List.filter_cons_of_neg (by simp), hrest, List.countP_cons]
      simp only [decide_eq_true_eq]
    · have hne : t ≠ u := fun h => hu (h ▸ rfl)
      have hrest := ih hd.2 ((List.mem_cons.1 ht).resolve_left hne)
      rw [List.filter_cons_of_pos (by simpa using hu), List.countP_cons, List.countP_cons, hrest]
      omega

theorem members_endThread (hp : p.Ranked) {t : Thread} (ht : t ∈ p.threads) (g : Nat) :
    p.members g = (p.endThread t.id).members g + if t.group = g then 1 else 0 := by
  unfold members
  rw [spawns_endThread, threads_endThread, countP_endThread hp.nodup ht g]
  omega

theorem members_queueGroup (starts : List World.Start) (g : Nat) :
    (p.updateWorld fun w => (w.queueGroup starts).2).members g =
      p.members g + if p.world.lastGroup + 1 = g then starts.length else 0 := by
  have hc : (starts.map fun s => (⟨p.world.lastGroup + 1, s.actor, s.owner, s.handler⟩ :
      Spawn)).countP (·.group = g) = if p.world.lastGroup + 1 = g then starts.length else 0 := by
    rw [List.countP_map]
    split
    · rename_i hg
      exact List.countP_eq_length.2 fun s _ => decide_eq_true hg
    · rename_i hg
      exact List.countP_eq_zero.2 fun s _ h => hg (of_decide_eq_true h)
  have ht : (p.updateWorld fun w => (w.queueGroup starts).2).threads = p.threads := rfl
  have hs : (p.updateWorld fun w => (w.queueGroup starts).2).world.spawns =
      p.world.spawns ++ starts.map fun s => ⟨p.world.lastGroup + 1, s.actor, s.owner, s.handler⟩ :=
    World.spawns_queueGroup _ _
  rw [members, members, ht, hs, List.countP_append, hc, Nat.add_assoc]

-- A start that is dropped is missed by its group; one that is launched stays with it.
theorem members_launch {s : Spawn} {rest : List Spawn} (hs : p.world.spawns = s :: rest) (g : Nat) :
    p.members g = if p.world.isLive s.owner
      then ((p.updateWorld fun w => { w with spawns := rest }).launch s).members g
      else ((p.updateWorld fun w => { w with spawns := rest }).launch s).members g +
        if s.group = g then 1 else 0 := by
  have hp : p.members g = p.threads.countP (·.group = g) + rest.countP (·.group = g) +
      if s.group = g then 1 else 0 := by
    simp only [members, hs, List.countP_cons, decide_eq_true_eq]
    omega
  rw [hp]
  by_cases hl : p.world.isLive s.owner
  · have hl' : (p.updateWorld fun w => { w with spawns := rest }).world.isLive s.owner := hl
    rw [if_pos hl, launch_of_live hl']
    simp only [members, updateWorld, List.countP_append, List.countP_singleton, decide_eq_true_eq]
    omega
  · have hl' : ¬ (p.updateWorld fun w => { w with spawns := rest }).world.isLive s.owner := hl
    rw [if_neg hl, launch_of_gone hl']
    rfl

namespace Accounted

theorem of_blank (hp : p.Blank) : p.Accounted := by
  unfold Accounted
  rw [hp.world.groups]
  exact .empty fun g => by simp [members, hp.threads, hp.world.spawns]

theorem same (hp : p.Accounted) (hg : q.world.groups = p.world.groups)
    (hl : q.world.lastGroup = p.world.lastGroup) (hm : ∀ g, q.members g = p.members g) :
    q.Accounted := by
  unfold Accounted
  rw [hg, hl]
  exact hp.congr hm

theorem queueGroup (hp : p.Accounted) (starts : List World.Start) :
    (p.updateWorld fun w => (w.queueGroup starts).2).Accounted := by
  cases starts with
  | nil => exact hp
  | cons s rest => exact hp.opened (Nat.succ_pos _) (members_queueGroup (s :: rest))

theorem endThread (hp : p.Accounted) (hr : p.Ranked) (id : Nat) : (p.endThread id).Accounted := by
  cases ht : p.thread? id with
  | none =>
    have he : p.endThread id = p := by
      unfold Project.endThread
      rw [ht]
    rw [he]
    exact hp
  | some t =>
    have hid : t.id = id := by simpa using List.find?_some ht
    subst hid
    have hm := members_endThread hr (List.mem_of_find?_eq_some ht)
    have hg : (p.endThread t.id).world.groups = (p.world.leaveGroup t.group).groups := by
      unfold Project.endThread
      rw [ht]
    have hl : (p.endThread t.id).world.lastGroup = p.world.lastGroup := by
      unfold Project.endThread
      rw [ht]
      rfl
    unfold Accounted
    rw [hg, hl]
    exact hp.left hm

theorem launched (hp : p.Accounted) {s : Spawn} {rest : List Spawn}
    (hs : p.world.spawns = s :: rest) :
    ((p.updateWorld fun w => { w with spawns := rest }).launch s).Accounted := by
  have hl' : (p.updateWorld fun w => { w with spawns := rest }).world.isLive s.owner =
      p.world.isLive s.owner := rfl
  by_cases hl : p.world.isLive s.owner
  · have hm := fun g => (members_launch hs g).trans (if_pos hl)
    rw [launch_of_live (hl'.trans hl)] at hm ⊢
    exact hp.same rfl rfl fun g => (hm g).symm
  · have hm := fun g => (members_launch hs g).trans (if_neg hl)
    rw [launch_of_gone (hl' ▸ hl)] at hm ⊢
    exact hp.left hm

theorem change (hp : p.Accounted) (hr : p.Ranked) (h : Change σ p q) : q.Accounted := by
  cases h with
  | aside h =>
    refine hp.same h.world.groups ?_ fun g => ?_
    · exact h.world.lastGroup
    · rw [members, h.threads, h.world.spawns]
      rfl
  | mailbox id change =>
    have hc : ∀ t : Thread, t.Continues { t with mailbox := change t.mailbox } := fun _ =>
      ⟨rfl, rfl, rfl, rfl, rfl⟩
    exact hp.same rfl rfl (members_updateThread hc)
  | turn hid h hb => exact hp.same rfl rfl (members_updateThread h)
  | dispatched trigger => exact hp.queueGroup _
  | dispatchedTo trigger owner => exact hp.queueGroup _
  | removed h =>
    rename_i id
    rcases World.deleteInstance_cases p.world id with he | ⟨i, -, -, he⟩
    · rw [updateWorld, he]
      exact hp
    · rw [updateWorld, he]
      exact hp.same rfl rfl fun _ => rfl
  | ended id => exact hp.endThread hr id
  | launched h => exact hp.launched h
  | cleared => exact .empty fun _ => rfl
  | _ => exact hp.same rfl rfl fun _ => rfl

end Accounted

-- The two places where a member leaves: a thread that ends, and a start whose instance is gone.
structure Departures (p : Project) : Prop where
  ended : ∀ t ∈ p.threads, ∃ e ∈ p.world.groups, e.id = t.group ∧ 0 < e.live
  dropped : ∀ {queue rest : List Spawn} {s : Spawn}, p.world.spawns = queue ++ s :: rest →
    let r := queue.foldl launch (p.updateWorld fun w => { w with spawns := [] })
    r.world.isLive s.owner = false → ∃ e ∈ r.world.groups, e.id = s.group ∧ 0 < e.live

end Project

namespace Moment

variable {κ : Conduct} {m m' : Moment} {q r : Project}

theorem Reachable.accounted (hm : Reachable κ m) (hq : Changes (.under κ) m.project q) :
    q.Accounted :=
  hm.invariant (I := Accounted) (fun _ hp => .of_blank hp)
    (fun ho hp h => hp.change ho.toRanked h) hq

theorem Reachable.departures (hm : Reachable κ m) (hq : Changes (.under κ) m.project q) :
    q.Departures where
  ended t ht := by
    have ha := hm.accounted hq
    obtain ⟨e, he, hid⟩ := (ha.present t.group).2 (members_pos_of_thread ht)
    exact ⟨e, he, hid, ha.positive he⟩
  dropped {queue rest s} hs := by
    intro r _
    have ha := hm.accounted (hq.trans (changes_foldl_launch hs))
    have hmem : s ∈ (r.updateWorld fun w => { w with spawns := s :: rest }).world.spawns :=
      List.mem_cons_self
    obtain ⟨e, he, hid⟩ := (ha.present s.group).2 (members_pos_of_spawn hmem)
    exact ⟨e, he, hid, ha.positive he⟩

theorem Reachable.groups_accounted (hm : Reachable κ m) (hq : Changes (.under κ) m.project q) :
    (∀ g, (∃ e ∈ q.world.groups, e.id = g) ↔ 0 < q.members g) ∧
      (∀ e ∈ q.world.groups, e.live = q.members e.id) ∧ (q.world.groups.map (·.id)).Nodup ∧
      q.Departures ∧ Closed κ q :=
  have ha := hm.accounted hq
  ⟨ha.present, ha.counted, ha.ids, hm.departures hq, hm.closed hq⟩

-- In the midst of a scare, when the handler of the new clone is still queued.
theorem haunted_accounted :
    let p := haunted "boo" fun _ => .finish
    let q := (p.answer (.request ⟨1, 1⟩ (.createClone (.member 1)))).2
    q.members 1 = 1 ∧ q.members 2 = 1 ∧ (∃ e ∈ q.world.groups, e.id = 2) ∧
      (∀ e ∈ q.world.groups, e.live = q.members e.id) ∧ q.Departures := by
  intro p q
  have hm : Reachable .any ⟨p, []⟩ :=
    reachable_haunted (fun _ => trivial) (fun _ _ _ => trivial) "boo"
  have hq : Changes (.under .any) p q := changes_answer p _ nofun
  have h := Reachable.groups_accounted hm hq
  have hqueued : q.members 2 = 1 := rfl
  exact ⟨rfl, hqueued, (h.1 2).2 (by rw [hqueued]; exact Nat.one_pos), h.2.1, h.2.2.2.1⟩

end Moment

end SpriteStage

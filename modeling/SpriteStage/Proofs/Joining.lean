import SpriteStage.Proofs.Waiting

namespace SpriteStage

open Project

namespace Project

variable {κ : Conduct} {p q : Project} {t : Thread} {g : Nat}

theorem posts_settle (hs : p.world.stopRequested = false) (hold : ∀ t ∈ p.threads, t.group ≠ g) :
    (p.settle.threads.filter (·.group = g)).map Thread.post =
      ((p.world.spawns.filter (p.world.isLive ·.owner)).map Spawn.post).filter (·.1 = g) := by
  obtain ⟨old, news, hthreads, hsub, hposts, -, -⟩ := threads_settle hs
  have hnone : old.filter (·.group = g) = [] := by
    refine List.filter_eq_nil_iff.2 fun t ht hg => ?_
    exact hold t (hsub.mem ht) (of_decide_eq_true hg)
  rw [hthreads, List.filter_append, hnone, List.nil_append, ← hposts, List.filter_map]
  rfl

theorem isLive_of_starts {w : World} (hw : w.Registered) {trigger : Trigger} {s : World.Start}
    (hs : s ∈ w.starts trigger) : w.isLive s.owner = true := by
  obtain ⟨a, ha, -, -, ho⟩ := World.mem_starts.1 hs
  obtain ⟨i, hi, hid, hact⟩ := (hw.members a ha s.owner).1 ho
  exact World.Owns.isLive ⟨i, hi, hid, hact⟩

-- The spawns of a new group all become threads, and nothing else is in it.
theorem posts_queued {w : World} (hw : w.Registered) {trigger : Trigger} {k : Nat}
    (hold : ∀ s ∈ w.spawns, s.group ≠ k) :
    (((w.spawns ++ (w.starts trigger).map fun s => (⟨k, s.actor, s.owner, s.handler⟩ : Spawn)).filter
      (w.isLive ·.owner)).map Spawn.post).filter (·.1 = k) =
        (w.starts trigger).map fun s => (k, s.actor, s.owner, s.handler.label) := by
  have hnone : ((w.spawns.filter (w.isLive ·.owner)).map Spawn.post).filter (·.1 = k) = [] := by
    refine List.filter_eq_nil_iff.2 fun x hx hk => ?_
    obtain ⟨s, hs, rfl⟩ := List.mem_map.1 hx
    exact hold s (List.mem_of_mem_filter hs) (of_decide_eq_true hk)
  have hlive : ((w.starts trigger).map fun s => (⟨k, s.actor, s.owner, s.handler⟩ : Spawn)).filter
      (w.isLive ·.owner) = (w.starts trigger).map fun s => ⟨k, s.actor, s.owner, s.handler⟩ := by
    refine List.filter_eq_self.2 fun x hx => ?_
    obtain ⟨s, hs, rfl⟩ := List.mem_map.1 hx
    exact isLive_of_starts hw hs
  have hall : ((w.starts trigger).map fun s => (k, s.actor, s.owner, s.handler.label)).filter
      (·.1 = k) = (w.starts trigger).map fun s => (k, s.actor, s.owner, s.handler.label) := by
    refine List.filter_eq_self.2 fun x hx => ?_
    obtain ⟨s, hs, rfl⟩ := List.mem_map.1 hx
    exact decide_eq_true rfl
  rw [List.filter_append, List.map_append, List.filter_append, hnone, hlive, List.nil_append,
    List.map_map]
  exact hall

-- What a thread waits for once it has sent a message: the threads started for it, or a frame.
inductive Joined (message : String) (t : Thread) (p q : Project) : Prop where
  | nobody (hs : t.state = .nextFrame) (h : q.world.starts (.message message) = [])
  | group {g : Nat} (hs : t.state = .group g) (hnew : p.world.lastGroup < g)
      (hle : g ≤ q.world.lastGroup) (hne : q.world.starts (.message message) ≠ [])
      (h : (q.threads.filter (·.group = g)).map Thread.post =
        (q.world.starts (.message message)).map fun s => (g, s.actor, s.owner, s.handler.label))

theorem Joined.joint {message : String} (h : Joined message t p q) : t.state.Joint := by
  cases h with
  | nobody hs h => exact .inl hs
  | group hs hnew hle hne h => exact .inr ⟨_, hs⟩

theorem Joined.group_le {message : String} (h : Joined message t p q) (hg : t.state = .group g) :
    g ≤ q.world.lastGroup := by
  cases h with
  | nobody hs h =>
    rw [hs] at hg
    cases hg
  | group hs hnew hle hne h =>
    rw [hs] at hg
    cases hg
    exact hle

theorem starts_congr {w w' : World} (h : w.SameFolk w') (trigger : Trigger) :
    w'.starts trigger = w.starts trigger := by
  unfold World.starts
  rw [h.actors]

theorem broadcast_of_heard {w : World} {message : String}
    (h : w.starts (.message message) ≠ []) :
    (w.broadcast message).1 = some (w.lastGroup + 1) ∧
      (w.broadcast message).2.lastGroup = w.lastGroup + 1 := by
  have he : (w.starts (.message message)).isEmpty = false := List.isEmpty_eq_false_iff.2 h
  rw [World.broadcast, World.dispatch, World.queueGroup, he]
  exact ⟨rfl, rfl⟩

theorem joined_settle {mid : Project} {message : String} (ha : mid.Accounted)
    (hr : mid.world.Registered) (hl : p.world.lastGroup ≤ mid.world.lastGroup)
    (hw : q.world = (mid.world.broadcast message).2) (hstop : q.world.stopRequested = false)
    (hq : ∀ u ∈ q.threads, u.group ≤ mid.world.lastGroup)
    (hs : ThreadState.ofSuspension? ((mid.world.broadcast message).1.elim .nextFrame .group) =
      some t.state) : Joined message t p q.settle := by
  obtain ⟨-, -, -, -, -, -, hfolk⟩ := threads_settle hstop
  have hsame : q.settle.world.starts (.message message) = mid.world.starts (.message message) := by
    refine (starts_congr hfolk _).trans (starts_congr ?_ _)
    rw [hw]
    exact World.sameFolk_queueGroup _ _
  cases hstarts : mid.world.starts (.message message) with
  | nil =>
    have hgroup : (mid.world.broadcast message).1 = none := by
      rw [World.broadcast, World.dispatch, hstarts]
      rfl
    rw [hgroup] at hs
    exact .nobody (Option.some.inj hs).symm (hsame.trans hstarts)
  | cons s rest =>
    have hne : mid.world.starts (.message message) ≠ [] := hstarts ▸ List.cons_ne_nil _ _
    obtain ⟨hgroup, hlast⟩ := broadcast_of_heard hne
    rw [hgroup] at hs
    have hle : q.world.lastGroup ≤ q.settle.world.lastGroup :=
      Changes.lastGroup_le (changes_settle (σ := idle .any) fun _ _ => trivial)
    rw [hw, hlast] at hle
    have hlive : ∀ id, q.world.isLive id = mid.world.isLive id := fun id => by
      have hi : q.world.instances = mid.world.instances := by
        rw [hw]
        exact World.instances_queueGroup _ _
      exact congrArg (fun is : List Instance => is.any (·.id == id)) hi
    have hspawns : q.world.spawns = mid.world.spawns ++ (mid.world.starts (.message message)).map
        fun s => ⟨mid.world.lastGroup + 1, s.actor, s.owner, s.handler⟩ := by
      rw [hw]
      exact World.spawns_queueGroup _ _
    refine .group (Option.some.inj hs).symm (Nat.lt_succ_of_le hl) hle ?_ ?_
    · rw [hsame]
      exact hne
    · rw [hsame, posts_settle hstop fun u hu => Nat.ne_of_lt (Nat.lt_succ_of_le (hq u hu)), hspawns]
      simp only [hlive]
      refine posts_queued hr fun s hs hg => ?_
      have hpos := members_pos_of_spawn hs
      rw [hg, ha.none_above (Nat.lt_succ_self _)] at hpos
      exact absurd hpos (Nat.lt_irrefl 0)

section Frame

theorem threads_poll (p : Project) : p.poll.threads = p.threads := by
  rw [poll_eq]

theorem threads_launchAll (p : Project) : ∃ news, p.launchAll.threads = p.threads ++ news :=
  let ⟨news, h, _⟩ :=
    threads_foldl_launch p.world.spawns (p.updateWorld fun w => { w with spawns := [] })
  ⟨news, h⟩

theorem threads_prepare (p : Project) : ∃ news, p.prepare.threads = p.threads ++ news := by
  have hpoll : ({ p with frame := p.frame + 1 } : Project).poll.threads = p.threads :=
    threads_poll _
  rw [← hpoll]
  exact threads_launchAll _

theorem pass?_append {laps : Nat} {before after resumed : List Nat}
    (h : pass? laps (before ++ after) p = some (resumed, q)) :
    ∃ earlier later r, pass? laps before p = some (earlier, r) ∧
      pass? laps after r = some (later, q) ∧ resumed = earlier ++ later := by
  induction before generalizing p resumed with
  | nil => exact ⟨[], resumed, p, rfl, h, rfl⟩
  | cons id before ih =>
    obtain ⟨b, r, rest, ht, hp, rfl⟩ := pass?_cons h
    obtain ⟨earlier, later, r', hb, ha, rfl⟩ := ih hp
    refine ⟨if b then id :: earlier else earlier, later, r', ?_, ha, ?_⟩
    · simp only [pass?, ht, hb, Option.map_some]
    · split
      · rfl
      · rfl

theorem mem_of_pass? {laps : Nat} {ids resumed : List Nat}
    (h : pass? laps ids p = some (resumed, q)) : resumed ⊆ ids := by
  induction ids generalizing p resumed with
  | nil =>
    cases h
    exact List.Subset.refl _
  | cons id ids ih =>
    obtain ⟨b, r, rest, -, hp, rfl⟩ := pass?_cons h
    have hsub := ih hp
    split
    · exact List.cons_subset_cons _ hsub
    · exact List.subset_cons_of_subset _ hsub

end Frame

end Project

namespace Moment

variable {κ : Conduct} {m m' : Moment} {t : Thread} {message : String}

structure Issues (message : String) (t : Thread) (m m' : Moment) : Prop where
  resumes : Resumes t.id m m'
  waits : t ∈ m'.project.threads
  joins : t.Joins message

theorem Issues.joined (hi : Issues message t m m') (hm : Reachable κ m) :
    Joined message t m.project m'.project := by
  obtain ⟨hres, ht, next', hbody⟩ := hi
  cases hres with
  | mk h =>
    rename_i laps ids p q
    cases hs : p.thread? t.id with
    | none =>
      rw [turn?_of_gone hs] at h
      cases h
    | some s =>
      have hmem : s ∈ p.threads := List.mem_of_find?_eq_some hs
      have hid : s.id = t.id := id_of_thread? hs
      have hturn : Turn κ p s true q := turn_of_turn? hm.obeys hmem (hid ▸ h)
      obtain ⟨t', -, hpause⟩ := paused_of_turn hturn hm.obeys ht hid.symm
      cases hpause with
      | mk hd hw hst hb hcont hstop =>
        rename_i mid begun wait next suspension
        rw [hb] at hbody
        cases hbody
        simp only [begin, Prod.mk.injEq, Begun.suspends.injEq] at hw
        obtain ⟨rfl, rfl⟩ := hw
        have hmid : Changes (.under κ) p mid := (changes_readiness trivial).trans
          ((changes_woken trivial).trans (changes_of_deeds (licensed_under κ _) hd))
        have hacc := hm.accounted hmid
        refine joined_settle hacc (hm.registered_indexed hmid).1 hmid.lastGroup_le rfl hstop
          (fun u hu => ?_) hst
        have hb : ∀ s : Thread, s.Continues { s with state := t.state, body := t.body } := fun _ =>
          ⟨rfl, rfl, rfl, rfl, rfl⟩
        have hm : ∀ s : Thread, s.Continues { s with mailbox := { s.mailbox with pending := none } } :=
          fun _ => ⟨rfl, rfl, rfl, rfl, rfl⟩
        obtain ⟨v, hv, hvu⟩ := continues_of_mem_updateThread hb hu
        obtain ⟨s, hs, hsv⟩ := continues_of_mem_updateThread hm hv
        rw [hvu.group, hsv.group]
        exact hacc.group_le hs

end Moment

end SpriteStage

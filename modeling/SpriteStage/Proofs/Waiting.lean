import SpriteStage.Proofs.Accounting
import SpriteStage.Proofs.Asking

namespace SpriteStage

open Project

def Thread.Joins (message : String) (t : Thread) : Prop :=
  ∃ next, t.body = .waiting (.broadcastAndWait message) next

def ThreadState.Joint (s : ThreadState) : Prop := s = .nextFrame ∨ ∃ g, s = .group g

namespace Project

variable {σ : Scope} {κ : Conduct} {p q : Project} {t u : Thread} {g : Nat}

def Has (p : Project) (id : Nat) : Prop := ∃ t ∈ p.threads, t.id = id

section Members

theorem members_mono (ht : q.threads.Sublist p.threads)
    (hs : q.world.spawns.Sublist p.world.spawns) : q.members g ≤ p.members g :=
  Nat.add_le_add (ht.countP_le) (hs.countP_le)

theorem Change.members_le (h : Change σ p q) (hg : g ≤ p.world.lastGroup) :
    q.members g ≤ p.members g := by
  have hqueue : ∀ starts, (p.updateWorld fun w => (w.queueGroup starts).2).members g ≤
      p.members g := fun starts => by
    rw [members_queueGroup, if_neg (by omega)]
    exact Nat.le_refl _
  cases h with
  | aside h => exact members_mono (h.threads ▸ .refl _) (h.world.spawns ▸ .refl _)
  | mailbox id change =>
    have hc : ∀ t : Thread, t.Continues { t with mailbox := change t.mailbox } := fun _ =>
      ⟨rfl, rfl, rfl, rfl, rfl⟩
    exact Nat.le_of_eq (members_updateThread hc g)
  | turn hid h hb => exact Nat.le_of_eq (members_updateThread h g)
  | dispatched trigger => exact hqueue _
  | dispatchedTo trigger owner => exact hqueue _
  | removed h =>
    rename_i id
    rcases World.deleteInstance_cases p.world id with he | ⟨i, -, -, he⟩
    · exact Nat.le_of_eq (by rw [updateWorld, he])
    · refine Nat.le_of_eq ?_
      rw [updateWorld, he]
      rfl
  | ended id =>
    refine members_mono ?_ (spawns_endThread p id ▸ .refl _)
    rw [threads_endThread]
    exact List.filter_sublist
  | launched h =>
    rw [members_launch h g]
    split
    · exact Nat.le_refl _
    · exact Nat.le_add_right _ _
  | cleared => exact Nat.zero_le _
  | _ => exact Nat.le_refl _

-- Groups are numbered anew each time, so one that exists only loses members.
theorem Changes.members_le (h : Changes σ p q) (hg : g ≤ p.world.lastGroup) :
    q.members g ≤ p.members g := by
  induction h with
  | refl => exact Nat.le_refl _
  | tail hpr hq ih =>
    exact Nat.le_trans (hq.members_le (Nat.le_trans hg (Changes.lastGroup_le hpr))) ih

theorem Accounted.group_le (hp : p.Accounted) (ht : t ∈ p.threads) :
    t.group ≤ p.world.lastGroup := by
  by_contra hne
  have hpos := members_pos_of_thread ht
  rw [hp.none_above (Nat.lt_of_not_le hne)] at hpos
  exact Nat.lt_irrefl 0 hpos

end Members

section Readiness

def Emptied (p : Project) (s : ThreadState) : Prop := ∀ g, s = .group g → p.members g = 0

theorem any_groups (hp : p.Accounted) : p.world.groups.any (·.id == g) = true ↔ 0 < p.members g := by
  rw [← hp.present g, List.any_eq_true]
  simp only [beq_iff_eq]

theorem readiness_of_joint (hp : p.Accounted) (ht : p.thread? t.id = some t)
    (hl : p.world.isLive t.owner = true) (hs : t.state.Joint) :
    (p.readiness t.id).2 = p ∧ (p.readiness t.id).1 ≠ .orphaned ∧
      ((p.readiness t.id).1 = .due ↔ p.Emptied t.state) := by
  unfold readiness
  rw [ht]
  dsimp only
  rw [if_pos hl]
  rcases hs with hs | ⟨g, hs⟩
  · rw [hs]
    refine ⟨rfl, nofun, fun _ g hg => ?_, fun _ => rfl⟩
    cases hg
  · rw [hs]
    refine ⟨rfl, ?_, ?_⟩
    · dsimp only
      split <;> exact nofun
    · have hany := any_groups (g := g) hp
      dsimp only
      split
      · rename_i hg
        refine ⟨nofun, fun he => absurd (hany.1 hg) ?_⟩
        rw [he g rfl]
        exact Nat.lt_irrefl 0
      · rename_i hg
        refine ⟨fun _ k hk => ?_, fun _ => rfl⟩
        cases hk
        exact Nat.eq_zero_of_not_pos fun h => hg (hany.2 h)

end Readiness

end Project

namespace Moment

variable {κ : Conduct} {m m' n : Moment} {p q : Project} {t u : Thread} {id g : Nat}

inductive Resumes (id : Nat) : Moment → Moment → Prop where
  | mk {laps : Nat} {ids : List Nat} {p q : Project} (h : p.turn? laps id = some (true, q)) :
      Resumes id ⟨p, id :: ids⟩ ⟨q, ids⟩

theorem Resumes.step (h : Resumes id m m') : Step κ m m' := by
  cases h with
  | mk h => exact .turn h

theorem Resumes.head (h : Resumes id m m') : m.turns.head? = some id := by
  cases h with
  | mk h => rfl

def Awaits (κ : Conduct) (id : Nat) (m m' : Moment) : Prop := Step κ m m' ∧ ¬ Resumes id m m'

theorem Awaits.steps (h : Relation.ReflTransGen (Awaits κ id) m m') :
    Relation.ReflTransGen (Step κ) m m' :=
  Relation.ReflTransGen.mono (fun _ _ h => h.1) _ _ h

theorem Reachable.changes_of_steps (hm : Reachable κ m)
    (hs : Relation.ReflTransGen (Step κ) m m') : Changes (.under κ) m.project m'.project := by
  induction hs with
  | refl => exact .refl
  | tail hpr hq ih => exact ih.trans ((hm.steps hpr).changes_of_step hq)

theorem Reachable.continued (hm : Reachable κ m) (hs : Relation.ReflTransGen (Step κ) m m')
    (ht : t ∈ m.project.threads) (hu : u ∈ m'.project.threads) (hid : u.id = t.id) :
    t.Continues u := by
  have hle := hm.obeys.bounded t ht
  obtain ⟨s, hs, hsu⟩ := (hm.changes_of_steps hs).continued hu (hid ▸ hle)
  rwa [hm.obeys.toRanked.eq_of_id ht hs (hsu.id.symm.trans hid)] at hsu

def others (κ : Conduct) (id : Nat) : Scope := ⟨(· ≠ id), fun _ => True, κ, True⟩

-- Nothing but its own resumption touches a thread that waits for a frame or a group.
theorem Step.changes_others (hs : Step κ m m') (hm : Reachable κ m) (hκ : κ.Awaits)
    (ht : t ∈ m.project.threads) (hj : t.state.Joint) (hn : ¬ Resumes t.id m m') :
    Changes (others κ t.id) m.project m'.project := by
  have hopen : (others κ t.id).Open := ⟨fun _ => trivial, trivial⟩
  cases hs with
  | operate h =>
    rename_i p op
    refine changes_apply h hopen p fun {text question rest} _ hq hid => ?_
    have hstate := hm.asked hκ question (hq ▸ List.mem_cons_self) t ht hid.symm
    rcases hj with hj | ⟨g, hj⟩
    · rw [hj] at hstate
      cases hstate
    · rw [hj] at hstate
      cases hstate
  | frame => exact changes_prepare (σ := others κ t.id) trivial _
  | turn h =>
    rename_i laps id ids resumed p q
    cases hu : p.thread? id with
    | none =>
      rw [turn?_of_gone hu] at h
      cases h
      exact .refl
    | some u =>
      obtain rfl := id_of_thread? hu
      have hmem : u ∈ p.threads := List.mem_of_find?_eq_some hu
      have hturn := turn_of_turn? hm.obeys hmem h
      by_cases hid : u.id = t.id
      · obtain rfl := hm.obeys.toRanked.eq_of_id ht hmem hid
        obtain ⟨hr, hno, -⟩ := readiness_of_joint (hm.accounted .refl)
          (hm.obeys.toRanked.thread?_of_mem hmem) (hm.owns hmem).isLive hj
        cases hturn with
        | waits _ => rw [hr]
        | orphaned ho => exact absurd ho hno
        | resumes => exact absurd (.mk h) hn
      · exact changes_turn hturn hm.obeys (licensed_of_awaits (σ := others κ t.id) hκ _) hid hopen

theorem Reachable.stays (hm : Reachable κ m) (hκ : κ.Awaits) (ht : t ∈ m.project.threads)
    (hj : t.state.Joint) (hs : Relation.ReflTransGen (Awaits κ t.id) m m') (hu : u ∈ m'.project.threads)
    (hid : u.id = t.id) : t.Stays u := by
  induction hs generalizing u with
  | refl => exact hm.obeys.toRanked.eq_of_id ht hu hid ▸ .refl u
  | tail hpr hq ih =>
    rename_i r r'
    have hr := hm.steps (Awaits.steps hpr)
    have hle : u.id ≤ r.project.lastThread := by
      rw [hid]
      exact Nat.le_trans (hm.obeys.bounded t ht)
        (hm.changes_of_steps (Awaits.steps hpr)).lastThread_le
    obtain ⟨s, hs, hsu⟩ := (hr.changes_of_step hq.1).continued hu hle
    have hst := ih hs (hsu.id.symm.trans hid)
    have hsj : s.state.Joint := hst.state ▸ hj
    have hothers := hq.1.changes_others hr hκ hs hsj (hst.id ▸ hq.2)
    obtain ⟨s', hs', hs'u⟩ := hothers.stays hu hle (fun h => h (hid.trans hst.id.symm))
    rw [hr.obeys.toRanked.eq_of_id hs hs' (hs'u.id.symm.trans hsu.id)] at hs'u
    exact hst.trans hs'u

-- The turn of a waiting thread, if it has not been ended: it is resumed if the group is empty.
theorem Reachable.turn_of_joint {laps : Nat} {ids : List Nat} {resumed : Bool}
    (hm : Reachable κ ⟨p, t.id :: ids⟩) (hj : t.state.Joint)
    (hs : ∀ u ∈ p.threads, u.id = t.id → t.Stays u)
    (h : p.turn? laps t.id = some (resumed, q)) :
    resumed = true ↔ p.Has t.id ∧ p.Emptied t.state := by
  cases hu : p.thread? t.id with
  | none =>
    rw [turn?_of_gone hu] at h
    cases h
    refine ⟨nofun, fun ⟨⟨u, hum, hid⟩, _⟩ => ?_⟩
    have hid := hid ▸ hm.obeys.toRanked.thread?_of_mem hum
    rw [hu] at hid
    cases hid
  | some u =>
    have hmem : u ∈ p.threads := List.mem_of_find?_eq_some hu
    have hid : u.id = t.id := id_of_thread? hu
    have hst := hs u hmem hid
    obtain ⟨hr, -, hdue⟩ := readiness_of_joint (hm.accounted .refl)
      (hm.obeys.toRanked.thread?_of_mem hmem) (hm.owns hmem).isLive (hst.state ▸ hj)
    rw [hst.state] at hdue
    have hturn : Turn κ p u resumed q := turn_of_turn? hm.obeys hmem (hid ▸ h)
    cases hturn with
    | waits hw =>
      refine ⟨nofun, fun ⟨_, he⟩ => ?_⟩
      rw [hdue.2 he] at hw
      cases hw
    | orphaned ho =>
      refine ⟨nofun, fun ⟨_, he⟩ => ?_⟩
      rw [hdue.2 he] at ho
      cases ho
    | resumes hd => exact ⟨fun _ => ⟨⟨u, hmem, hid⟩, hdue.1 hd⟩, fun _ => rfl⟩

end Moment

end SpriteStage

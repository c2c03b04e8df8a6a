import SpriteStage.Proofs.Seniority

namespace SpriteStage

open Project

-- Waits for a group of which something is left.
def Thread.Blocked (t : Thread) (p : Project) : Prop := ∃ e ∈ p.world.groups, t.state = .group e.id

namespace Project

variable {κ : Conduct} {p q : Project} {t u : Thread}

structure WaitsFor (p : Project) (t u : Thread) : Prop where
  waiter : t ∈ p.threads
  member : u ∈ p.threads
  group : t.state = .group u.group

-- What can be seen from a moment on: calls made from outside, and the course of a resumption.
inductive Midst (κ : Conduct) (p : Project) : Project → Prop where
  | now : Midst κ p p
  | woken (id : Nat) (t : Thread) : Midst κ p ((p.readiness id).2.woken t).2
  | deed {h : Handle} {q r : Project} (hq : Midst κ p q) (hd : Deed κ h q r) : Midst κ p r

namespace Senior

theorem midst (hp : p.Senior) (hq : Midst κ p q) : q.Senior := by
  induction hq with
  | now => exact hp
  | woken id t => exact (hp.readiness id).woken t
  | deed _ hd ih => exact ih.deed hd

theorem lt_of_waitsFor (hp : p.Senior) (h : p.WaitsFor t u) : t.id < u.id :=
  hp.younger t h.waiter u.group (.inl h.group) u h.member rfl

theorem lt_of_waits (hp : p.Senior) (h : Relation.TransGen p.WaitsFor t u) : t.id < u.id := by
  induction h with
  | single h => exact hp.lt_of_waitsFor h
  | tail _ h ih => exact Nat.lt_trans ih (hp.lt_of_waitsFor h)

theorem acyclic (hp : p.Senior) (t : Thread) : ¬ Relation.TransGen p.WaitsFor t t := fun h =>
  Nat.lt_irrefl _ (hp.lt_of_waits h)

-- While nothing is queued every group that is left has a thread.
theorem waitsFor_of_blocked (hp : p.Senior) (hs : p.world.spawns = []) (ht : t ∈ p.threads)
    (hb : t.Blocked p) : ∃ u, p.WaitsFor t u := by
  obtain ⟨e, he, hstate⟩ := hb
  have hpos : 0 < p.members e.id := (hp.accounted.present e.id).1 ⟨e, he, rfl⟩
  rw [members, hs, List.countP_nil, Nat.add_zero] at hpos
  obtain ⟨u, hu, hue⟩ := List.countP_pos_iff.1 hpos
  exact ⟨u, ht, hu, by rw [hstate, of_decide_eq_true hue]⟩

theorem exists_unblocked (hp : p.Senior) (hs : p.world.spawns = []) (ht : t ∈ p.threads) :
    ∃ u ∈ p.threads, Relation.ReflTransGen p.WaitsFor t u ∧ ¬ u.Blocked p := by
  induction hn : p.lastThread - t.id using Nat.strongRecOn generalizing t with
  | _ n ih =>
    by_cases hb : t.Blocked p
    · obtain ⟨u, hw⟩ := hp.waitsFor_of_blocked hs ht hb
      have hlt := hp.lt_of_waitsFor hw
      have hle := hp.ranked.bounded u hw.member
      obtain ⟨v, hv, huv, hfree⟩ := ih (p.lastThread - u.id) (by omega) hw.member rfl
      exact ⟨v, hv, .head hw huv, hfree⟩
    · exact ⟨t, ht, .refl, hb⟩

end Senior

-- A thread whose group is gone is due when its turn comes, as long as it is there.
structure Released (p : Project) (t : Thread) : Prop where
  listed : t ∈ p.prepare.threads
  due : ∀ {laps : Nat} {front back earlier : List Nat} {r : Project},
    p.prepare.threads.map (·.id) = front ++ t.id :: back →
      pass? laps front p.prepare = some (earlier, r) →
        ∀ u ∈ r.threads, u.id = t.id → (r.readiness t.id).1 = .due

end Project

namespace Moment

variable {κ : Conduct} {m : Moment} {p : Project} {t : Thread} {g : Nat}

theorem Reachable.released (hm : Reachable κ ⟨p, []⟩) (ht : t ∈ p.threads)
    (hs : t.state = .group g) (hg : ∀ e ∈ p.world.groups, e.id ≠ g) : p.Released t := by
  have hp := hm.senior
  have hnone : p.members g = 0 := by
    by_contra hne
    obtain ⟨e, he, hid⟩ := (hp.accounted.present g).2 (Nat.pos_of_ne_zero hne)
    exact hg e he hid
  have hle : g ≤ p.world.lastGroup := hp.issued t ht g (.inl hs)
  obtain ⟨news, hnews, -⟩ := threads_prepare_fresh hp.ranked
  have hlisted : t ∈ p.prepare.threads := hnews ▸ List.mem_append_left _ ht
  refine ⟨hlisted, fun {laps front back earlier r} hids hpass u hu hid => ?_⟩
  have hstart : Reachable κ ⟨p.prepare, front ++ t.id :: back⟩ := hids ▸ hm.step .frame
  have hr : Reachable κ ⟨r, t.id :: back⟩ := hstart.steps (path_pass (fun _ ht => .turn ht) hpass)
  have hbound := hstart.obeys.toRanked.bounded
  have hnodup := List.nodup_append.1 hstart.turns_nodup
  have hbefore : t.id ∉ front := fun h => hnodup.2.2 _ h _ List.mem_cons_self rfl
  have hfares := (hstart.fares (fun i hi => by
    obtain ⟨s, hs, rfl⟩ := List.mem_map.1 (hids ▸ List.mem_append_left (t.id :: back) hi)
    exact hbound s hs) hpass).2 u hu
  have hstate : u.state = .group g := by
    cases hfares with
    | resumed h => exact absurd ((sublist_of_pass? hpass).mem h) (hid ▸ hbefore)
    | waited hsm hc hb hn h =>
      obtain rfl := hstart.obeys.toRanked.eq_of_id hlisted hsm (hc.id.symm.trans hid)
      rw [h, if_neg (hid ▸ hbefore), hs]
    | launched hl _ _ _ => exact absurd (hid ▸ hl) (Nat.not_lt_of_le (hbound t hlisted))
  have hchanges : Changes (.under κ) p r := (hm.changes_of_step .frame).trans
    (hstart.changes_of_steps (path_pass (fun _ ht => .turn ht) hpass))
  have hempty : r.members g = 0 := Nat.eq_zero_of_le_zero (hnone ▸ hchanges.members_le hle)
  rw [← hid, due_iff (hr.accounted .refl) (hr.obeys.toRanked.thread?_of_mem hu) (hr.owns hu).isLive,
    Thread.Due, hstate]
  exact hempty

-- Every thread that waits for a group leads to one that does not, and that one is not held up.
theorem Reachable.never_deadlocked (hm : Reachable κ m) :
    (∀ q, Midst κ m.project q →
      (∀ t ∈ q.threads, ∀ g, t.state = .group g → ∀ u ∈ q.threads, u.group = g → t.id < u.id) ∧
        ∀ t, ¬ Relation.TransGen q.WaitsFor t t) ∧
      (∀ t ∈ m.project.threads, ∃ u ∈ m.project.threads,
        Relation.ReflTransGen m.project.WaitsFor t u ∧ ¬ u.Blocked m.project) ∧
      ∀ t ∈ m.project.threads, ¬ t.Blocked m.project →
        (∀ g, t.state ≠ .group g) ∨ (m.turns = [] → m.project.Released t) := by
  have hp := hm.senior
  refine ⟨fun q hq => ?_, fun t ht => hp.exists_unblocked hm.quiet.spawns ht, fun t ht hb => ?_⟩
  · have hsenior := hp.midst hq
    exact ⟨fun t ht g hg => hsenior.younger t ht g (.inl hg), hsenior.acyclic⟩
  · by_cases hs : ∃ g, t.state = .group g
    · obtain ⟨g, hs⟩ := hs
      obtain ⟨p, turns⟩ := m
      refine .inr ?_
      rintro rfl
      exact hm.released ht hs fun e he hid => hb ⟨e, he, hid ▸ hs⟩
    · exact .inl fun g hg => hs ⟨g, hg⟩

end Moment

section Echoing

-- A handler that sends out its own message and waits for whoever hears it.
def echo : ActorClass where
  name := "Echo"
  kind := .sprite
  handlers := [
    ⟨.ok (.message "again"), "repeat", fun _ => .pause (.broadcastAndWait "again") fun _ => .finish⟩]

def echoed : Project :=
  let heard := (({} : Project).register echo .sprite).2.broadcast "again"
  (((heard.prepare.turned 1).prepare.turned 1).turned 2)

namespace Moment

theorem echoed_never_deadlocked :
    echoed.threads.map (fun t => (t.id, t.state)) = [(1, .group 2), (2, .group 3), (3, .runnable)] ∧
      (∀ t ∈ echoed.threads, ∃ u ∈ echoed.threads,
        Relation.ReflTransGen echoed.WaitsFor t u ∧ ¬ u.Blocked echoed) ∧
      ∀ t, ¬ Relation.TransGen echoed.WaitsFor t t := by
  have hnew : Project.new {} = .ok {} := rfl
  have hstart : Reachable .any ⟨{}, []⟩ := .start (.new hnew {} fun _ _ _ => trivial)
  have hregister : Step .any ⟨{}, []⟩ ⟨(Operation.register echo .sprite).apply {}, []⟩ :=
    .operate fun _ _ _ => trivial
  have hsend : ∀ p : Project, Step .any ⟨p, []⟩ ⟨(Operation.broadcast "again").apply p, []⟩ :=
    fun _ => .operate trivial
  have hheard := (hstart.step hregister).step (hsend _)
  have hfirst := (hheard.step .frame).turned (rfl : _ = some true)
  have hsecond := ((hfirst.step .frame).turned (rfl : _ = some false)).turned (rfl : _ = some true)
  have hm : Reachable .any ⟨echoed, []⟩ := hsecond
  have h := Reachable.never_deadlocked hm
  exact ⟨rfl, h.2.1, (h.1 echoed .now).2⟩

end Moment

end Echoing

end SpriteStage

import SpriteStage.Proofs.Broadcast
import SpriteStage.Proofs.Restraint

namespace SpriteStage

open Project

def ThreadState.elapsed (seconds : Float) : ThreadState → ThreadState
  | .timer remaining => .timer (remaining - seconds)
  | state => state

def Thread.elapsed (seconds : Float) (t : Thread) : Thread :=
  { t with state := t.state.elapsed seconds }

def Thread.Due (t : Thread) (p : Project) : Prop :=
  match t.state with
  | .runnable | .nextFrame => True
  | .timer remaining => remaining - p.world.config.frameSeconds ≤ timerTolerance
  | .group g => p.members g = 0
  | .answer _ => False
  | .performance n => p.world.bus.status n ≠ .playing

namespace Project

variable {κ : Conduct} {p q : Project} {t u : Thread}

section Readiness

theorem updateThread_congr {id : Nat} {change change' : Thread → Thread}
    (h : ∀ t ∈ p.threads, t.id = id → change t = change' t) :
    p.updateThread id change = p.updateThread id change' := by
  simp only [updateThread, mk.injEq, and_self, and_true, true_and]
  refine List.map_congr_left fun t ht => ?_
  split
  · rename_i hid
    exact h t ht hid
  · rfl

theorem updateThread_of_fixed {id : Nat} {change : Thread → Thread}
    (h : ∀ t ∈ p.threads, t.id = id → change t = t) : p.updateThread id change = p :=
  (updateThread_congr h).trans (updateThread_self p id)

theorem elapsed_of_untimed (hr : p.Ranked) (ht : t ∈ p.threads) (seconds : Float)
    (hs : t.state.elapsed seconds = t.state) : p.updateThread t.id (·.elapsed seconds) = p := by
  refine updateThread_of_fixed fun u hu hid => ?_
  rw [hr.eq_of_id ht hu hid, Thread.elapsed, hs]

theorem due_iff (hp : p.Accounted) (ht : p.thread? t.id = some t)
    (hl : p.world.isLive t.owner = true) : (p.readiness t.id).1 = .due ↔ t.Due p := by
  unfold readiness Thread.Due
  rw [ht]
  dsimp only
  rw [if_pos hl]
  cases t.state with
  | runnable => exact ⟨fun _ => trivial, fun _ => rfl⟩
  | nextFrame => exact ⟨fun _ => trivial, fun _ => rfl⟩
  | timer remaining =>
    dsimp only
    split
    · rename_i h
      exact ⟨fun _ => h, fun _ => rfl⟩
    · rename_i h
      exact ⟨nofun, fun hd => absurd hd h⟩
  | group g =>
    have hany := any_groups (g := g) hp
    dsimp only
    split
    · rename_i hg
      exact ⟨nofun, fun hd => absurd (hany.1 hg) (hd ▸ Nat.lt_irrefl 0)⟩
    · rename_i hg
      exact ⟨fun _ => Nat.eq_zero_of_not_pos fun h => hg (hany.2 h), fun _ => rfl⟩
  | answer n => exact ⟨nofun, nofun⟩
  | performance n =>
    dsimp only
    split
    · rename_i h
      exact ⟨nofun, fun hd => absurd h hd⟩
    · rename_i h
      exact ⟨fun _ he => (by rw [h] at he; cases he), fun _ => rfl⟩
    · rename_i h
      exact ⟨fun _ he => (by rw [h] at he; cases he), fun _ => rfl⟩

theorem readiness_of_waiting (hr : p.Ranked) (ht : t ∈ p.threads)
    (hw : (p.readiness t.id).1 = .waiting) :
    (p.readiness t.id).2 = p.updateThread t.id (·.elapsed p.world.config.frameSeconds) := by
  have hsame := fun hs => (elapsed_of_untimed hr ht p.world.config.frameSeconds hs).symm
  unfold readiness at hw ⊢
  rw [hr.thread?_of_mem ht] at hw ⊢
  dsimp only at hw ⊢
  split at hw
  · rename_i hl
    rw [if_pos hl]
    cases hs : t.state with
    | timer remaining =>
      refine updateThread_congr fun u hu hid => ?_
      rw [hr.eq_of_id ht hu hid, Thread.elapsed, hs]
      rfl
    | performance n =>
      rw [hs] at hw
      dsimp only at hw ⊢
      split at hw
      · rename_i hp
        exact hsame (by rw [hs]; rfl)
      · cases hw
      · cases hw
    | _ => exact hsame (by rw [hs]; rfl)
  · cases hw

end Readiness

section Turns

theorem lastThread_readiness (p : Project) (id : Nat) :
    (p.readiness id).2.lastThread = p.lastThread := by
  obtain ⟨change, h, -⟩ := readiness_eq_updateThread p id
  rw [h]
  rfl

theorem mem_readiness {id : Nat} (hu : u ∈ (p.readiness id).2.threads) (hid : u.id ≠ id) :
    u ∈ p.threads := by
  obtain ⟨change, h, hc⟩ := readiness_eq_updateThread p id
  rw [h] at hu
  obtain ⟨s, hs, ⟨hsid, rfl⟩ | ⟨-, rfl⟩⟩ := mem_updateThread hu
  · exact absurd ((hc s).1.id.trans hsid) hid
  · exact hs

-- What one turn does to its thread and to the others, whatever is done in it.
structure Passes (p : Project) (id : Nat) (resumed : Bool) (q : Project) : Prop where
  due : resumed = true ↔ ∃ t ∈ p.threads, t.id = id ∧ t.Due p
  waits : resumed = false →
    q = p.updateThread id (·.elapsed p.world.config.frameSeconds)
  others : ∀ u ∈ q.threads, u.id ≠ id →
    (∃ s ∈ p.threads, s.Stays u) ∨ p.lastThread < u.id ∧ u.Fresh
  config : q.world.config = p.world.config
  lastThread : p.lastThread ≤ q.lastThread

theorem passes_of_gone {id : Nat} (hn : p.thread? id = none) : Passes p id false p := by
  have hno : ∀ t ∈ p.threads, t.id ≠ id := fun t ht => by
    simpa using List.find?_eq_none.1 hn t ht
  refine ⟨⟨nofun, fun ⟨t, ht, hid, _⟩ => absurd hid (hno t ht)⟩, fun _ => ?_,
    fun u hu _ => .inl ⟨u, hu, .refl u⟩, rfl, Nat.le_refl _⟩
  exact (updateThread_of_fixed fun t ht hid => absurd hid (hno t ht)).symm

theorem passes_of_turn {resumed : Bool} (hp : p.Obeys κ) (ha : p.Accounted) (ht : t ∈ p.threads)
    (hl : p.world.isLive t.owner = true) (hno : (p.readiness t.id).1 ≠ .orphaned)
    (h : Turn κ p t resumed q) : Passes p t.id resumed q := by
  have hdue := due_iff ha (hp.toRanked.thread?_of_mem ht) hl
  have hlive : (∃ s ∈ p.threads, s.id = t.id ∧ s.Due p) ↔ t.Due p := by
    refine ⟨fun ⟨s, hs, hid, hd⟩ => ?_, fun hd => ⟨t, ht, rfl, hd⟩⟩
    rwa [hp.toRanked.eq_of_id ht hs hid] at hd
  have hworld := world_readiness p t.id
  have hlast := lastThread_readiness p t.id
  cases h with
  | waits hr =>
    have hq := readiness_of_waiting hp.toRanked ht hr
    refine ⟨?_, fun _ => hq, fun u hu hid => .inl ⟨u, mem_readiness hu hid, .refl u⟩, ?_, ?_⟩
    · rw [hlive, ← hdue, hr]
      exact ⟨nofun, nofun⟩
    · rw [hworld]
    · exact Nat.le_of_eq hlast.symm
  | orphaned hr => exact absurd hr hno
  | resumes hr ht' hc hs =>
    rename_i t'
    have hbound : t'.id ≤ (p.readiness t.id).2.lastThread := by
      rw [hc.id, hlast]
      exact hp.bounded t ht
    refine ⟨?_, nofun, fun u hu hid => ?_, ?_, ?_⟩
    · rw [hlive, ← hdue]
      exact ⟨fun _ => hr, fun _ => rfl⟩
    · rcases others_stepped hs hbound hu (hc.id ▸ hid) with ⟨s, hsm, hsu⟩ | ⟨hlt, hf⟩
      · exact .inl ⟨s, mem_readiness hsm (hsu.id ▸ hid), hsu⟩
      · exact .inr ⟨hlast ▸ hlt, hf⟩
    · rw [config_stepped hs, hworld]
    · rw [← hlast]
      exact (changes_stepped (σ := .under κ) hs (obeys_readiness hp t.id).toRanked ht'
        (licensed_under κ _) trivial ⟨fun _ => trivial, trivial⟩).lastThread_le

end Turns

section Pass

-- What has become of a thread when the turns of some of a snapshot have passed.
inductive Fares (p : Project) (before resumed : List Nat) (u : Thread) : Prop where
  | resumed (h : u.id ∈ resumed)
  | waited {s : Thread} (hs : s ∈ p.threads) (hc : s.Continues u) (hb : u.body = s.body)
      (hn : u.id ∉ resumed)
      (h : u.state = if u.id ∈ before then s.state.elapsed p.world.config.frameSeconds else s.state)
  | launched (hl : p.lastThread < u.id) (hs : u.state = .runnable)
      (hb : ∃ behavior, u.body = .start behavior) (hn : u.id ∉ resumed)

theorem sublist_of_pass? {laps : Nat} {ids resumed : List Nat}
    (h : pass? laps ids p = some (resumed, q)) : resumed.Sublist ids := by
  induction ids generalizing p resumed with
  | nil =>
    cases h
    exact .refl _
  | cons id ids ih =>
    obtain ⟨b, r, rest, -, hp, rfl⟩ := pass?_cons h
    cases b with
    | true => exact (ih hp).cons_cons id
    | false => exact (ih hp).cons id

theorem fares_of_passes {r : Project} {id : Nat} {ids later : List Nat} {b : Bool}
    (ht : Passes p id b r) (hid : id ∉ ids) (hb : ∀ i ∈ id :: ids, i ≤ p.lastThread)
    (hsub : (if b then id :: later else later).Sublist (id :: ids)) (hu : r.Fares ids later u) :
    p.Fares (id :: ids) (if b then id :: later else later) u := by
  have hlater : ∀ {i : Nat}, i ≠ id → (i ∈ (if b then id :: later else later) ↔ i ∈ later) := by
    intro i hi
    cases b with
    | true => exact ⟨fun h => (List.mem_cons.1 h).resolve_left hi, List.mem_cons_of_mem _⟩
    | false => exact Iff.rfl
  have hnew : ∀ {i : Nat}, p.lastThread < i → i ∉ id :: ids := fun hl hm =>
    Nat.not_le_of_lt hl (hb _ hm)
  have hnot : ∀ {i : Nat}, p.lastThread < i → i ∉ (if b then id :: later else later) :=
    fun hl hm => hnew hl (hsub.mem hm)
  cases hu with
  | resumed h =>
    refine .resumed ?_
    cases b with
    | true => exact List.mem_cons_of_mem _ h
    | false => exact h
  | launched hl hs hbody hn =>
    have hl := Nat.lt_of_le_of_lt ht.lastThread hl
    exact .launched hl hs hbody (hnot hl)
  | waited hs hc hbody hn h =>
    rename_i s
    rw [ht.config] at h
    by_cases hsid : s.id = id
    · have huid : u.id = id := hc.id.trans hsid
      cases hres : b with
      | true => exact .resumed (huid ▸ List.mem_cons_self)
      | false =>
        rw [ht.waits hres] at hs
        obtain ⟨v, hv, ⟨-, rfl⟩ | ⟨hne, rfl⟩⟩ := mem_updateThread hs
        · rw [if_neg (huid ▸ hid)] at h
          refine .waited hv ⟨hc.id, hc.group, hc.actor, hc.owner, hc.label⟩ hbody hn ?_
          rw [if_pos (huid ▸ List.mem_cons_self), h]
          rfl
        · exact absurd hsid hne
    · have huid : u.id ≠ id := fun he => hsid (hc.id.symm.trans he)
      rcases ht.others s hs hsid with ⟨v, hv, hvs⟩ | ⟨hl, hf⟩
      · refine .waited hv (hvs.toContinues.trans hc) (hbody.trans hvs.body) ?_ ?_
        · rwa [hlater huid]
        · rw [h, hvs.state]
          simp only [List.mem_cons, huid, false_or]
      · have hl : p.lastThread < u.id := hc.id ▸ hl
        have hno : u.id ∉ ids := fun hm => hnew hl (List.mem_cons_of_mem _ hm)
        rw [if_neg hno] at h
        exact .launched hl (h.trans hf.state) (hbody ▸ hf.body) (hnot hl)

end Pass

end Project

namespace Moment

variable {κ : Conduct} {p q : Project}

theorem Reachable.passes {laps id : Nat} {ids : List Nat} {resumed : Bool}
    (hm : Reachable κ ⟨p, id :: ids⟩) (h : p.turn? laps id = some (resumed, q)) :
    Passes p id resumed q := by
  cases ht : p.thread? id with
  | none =>
    rw [turn?_of_gone ht] at h
    cases h
    exact passes_of_gone ht
  | some t =>
    obtain rfl := id_of_thread? ht
    have hmem : t ∈ p.threads := List.mem_of_find?_eq_some ht
    exact passes_of_turn hm.obeys (hm.accounted .refl) hmem (hm.owns hmem).isLive
      (hm.settled.ready t.id) (turn_of_turn? hm.obeys hmem h)

theorem Reachable.fares {laps : Nat} {before rest resumed : List Nat}
    (hm : Reachable κ ⟨p, before ++ rest⟩) (hb : ∀ id ∈ before, id ≤ p.lastThread)
    (h : pass? laps before p = some (resumed, q)) :
    q.world.config = p.world.config ∧ ∀ u ∈ q.threads, p.Fares before resumed u := by
  induction before generalizing p resumed with
  | nil =>
    cases h
    exact ⟨rfl, fun u hu => .waited hu (.refl u) rfl List.not_mem_nil rfl⟩
  | cons id before ih =>
    obtain ⟨b, r, later, hturn, hpass, rfl⟩ := pass?_cons h
    have ht := hm.passes hturn
    have hid : id ∉ before := fun hi =>
      (List.nodup_cons.1 hm.turns_nodup).1 (List.mem_append_left _ hi)
    obtain ⟨hconfig, hfares⟩ := ih (hm.step (.turn hturn))
      (fun i hi => Nat.le_trans (hb i (List.mem_cons_of_mem _ hi)) ht.lastThread) hpass
    exact ⟨hconfig.trans ht.config, fun u hu =>
      fares_of_passes ht hid hb (sublist_of_pass? h) (hfares u hu)⟩

-- A pass over the first threads of a snapshot, and each turn in it.
structure Disciplined (laps : Nat) (p : Project) (before resumed : List Nat) (q : Project) :
    Prop where
  ordered : resumed.Pairwise (· < ·)
  among : resumed.Sublist before
  fares : ∀ u ∈ q.threads, p.Fares before resumed u
  turns : ∀ {front back : List Nat} {id : Nat}, before = front ++ id :: back →
    ∃ earlier r b r', pass? laps front p = some (earlier, r) ∧ r.turn? laps id = some (b, r') ∧
      (id ∈ resumed ↔ b = true) ∧ (b = true ↔ ∃ t ∈ r.threads, t.id = id ∧ t.Due r) ∧
      (∀ t ∈ r.threads, t.id = id → ∃ s ∈ p.threads, s.Stays t) ∧
      (b = false → r' = r.updateThread id (·.elapsed p.world.config.frameSeconds))

theorem Reachable.disciplined {laps : Nat} {before rest resumed : List Nat}
    (hm : Reachable κ ⟨p, before ++ rest⟩) (hp : (p.threads.map (·.id)) = before ++ rest)
    (h : pass? laps before p = some (resumed, q)) : Disciplined laps p before resumed q := by
  have hbound : ∀ id ∈ before, id ≤ p.lastThread := fun id hid => by
    obtain ⟨t, ht, rfl⟩ := List.mem_map.1 (hp ▸ List.mem_append_left rest hid)
    exact hm.obeys.bounded t ht
  have hsub := sublist_of_pass? h
  have hids : (before ++ rest).Pairwise (· < ·) := hp ▸ List.pairwise_map.2 hm.obeys.ordered
  refine ⟨(List.pairwise_append.1 hids).1.sublist hsub, hsub, (hm.fares hbound h).2, ?_⟩
  rintro front back id rfl
  obtain ⟨earlier, later, r, hfront, hback, rfl⟩ := pass?_append h
  rw [List.append_assoc] at hm
  have hreach : Reachable κ ⟨r, id :: back ++ rest⟩ := hm.steps (path_pass (fun _ ht => .turn ht) hfront)
  have hnodup := List.nodup_append.1 hm.turns_nodup
  have hnf : id ∉ front := fun hi => hnodup.2.2 id hi id List.mem_cons_self rfl
  have hnb : id ∉ back := fun hi =>
    (List.nodup_cons.1 hnodup.2.1).1 (List.mem_append_left rest hi)
  obtain ⟨b, r', hturn, hlater⟩ := mem_of_turn hback hnb
  have ht := hreach.passes hturn
  have hne : id ∉ earlier := fun he => hnf (mem_of_pass? hfront he)
  obtain ⟨hconfig, hfares⟩ := hm.fares (fun i hi => hbound i (List.mem_append_left _ hi)) hfront
  refine ⟨earlier, r, b, r', hfront, hturn, ?_, ht.due, fun t htm hid => ?_, fun hb => ?_⟩
  · rw [List.mem_append, hlater]
    exact ⟨fun h => h.resolve_left hne, .inr⟩
  · cases hfares t htm with
    | resumed h => exact absurd (hid ▸ h) hne
    | waited hs hc hbody hn hstate =>
      rw [if_neg (hid ▸ hnf)] at hstate
      exact ⟨_, hs, hc, hstate, hbody⟩
    | launched hl hs hbody hn =>
      have hle := hbound id (List.mem_append_right _ List.mem_cons_self)
      exact absurd (hid ▸ hl) (Nat.not_lt_of_le hle)
  · rw [← hconfig]
    exact ht.waits hb

theorem Reachable.pass_disciplined (hm : Reachable κ ⟨p, []⟩) :
    (∃ news, p.prepare.threads = p.threads ++ news ∧ ∀ u ∈ news, p.lastThread < u.id ∧ u.Fresh) ∧
      p.prepare.world.config = p.world.config ∧
      (∀ {laps : Nat} {before rest resumed : List Nat} {q : Project},
        p.prepare.threads.map (·.id) = before ++ rest →
        pass? laps before p.prepare = some (resumed, q) →
          Disciplined laps p.prepare before resumed q) ∧
      ∀ {laps : Nat} {resumed : List Nat} {q : Project}, p.frame? laps = some (resumed, q) →
        Disciplined laps p.prepare (p.prepare.threads.map (·.id)) resumed q := by
  have hstart : Reachable κ ⟨p.prepare, p.prepare.threads.map (·.id)⟩ := hm.step .frame
  refine ⟨threads_prepare_fresh hm.obeys.toRanked, (sameTerms_prepare p).config,
    fun hids h => ?_, fun h => ?_⟩
  · exact (hids ▸ hstart).disciplined hids h
  · have hids := (List.append_nil (p.prepare.threads.map (·.id))).symm
    exact Reachable.disciplined (hids ▸ hstart) hids h

-- The clone of a scare is launched in the pass and has to wait for the next one.
theorem haunted_disciplined :
    let p := haunted "boo" fun _ => .finish
    ∃ q, p.frame? 1 = some ([1], q) ∧ q.threads.map (·.id) = [2] ∧
      Disciplined 1 p.prepare [1] [1] q := by
  intro p
  have hm : Reachable .any ⟨p, []⟩ :=
    reachable_haunted (fun _ => trivial) (fun _ _ _ => trivial) "boo"
  have hframe : (p.frame? 1).map (fun f => (f.1, f.2.threads.map (·.id))) = some ([1], [2]) := rfl
  obtain ⟨⟨resumed, q⟩, hq, he⟩ := Option.map_eq_some_iff.1 hframe
  obtain ⟨rfl, hids⟩ := Prod.mk.inj he
  exact ⟨q, hq, hids, (Reachable.pass_disciplined hm).2.2.2 hq⟩

end Moment

end SpriteStage

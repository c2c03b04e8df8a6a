import SpriteStage.Proofs.Course
import SpriteStage.Proofs.Obedience

namespace SpriteStage.Project

variable {σ : Scope} {κ : Conduct} {h : Handle} {p q : Project} {t : Thread}

section Step

def leave (p : Project) (t : Thread) : Resumption → Project
  | .finished => p.endThread t.id
  | .failed failure => (p.reportFailure t failure).endThread t.id
  | .suspended suspension body =>
    match ThreadState.ofSuspension? suspension with
    | none => p.endThread t.id
    | some state => p.updateThread t.id fun t => { t with state := state, body := body }

def woken (p : Project) (t : Thread) : Behavior × Project :=
  (p.updateThread t.id fun t => { t with state := .runnable }).wake t

theorem world_leave (p : Project) (t : Thread) (r : Resumption) : ∃ groups questions errors,
    (p.leave t r).world =
      { p.world with groups := groups, questions := questions, errors := errors } := by
  have hend (p : Project) : ∃ groups questions,
      (p.endThread t.id).world = { p.world with groups := groups, questions := questions } := by
    obtain ⟨groups, questions, hw, -⟩ := world_endThread p t.id
    exact ⟨groups, questions, hw⟩
  cases r with
  | finished =>
    obtain ⟨groups, questions, hw⟩ := hend p
    exact ⟨groups, questions, _, hw⟩
  | failed failure =>
    obtain ⟨groups, questions, hw⟩ := hend (p.reportFailure t failure)
    exact ⟨groups, questions, _, hw⟩
  | suspended suspension body =>
    simp only [leave]
    split
    · obtain ⟨groups, questions, hw⟩ := hend p
      exact ⟨groups, questions, _, hw⟩
    · exact ⟨_, _, _, rfl⟩

theorem id_of_thread? {id : Nat} (ht : p.thread? id = some t) : t.id = id := by
  simpa using List.find?_some ht

theorem step?_eq {laps id : Nat} (ht : p.thread? id = some t) :
    p.step? laps id = (runOn? t.handle laps (p.woken t).1 (p.woken t).2).map fun ended =>
      (ended.2.leave t ended.1).settle := by
  obtain rfl := id_of_thread? ht
  unfold step? woken
  rw [ht]
  dsimp only
  generalize runOn? t.handle laps _ _ = ended
  cases ended with
  | none => rfl
  | some ended =>
    obtain ⟨r, last⟩ := ended
    cases r with
    | suspended suspension body =>
      simp only [Option.map_some, leave]
      cases ThreadState.ofSuspension? suspension <;> rfl
    | _ => rfl

theorem step?_eq_some {laps id : Nat} (ht : p.thread? id = some t)
    (hq : p.step? laps id = some q) :
    ∃ r p', runOn? t.handle laps (p.woken t).1 (p.woken t).2 = some (r, p') ∧
      q = (p'.leave t r).settle := by
  rw [step?_eq ht] at hq
  obtain ⟨⟨r, p'⟩, hr, rfl⟩ := Option.map_eq_some_iff.1 hq
  exact ⟨r, p', hr, rfl⟩

theorem changes_woken (ht : σ.turns t.id) : Changes σ p (p.woken t).2 := by
  have hs : Changes σ p (p.updateThread t.id fun t => { t with state := .runnable }) :=
    .single (.turn ht (fun t => ⟨rfl, rfl, rfl, rfl, rfl⟩) fun _ _ _ h => h)
  unfold woken wake
  split
  · exact hs
  · dsimp only
    split
    · exact hs.tail (.mailbox _ _)
    · exact hs

theorem changes_leave (ht : σ.turns t.id) (hs : σ.Open) {r : Resumption}
    (hr : ∀ suspension body, r = .suspended suspension body → body.Keeps σ.conduct t.handle)
    (hu : ∀ u ∈ p.threads, u.id = t.id → u.owner = t.owner) : Changes σ p (p.leave t r) := by
  cases r with
  | finished => exact .single (.ended _)
  | failed failure =>
    exact (Relation.ReflTransGen.single (.reported hs.reports _)).tail (.ended _)
  | suspended suspension body =>
    simp only [leave]
    split
    · exact .single (.ended _)
    · refine .single (.turn ht (fun t => ⟨rfl, rfl, rfl, rfl, rfl⟩) fun u hm hid _ => ?_)
      have hh : u.handle = t.handle := by
        simp only [Thread.handle, hid, hu u hm hid]
      rw [hh]
      exact hr suspension body rfl

theorem keeps_woken (hb : t.body.Keeps κ t.handle) : κ.keeps t.handle (p.woken t).1 := by
  unfold woken wake
  split
  · rename_i b hs
    rw [hs] at hb
    exact hb
  · rename_i wait next hs
    rw [hs] at hb
    exact hb _

theorem library_woken (p : Project) (t : Thread) : (p.woken t).2.library = p.library := by
  unfold woken wake
  split
  · rfl
  · dsimp only
    split <;> rfl

theorem Closes.keeps {r : Resumption} (hc : Closes κ h p r.halt q) {suspension : Suspension}
    {body : Body} (hr : r = .suspended suspension body) : body.Keeps κ h := by
  subst hr
  cases hc with
  | suspended hk hw => exact κ.pause hk

inductive Stepped (κ : Conduct) (p : Project) (t : Thread) : Project → Prop where
  | mk {mid last : Project} {r : Resumption} (hd : Deeds κ t.handle (p.woken t).2 mid)
      (hc : Closes κ t.handle mid r.halt last) : Stepped κ p t (last.leave t r).settle

theorem stepped_of_step? (hp : p.Obeys κ) (ht : t ∈ p.threads) {laps : Nat}
    (hq : p.step? laps t.id = some q) : Stepped κ p t q := by
  obtain ⟨r, last, hr, rfl⟩ := step?_eq_some (hp.toRanked.thread?_of_mem ht) hq
  have hlib : Lawful κ (p.woken t).2.library := by
    rw [library_woken]
    exact hp.lawful
  obtain ⟨mid, hd, hc⟩ := deeds_runOn hr (keeps_woken (hp.bodies t ht)) hlib
  exact .mk hd hc

theorem changes_stepped (hq : Stepped σ.conduct p t q) (hp : p.Ranked) (ht : t ∈ p.threads)
    (hσ : Licensed σ t.handle) (hid : σ.turns t.id) (hs : σ.Open) : Changes σ p q := by
  cases hq with
  | mk hd hc =>
    rename_i mid last r
    have hl := hp.bounded t ht
    have hmid : Changes σ p mid := (changes_woken hid).trans (changes_of_deeds hσ hd)
    have hlast : Changes σ p last :=
      hmid.trans (changes_of_closes hid (hs.removes _) (Nat.le_trans hl hmid.lastThread_le) hc)
    have hu : ∀ u ∈ last.threads, u.id = t.id → u.owner = t.owner := fun u hu huid => by
      obtain ⟨s, hs, hcont⟩ := hlast.continued hu (huid ▸ hl)
      rw [hp.eq_of_id ht hs (hcont.id.symm.trans huid)] at hcont
      exact hcont.owner
    have hleave := changes_leave hid hs (fun _ _ h => hc.keeps h) hu
    exact (hlast.trans hleave).trans (changes_settle fun _ => hs.removes)

end Step

section Turn

theorem updateThread_self (p : Project) (id : Nat) : p.updateThread id (fun t => t) = p := by
  simp only [updateThread, ite_self, List.map_id']

theorem thread?_updateThread {id : Nat} {change : Thread → Thread}
    (hc : ∀ t, (change t).id = t.id) :
    (p.updateThread id change).thread? id = (p.thread? id).map change := by
  unfold thread? updateThread
  induction p.threads with
  | nil => rfl
  | cons t ts ih =>
    by_cases ht : t.id = id
    · simp [ht, hc]
    · simp only [List.map_cons, ht, if_false, List.find?_cons, beq_eq_false_iff_ne.2 ht]
      exact ih

-- Asking whether a thread is due touches its timer or its mailbox at most.
theorem readiness_eq_updateThread (p : Project) (id : Nat) :
    ∃ change : Thread → Thread, (p.readiness id).2 = p.updateThread id change ∧
      ∀ t, t.Continues (change t) ∧ (change t).body = t.body := by
  have hs : ∃ change : Thread → Thread, p = p.updateThread id change ∧
      ∀ t, t.Continues (change t) ∧ (change t).body = t.body :=
    ⟨fun t => t, (updateThread_self p id).symm, fun t => ⟨.refl t, rfl⟩⟩
  unfold readiness
  split
  · exact hs
  · split
    · split
      · exact hs
      · exact hs
      · exact ⟨_, rfl, fun t => ⟨⟨rfl, rfl, rfl, rfl, rfl⟩, rfl⟩⟩
      · exact hs
      · exact hs
      · split
        · exact hs
        · exact hs
        · exact ⟨_, rfl, fun t => ⟨⟨rfl, rfl, rfl, rfl, rfl⟩, rfl⟩⟩
    · exact hs

theorem world_readiness (p : Project) (id : Nat) : (p.readiness id).2.world = p.world := by
  obtain ⟨change, h, -⟩ := readiness_eq_updateThread p id
  rw [h]
  rfl

theorem changes_readiness {id : Nat} (hid : σ.turns id) : Changes σ p (p.readiness id).2 := by
  obtain ⟨change, hr, hc⟩ := readiness_eq_updateThread p id
  rw [hr]
  refine .single (.turn hid (fun u => (hc u).1) fun u _ _ hb => ?_)
  rw [(hc u).2]
  exact hb

theorem obeys_readiness (hp : p.Obeys κ) (id : Nat) : (p.readiness id).2.Obeys κ :=
  hp.changes (σ := .under κ) rfl (changes_readiness trivial)

inductive Turn (κ : Conduct) (p : Project) (t : Thread) : Bool → Project → Prop where
  | waits (hr : (p.readiness t.id).1 = .waiting) : Turn κ p t false (p.readiness t.id).2
  | orphaned (hr : (p.readiness t.id).1 = .orphaned) :
      Turn κ p t false ((p.readiness t.id).2.endThread t.id)
  | resumes {t' : Thread} {q : Project} (hr : (p.readiness t.id).1 = .due)
      (ht : t' ∈ (p.readiness t.id).2.threads) (hc : t.Continues t')
      (hs : Stepped κ (p.readiness t.id).2 t' q) : Turn κ p t true q

theorem turn_of_turn? (hp : p.Obeys κ) (ht : t ∈ p.threads) {laps : Nat} {resumed : Bool}
    (hq : p.turn? laps t.id = some (resumed, q)) : Turn κ p t resumed q := by
  have hobeys := obeys_readiness hp t.id
  obtain ⟨change, hchange, hc⟩ := readiness_eq_updateThread p t.id
  have ht' : change t ∈ (p.readiness t.id).2.threads := by
    rw [hchange]
    exact List.mem_map.2 ⟨t, ht, if_pos rfl⟩
  have hcont := (hc t).1
  unfold turn? at hq
  cases hr : p.readiness t.id with
  | mk readiness p' =>
    rw [hr] at hq hobeys ht'
    have hfst : (p.readiness t.id).1 = readiness := congrArg Prod.fst hr
    obtain rfl : (p.readiness t.id).2 = p' := congrArg Prod.snd hr
    cases readiness with
    | gone =>
      unfold Project.readiness at hr
      rw [hp.toRanked.thread?_of_mem ht] at hr
      dsimp only at hr
      split at hr
      · split at hr <;> try split at hr
        all_goals cases hr
      · cases hr
    | waiting =>
      cases hq
      exact .waits hfst
    | orphaned =>
      cases hq
      exact .orphaned hfst
    | due =>
      obtain ⟨q', hst, hq'⟩ := Option.map_eq_some_iff.1 hq
      cases hq'
      have hst' : (p.readiness t.id).2.step? laps (change t).id = some q := by
        rw [hcont.id]
        exact hst
      exact .resumes hfst ht' hcont (stepped_of_step? hobeys ht' hst')

theorem changes_turn {resumed : Bool} (hq : Turn σ.conduct p t resumed q)
    (hp : p.Obeys σ.conduct) (hσ : Licensed σ t.handle) (hid : σ.turns t.id) (hs : σ.Open) :
    Changes σ p q := by
  have hch : Changes σ p (p.readiness t.id).2 := changes_readiness hid
  cases hq with
  | waits hr => exact hch
  | orphaned hr => exact hch.tail (.ended _)
  | resumes hr ht hc hst =>
    rename_i t'
    have hh : t'.handle = t.handle := by
      rw [Thread.handle, hc.id, hc.owner]
      rfl
    refine hch.trans (changes_stepped hst (obeys_readiness hp t.id).toRanked ht ?_ ?_ hs)
    · rw [hh]
      exact hσ
    · rw [hc.id]
      exact hid

theorem pass?_cons {laps id : Nat} {ids resumed : List Nat}
    (h : pass? laps (id :: ids) p = some (resumed, q)) :
    ∃ (b : Bool) (r : Project) (rest : List Nat), p.turn? laps id = some (b, r) ∧
      pass? laps ids r = some (rest, q) ∧ resumed = if b then id :: rest else rest := by
  unfold pass? at h
  split at h
  · cases h
  · rename_i b r ht
    obtain ⟨⟨rest, q'⟩, hp, hq⟩ := Option.map_eq_some_iff.1 h
    cases hq
    exact ⟨b, r, rest, ht, hp, rfl⟩

theorem turn?_of_gone {laps id : Nat} (hn : p.thread? id = none) :
    p.turn? laps id = some (false, p) := by
  simp [turn?, readiness, hn]

end Turn

end SpriteStage.Project

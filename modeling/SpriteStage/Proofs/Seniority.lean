import SpriteStage.Proofs.Routing

namespace SpriteStage

open Project

-- A thread is bound to the group that it waits for, and to one that it has begun to wait for
-- without pausing yet.
def Thread.BoundTo (t : Thread) (g : Nat) : Prop :=
  t.state = .group g ∨ t.mailbox.pending = some (.group g)

structure Thread.Loosens (t u : Thread) : Prop where
  id : u.id = t.id
  bonds : ∀ {g : Nat}, u.BoundTo g → t.BoundTo g

namespace Thread

variable {t u v : Thread}

theorem Loosens.refl (t : Thread) : t.Loosens t := ⟨rfl, fun h => h⟩

theorem Loosens.trans (h : t.Loosens u) (h' : u.Loosens v) : t.Loosens v :=
  ⟨h'.id.trans h.id, fun hv => h.bonds (h'.bonds hv)⟩

theorem Tends.loosens {own : Nat} (h : t.Tends own u) : t.Loosens u := by
  refine ⟨h.id, fun {g} hg => ?_⟩
  rcases hg with hg | hg
  · exact .inl (h.state.symm.trans hg)
  · rcases h.pending with he | ⟨-, he⟩
    · exact .inr (he.symm.trans hg)
    · rw [he] at hg
      cases hg

theorem Fresh.not_boundTo (h : t.Fresh) {g : Nat} : ¬ t.BoundTo g := by
  rintro (hg | hg)
  · rw [h.state] at hg
    cases hg
  · rw [h.pending] at hg
    cases hg

end Thread

namespace Project

variable {σ : Scope} {κ : Conduct} {h : Handle} {p q : Project} {t u : Thread} {g : Nat}

-- Where a bond of a thread comes from: it was there before, or to a group that was not.
inductive Bond (p q : Project) (u : Thread) (g : Nat) : Prop where
  | kept {t : Thread} (ht : t ∈ p.threads) (hid : t.id = u.id) (h : t.BoundTo g)
  | formed (hp : p.world.lastGroup < g) (hq : g ≤ q.world.lastGroup) (hu : u.id ≤ p.lastThread)

structure Senior (p : Project) : Prop where
  ranked : p.Ranked
  accounted : p.Accounted
  issued : ∀ t ∈ p.threads, ∀ g, t.BoundTo g → g ≤ p.world.lastGroup
  younger : ∀ t ∈ p.threads, ∀ g, t.BoundTo g → ∀ u ∈ p.threads, u.group = g → t.id < u.id

namespace Senior

theorem of_empty (hr : p.Ranked) (ha : p.Accounted) (ht : p.threads = []) : p.Senior := by
  refine ⟨hr, ha, ?_, ?_⟩
  · simp [ht]
  · simp [ht]

-- A group has no older members: they have to be queued after it, and threads are numbered upwards.
theorem keep (hp : p.Senior) (hc : Changes σ p q)
    (hb : ∀ u ∈ q.threads, ∀ g, u.BoundTo g → Bond p q u g) : q.Senior := by
  have hboth : q.Ranked ∧ q.Accounted := by
    clear hb
    induction hc with
    | refl => exact ⟨hp.ranked, hp.accounted⟩
    | tail _ hq ih => exact ⟨ih.1.change hq, ih.2.change ih.1 hq⟩
  refine ⟨hboth.1, hboth.2, fun u hu g hg => ?_, fun u hu g hg v hv hvg => ?_⟩
  · cases hb u hu g hg with
    | kept ht hid hb => exact Nat.le_trans (hp.issued _ ht g hb) hc.lastGroup_le
    | formed hpg hqg hid => exact hqg
  · by_cases hold : v.id ≤ p.lastThread
    · obtain ⟨s, hs, hsv⟩ := hc.continued hv hold
      have hsg : s.group = g := hsv.group.symm.trans hvg
      cases hb u hu g hg with
      | kept ht hid hb =>
        rw [← hid, hsv.id]
        exact hp.younger _ ht g hb s hs hsg
      | formed hpg hqg hid =>
        exact absurd (hp.accounted.group_le hs) (Nat.not_le_of_lt (hsg ▸ hpg))
    · refine Nat.lt_of_le_of_lt ?_ (Nat.lt_of_not_le hold)
      cases hb u hu g hg with
      | kept ht hid hb => exact hid ▸ hp.ranked.bounded _ ht
      | formed hpg hqg hid => exact hid

theorem loosen (hp : p.Senior) (hc : Changes σ p q) (h : Along Thread.Loosens p q) : q.Senior := by
  refine hp.keep hc fun u hu g hg => ?_
  obtain ⟨t, ht, hl⟩ := h.mem hu
  exact .kept ht hl.id.symm (hl.bonds hg)

theorem freshen (hp : p.Senior) (hc : Changes σ p q)
    (hq : ∀ u ∈ q.threads, u ∈ p.threads ∨ p.lastThread < u.id ∧ u.Fresh) : q.Senior := by
  refine hp.keep hc fun u hu g hg => ?_
  rcases hq u hu with hu | ⟨-, hf⟩
  · exact .kept hu rfl hg
  · exact absurd hg hf.not_boundTo

theorem endThread (hp : p.Senior) (id : Nat) : (p.endThread id).Senior := by
  refine hp.freshen (σ := .under .any) (.single (.ended id)) fun u hu => ?_
  rw [threads_endThread] at hu
  exact .inl (List.mem_of_mem_filter hu)

theorem settle (hp : p.Senior) : p.settle.Senior :=
  hp.freshen (σ := .under .any) (changes_settle fun _ _ => trivial) fun _ hu => fresh_settle hu

end Senior

section Resumption

theorem group_of_queueGroup {w : World} {starts : List World.Start}
    (hg : (w.queueGroup starts).1 = some g) :
    g = w.lastGroup + 1 ∧ (w.queueGroup starts).2.lastGroup = g := by
  unfold World.queueGroup at hg ⊢
  split at hg
  · cases hg
  · rename_i hne
    cases hg
    rw [if_neg hne]
    exact ⟨rfl, rfl⟩

theorem group_of_begin {wait : Wait} (hw : p.begin h wait = (.suspends (.group g), q)) :
    (p.world.lastGroup < g ∧ g ≤ q.world.lastGroup) ∨
      ∃ t ∈ p.threads, t.id = h.thread ∧ t.mailbox.pending = some (.group g) := by
  cases wait with
  | broadcastAndWait message =>
    simp only [begin] at hw
    cases hg : (p.world.broadcast message).1 with
    | none =>
      rw [hg] at hw
      cases hw
    | some k =>
      rw [hg] at hw
      cases hw
      obtain ⟨rfl, hlast⟩ := group_of_queueGroup hg
      exact .inl ⟨Nat.lt_succ_self _, Nat.le_of_eq hlast.symm⟩
  | outside =>
    simp only [begin] at hw
    cases ht : p.thread? h.thread with
    | none =>
      rw [ht] at hw
      cases hw
    | some t =>
      rw [ht, Option.bind_some] at hw
      cases hpending : t.mailbox.pending with
      | none =>
        rw [hpending] at hw
        cases hw
      | some suspension =>
        rw [hpending] at hw
        cases hw
        exact .inr ⟨t, List.mem_of_find?_eq_some ht, id_of_thread? ht, hpending⟩
  | yield =>
    simp only [begin] at hw
    split at hw
    · cases hw
    · split at hw <;> cases hw
  | seconds time =>
    simp only [begin] at hw
    split at hw <;> cases hw
  | ask prompt => cases hw
  | playUntilDone name =>
    simp only [begin] at hw
    split at hw <;> cases hw
  | delete =>
    simp only [begin] at hw
    split at hw <;> cases hw
  | stopAll => cases hw

theorem loosens_woken (p : Project) (t : Thread) : Along Thread.Loosens p (p.woken t).2 := by
  let started := p.updateThread t.id fun t => { t with state := .runnable }
  have hstarted : Along Thread.Loosens p started := by
    refine ⟨_, rfl, fun u => ?_⟩
    dsimp only
    split
    · exact ⟨rfl, fun hg => .inr (hg.resolve_left nofun)⟩
    · exact .refl u
  unfold woken wake
  split
  · exact hstarted
  · dsimp only
    split
    · exact hstarted.trans Thread.Loosens.trans (.updateMailbox .refl fun _ _ => ⟨rfl, fun hg => hg⟩)
    · exact hstarted

theorem loosens_answerQuestion (p : Project) (text : String) :
    Along Thread.Loosens p (p.answerQuestion text).2 := by
  unfold answerQuestion
  split
  · exact .of_threads .refl rfl
  · refine ⟨_, rfl, fun u => ?_⟩
    dsimp only
    split
    · exact ⟨rfl, fun hg => .inr (hg.resolve_left nofun)⟩
    · exact .refl u

theorem loosens_readiness (p : Project) (id : Nat) :
    Along Thread.Loosens p (p.readiness id).2 := by
  have hsame : Along Thread.Loosens p p := .of_threads .refl rfl
  unfold readiness
  split
  · exact hsame
  · split
    · split
      · exact hsame
      · exact hsame
      · refine ⟨_, rfl, fun u => ?_⟩
        dsimp only
        split
        · exact ⟨rfl, fun hg => .inr (hg.resolve_left nofun)⟩
        · exact .refl u
      · exact hsame
      · exact hsame
      · split
        · exact hsame
        · exact hsame
        · exact .updateMailbox .refl fun _ _ => ⟨rfl, fun hg => hg⟩
    · exact hsame

-- The group that a wait is for has just been made, or the thread was bound to it before.
theorem Senior.bond (hp : p.Senior) {wait : Wait} {r : Project}
    (hw : p.begin h wait = (.suspends (.group g), q)) (hr : r.world.lastGroup = q.world.lastGroup)
    (hu : ∃ s ∈ q.threads, s.id = u.id) (hid : u.id = h.thread) : Bond p r u g := by
  rcases group_of_begin hw with ⟨hlt, hle⟩ | ⟨t, ht, htid, hpending⟩
  · obtain ⟨s, hs, hsid⟩ := hu
    obtain ⟨t, ht, hst⟩ := (tends_of_begin hw).mem hs
    have htu : t.id = u.id := hst.id.symm.trans hsid
    exact .formed hlt (hr ▸ hle) (htu ▸ hp.ranked.bounded t ht)
  · exact .kept ht (htid.trans hid.symm) (.inr hpending)

theorem bond_of_tends (h : Along (Thread.Tends g) p q) {s : Thread} (hs : s ∈ q.threads)
    (hid : s.id = u.id) {k : Nat} (hk : s.BoundTo k) {r : Project} : Bond p r u k := by
  obtain ⟨t, ht, hst⟩ := h.mem hs
  exact .kept ht (hst.id.symm.trans hid) (hst.loosens.bonds hk)

theorem Senior.starts (hp : p.Senior) {wait : Wait} {suspension : Suspension}
    (hw : p.begin h wait = (.suspends suspension, q))
    (hc : Changes σ p (q.updateMailbox h.thread fun m => { m with pending := some suspension })) :
    (q.updateMailbox h.thread fun m => { m with pending := some suspension }).Senior := by
  refine hp.keep hc fun u hu g hg => ?_
  obtain ⟨s, hs, ⟨hid, rfl⟩ | ⟨-, rfl⟩⟩ := mem_updateThread hu
  · rcases hg with hg | hg
    · refine bond_of_tends (tends_of_begin hw) hs ?_ (.inl hg)
      rfl
    · cases hg
      exact hp.bond hw rfl ⟨s, hs, rfl⟩ hid
  · exact bond_of_tends (tends_of_begin hw) hs rfl hg

theorem Senior.answer (hp : p.Senior) (c : Call) (hc : Changes σ p (p.answer c).2) :
    (p.answer c).2.Senior := by
  by_cases hstart : c.startsWait = false
  · exact hp.loosen hc ((tends_answer hstart 0 p).imp fun _ _ h => h.loosens)
  · cases c with
    | start h wait =>
      cases hw : p.begin h wait with
      | mk begun q =>
        cases begun with
        | passes outcome =>
          simp only [Project.answer, hw] at hc ⊢
          exact hp.loosen hc ((tends_of_begin hw).imp fun _ _ h => h.loosens)
        | suspends suspension =>
          simp only [Project.answer, hw] at hc ⊢
          exact hp.starts hw hc
    | _ => exact absurd rfl hstart

theorem Senior.deed (hp : p.Senior) (hd : Deed κ h p q) : q.Senior := by
  have hc : Changes (.under κ) p q := changes_of_deeds (licensed_under κ h) (.single hd)
  cases hd with
  | call hk => exact hp.answer _ hc
  | passed hw => exact hp.loosen hc ((tends_of_begin hw).imp fun _ _ h => h.loosens)

theorem Senior.deeds (hp : p.Senior) (hd : Deeds κ h p q) : q.Senior := by
  induction hd with
  | refl => exact hp
  | tail _ hq ih => exact ih.deed hq

theorem Senior.woken (hp : p.Senior) (t : Thread) : (p.woken t).2.Senior :=
  hp.loosen (σ := .under .any) (changes_woken trivial) (loosens_woken p t)

theorem Senior.pauses (hp : p.Senior) {wait : Wait} {suspension : Suspension} {state : ThreadState}
    (hw : p.begin h wait = (.suspends suspension, q))
    (hs : ThreadState.ofSuspension? suspension = some state) (body : Body)
    (hc : Changes σ p ((q.updateMailbox h.thread fun m => { m with pending := none }).updateThread
      h.thread fun t => { t with state := state, body := body })) :
    ((q.updateMailbox h.thread fun m => { m with pending := none }).updateThread h.thread fun t =>
      { t with state := state, body := body }).Senior := by
  have hcleared := (tends_of_begin hw).trans .trans (tends_clear q h.thread)
  refine hp.keep hc fun u hu g hg => ?_
  obtain ⟨s, hs', ⟨hid, rfl⟩ | ⟨-, rfl⟩⟩ := mem_updateThread hu
  · rcases hg with hg | hg
    · obtain rfl : state = .group g := hg
      obtain rfl : suspension = .group g := by
        cases suspension <;> cases hs
        rfl
      obtain ⟨v, hv, hvs⟩ := (tends_clear q h.thread).mem hs'
      exact hp.bond hw rfl ⟨v, hv, hvs.id.symm⟩ hid
    · refine bond_of_tends hcleared hs' ?_ (.inr hg)
      rfl
  · exact bond_of_tends hcleared hs' rfl hg

theorem Senior.leave (hp : p.Senior) (hr : t.id ≤ p.lastThread) {r : Resumption}
    (ho : ∀ u ∈ q.threads, u.id = t.id → u.owner = t.owner)
    (hc : Closes κ t.handle p r.halt q) : (q.leave t r).Senior := by
  have hlast : Changes (.under κ) p q := changes_of_closes trivial trivial hr hc
  have hleave : Changes (.under κ) p (q.leave t r) :=
    hlast.trans (changes_leave trivial ⟨fun _ => trivial, trivial⟩ (fun _ _ h => hc.keeps h) ho)
  cases r with
  | finished =>
    cases hc with
    | finished => exact hp.endThread t.id
  | failed failure =>
    cases hc with
    | failed failure =>
      have hreported : (p.reportFailure t failure).Senior := hp.loosen (σ := .under κ)
        (.single (.reported trivial _)) (.of_threads .refl rfl)
      exact hreported.endThread t.id
  | suspended suspension body =>
    have hq : q.Senior := hp.loosen hlast (hc.tends.imp fun _ _ h => h.loosens)
    cases hc with
    | suspended hk hw =>
      simp only [Project.leave] at hleave ⊢
      cases hs : ThreadState.ofSuspension? suspension with
      | none => exact hq.endThread t.id
      | some state =>
        simp only [hs] at hleave
        exact hp.pauses hw hs _ hleave

theorem Senior.stepped (hp : p.Senior) (ht : t ∈ p.threads) (hq : Stepped κ p t q) : q.Senior := by
  cases hq with
  | mk hd hc =>
    rename_i mid last r
    have hmid : mid.Senior := (hp.woken t).deeds hd
    have hbound := hp.ranked.bounded t ht
    have hchanges : Changes (.under κ) p mid :=
      (changes_woken trivial).trans (changes_of_deeds (licensed_under κ _) hd)
    refine Senior.settle (hmid.leave (Nat.le_trans hbound hchanges.lastThread_le) (fun u hu hid => ?_) hc)
    obtain ⟨s, hs, hsu⟩ := (changes_run hbound hd hc).continued hu (hid ▸ hbound)
    obtain rfl := hp.ranked.eq_of_id ht hs (hsu.id.symm.trans hid)
    exact hsu.owner

theorem Senior.readiness (hp : p.Senior) (id : Nat) : (p.readiness id).2.Senior :=
  hp.loosen (σ := .under .any) (changes_readiness trivial) (loosens_readiness p id)

theorem Senior.turn (hp : p.Senior) {resumed : Bool} (h : Turn κ p t resumed q) : q.Senior := by
  have hr := hp.readiness t.id
  cases h with
  | waits _ => exact hr
  | orphaned _ => exact hr.endThread t.id
  | resumes _ ht _ hs => exact hr.stepped ht hs

end Resumption

end Project

namespace Moment

variable {κ : Conduct} {m m' : Moment}

theorem Start.empty {p : Project} (h : Start κ p) : p.threads = [] := by
  cases h with
  | new h bus hl => exact (blank_of_new h).threads
  | script h hl hj =>
    exact load_invariant (I := fun p => p.threads = []) (fun p _ hp _ => hp.threads)
      (fun p c kind _ hp => (threads_register p c kind).trans hp) h

theorem Step.senior (hs : Step κ m m') (hm : Reachable κ m) (hp : m.project.Senior) :
    m'.project.Senior := by
  have hc := hm.changes_of_step hs
  cases hs with
  | operate h =>
    rename_i p op
    by_cases hop : ∃ text, op = .answer text
    · obtain ⟨text, rfl⟩ := hop
      exact hp.loosen hc (loosens_answerQuestion p text)
    · exact hp.freshen hc fun u hu => fresh_apply (fun text he => hop ⟨text, he⟩) hu
  | frame =>
    obtain ⟨news, hnews, hfresh⟩ := threads_prepare_fresh hm.obeys.toRanked
    refine hp.freshen hc fun u hu => ?_
    rw [hnews] at hu
    exact (List.mem_append.1 hu).imp_right (hfresh u)
  | turn h =>
    rename_i laps id ids resumed p q
    cases ht : p.thread? id with
    | none =>
      rw [turn?_of_gone ht] at h
      cases h
      exact hp
    | some t =>
      obtain rfl := id_of_thread? ht
      exact hp.turn (turn_of_turn? hm.obeys (List.mem_of_find?_eq_some ht) h)

theorem Reachable.senior (hm : Reachable κ m) : m.project.Senior := by
  refine hm.induction (motive := fun m => m.project.Senior) (fun {p} h => ?_)
    fun hm hs ih => hs.senior hm ih
  have hp : Reachable κ ⟨p, []⟩ := .start h
  exact .of_empty hp.obeys.toRanked (hp.accounted .refl) h.empty

end Moment

end SpriteStage

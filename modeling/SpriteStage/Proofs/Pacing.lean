import SpriteStage.Proofs.Lapping

namespace SpriteStage

open Project

-- The thread whose loop rates a call is about.
def Call.paced? : Call → Option Handle
  | .pushRate h _ => some h
  | .popRate h => some h
  | _ => none

-- Nobody but the thread itself sets its loop rates.
def Conduct.Paces (κ : Conduct) (id : Nat) : Prop :=
  ∀ (h : Handle) (c : Call) (next : c.Reply → Behavior), κ.keeps h (.call c next) →
    ∀ k, c.paced? = some k → k.thread = id → h.thread = id

-- What the turn of another thread leaves alone.
structure Thread.Spares (spared : Nat) (t t' : Thread) : Prop extends t.Stays t' where
  mailbox : t.id = spared → t'.mailbox = t.mailbox

theorem Thread.Spares.refl (id : Nat) (t : Thread) : t.Spares id t := ⟨.refl t, fun _ => rfl⟩

theorem Thread.Spares.trans {id : Nat} {t t' t'' : Thread} (h : t.Spares id t')
    (h' : t'.Spares id t'') : t.Spares id t'' :=
  ⟨h.toStays.trans h'.toStays, fun hid => (h'.mailbox (h.id.trans hid)).trans (h.mailbox hid)⟩

namespace Project

variable {κ : Conduct} {h : Handle} {p q : Project} {t u : Thread} {id : Nat}

section Others

theorem spares_updateMailbox {own : Nat} (hne : own ≠ id) (change : Mailbox → Mailbox)
    (p : Project) : Along (Thread.Spares id) p (p.updateMailbox own change) :=
  .updateMailbox (.refl id) fun _ hid =>
    ⟨⟨⟨rfl, rfl, rfl, rfl, rfl⟩, rfl, rfl⟩, fun he => absurd (hid.symm.trans he) hne⟩

theorem spares_begin (hne : h.thread ≠ id) (p : Project) (wait : Wait) :
    Along (Thread.Spares id) p (p.begin h wait).2 := by
  have hsame : ∀ {q : Project}, q.threads = p.threads → Along (Thread.Spares id) p q :=
    .of_threads (.refl _)
  cases wait with
  | yield =>
    simp only [begin]
    split
    · exact hsame rfl
    · split <;> exact spares_updateMailbox hne _ p
  | seconds time =>
    simp only [begin]
    split <;> exact hsame rfl
  | playUntilDone name =>
    simp only [begin]
    split <;> exact hsame rfl
  | delete =>
    simp only [begin]
    split
    · exact (hsame rfl).trans .trans (spares_updateMailbox hne _ _)
    · exact hsame rfl
  | _ => exact hsame rfl

theorem spares_of_begin {wait : Wait} {begun : Begun wait.Reply} (hne : h.thread ≠ id)
    (hw : p.begin h wait = (begun, q)) : Along (Thread.Spares id) p q := by
  have hb := spares_begin hne p wait
  rwa [hw] at hb

theorem spares_answer {c : Call} (hc : c.startsWait = false)
    (hk : ∀ k, c.paced? = some k → k.thread ≠ id) (p : Project) :
    Along (Thread.Spares id) p (p.answer c).2 := by
  cases c with
  | request h r =>
    simp only [answer]
    split <;> exact .of_threads (.refl _) rfl
  | pushRate h perFrame => exact spares_updateMailbox (hk h rfl) _ p
  | popRate h => exact spares_updateMailbox (hk h rfl) _ p
  | start h wait => cases hc
  | _ => exact .of_threads (.refl _) rfl

theorem Deeds.spares (hκ : κ.Awaits) (hπ : κ.Paces id) (hne : h.thread ≠ id) (hd : Deeds κ h p q) :
    Along (Thread.Spares id) p q := by
  induction hd with
  | refl => exact .of_threads (.refl _) rfl
  | tail _ hq ih =>
    refine ih.trans .trans ?_
    cases hq with
    | call hc => exact spares_answer (hκ _ _ _ hc) (fun k hk he => hne (hπ _ _ _ hc k hk he)) _
    | passed hw => exact spares_of_begin hne hw

theorem Closes.spares {halt : Halt} (hne : h.thread ≠ id) (hc : Closes κ h p halt q) :
    Along (Thread.Spares id) p q := by
  cases hc with
  | suspended hk hw => exact (spares_of_begin hne hw).trans .trans (spares_updateMailbox hne _ _)
  | _ => exact .of_threads (.refl _) rfl

theorem others_spared (hκ : κ.Awaits) (hπ : κ.Paces u.id) (hq : Stepped κ p t q)
    (hp : t.id ≤ p.lastThread) (hu : u ∈ q.threads) (hid : u.id ≠ t.id) :
    (∃ s ∈ p.threads, s.Spares u.id u) ∨ p.lastThread < u.id ∧ u.Fresh := by
  cases hq with
  | mk hd hc =>
    have hrun := (hd.spares hκ hπ hid.symm).trans .trans (hc.spares hid.symm)
    exact others_settled (fun _ _ h => h.id) hrun (changes_run hp hd hc).lastThread_le hu hid

end Others

end Project

-- A thread that is due whatever happens in the meantime.
def ThreadState.Ready (s : ThreadState) : Prop := s = .runnable ∨ s = .nextFrame

namespace Moment

variable {κ : Conduct} {a m n : Moment} {p q : Project} {t u : Thread} {k : Nat}
  {es : List Exchange}

theorem Reachable.due_of_ready {laps : Nat} {ids : List Nat} {resumed : Bool}
    (hm : Reachable κ ⟨p, t.id :: ids⟩) (hs : t.state.Ready)
    (hst : ∀ u ∈ p.threads, u.id = t.id → u.state = t.state)
    (h : p.turn? laps t.id = some (resumed, q)) : resumed = true ↔ p.Has t.id := by
  rw [(hm.passes h).due]
  refine ⟨fun ⟨u, hu, hid, _⟩ => ⟨u, hu, hid⟩, fun ⟨u, hu, hid⟩ => ⟨u, hu, hid, ?_⟩⟩
  rw [Thread.Due, hst u hu hid]
  rcases hs with hs | hs <;> rw [hs] <;> trivial

-- Whatever the turn of another thread does, it does to that thread, to new ones and to the world.
theorem Reachable.spared_turn {first laps : Nat} {ids : List Nat} {resumed : Bool}
    (hm : Reachable κ ⟨p, first :: ids⟩) (hκ : κ.Awaits) (hπ : κ.Paces t.id) (ht : t ∈ p.threads)
    (hne : first ≠ t.id) (h : p.turn? laps first = some (resumed, q)) (hu : u ∈ q.threads)
    (hid : u.id = t.id) : t.Stays u ∧ u.mailbox = t.mailbox := by
  have hsame : u ∈ p.threads → t.Stays u ∧ u.mailbox = t.mailbox := fun hu => by
    rw [hm.obeys.toRanked.eq_of_id ht hu hid]
    exact ⟨.refl t, rfl⟩
  cases resumed with
  | false =>
    rw [(hm.passes h).waits rfl] at hu
    obtain ⟨v, hv, ⟨hvid, rfl⟩ | ⟨-, rfl⟩⟩ := mem_updateThread hu
    · exact absurd (hvid.symm.trans hid) hne
    · exact hsame hv
  | true =>
    obtain ⟨s, hs, rfl, hturn⟩ := (Resumes.mk h).turn hm
    cases hturn with
    | resumes hdue hs' hc hstep =>
      rename_i s'
      have hlast := lastThread_readiness p s.id
      have hbound : s'.id ≤ (p.readiness s.id).2.lastThread := by
        rw [hc.id, hlast]
        exact hm.obeys.bounded s hs
      have hother : u.id ≠ s'.id := fun he => hne (hc.id.symm.trans (he.symm.trans hid))
      rcases others_spared hκ (hid ▸ hπ) hstep hbound hu hother with ⟨v, hv, hvu⟩ | ⟨hl, -⟩
      · have hvid : v.id ≠ s'.id := hvu.id ▸ hother
        have hvt := hm.obeys.toRanked.eq_of_id ht (mem_readiness hv (hc.id ▸ hvid))
          (hvu.id.symm.trans hid)
        exact hvt ▸ ⟨hvu.toStays, hvu.mailbox hvu.id.symm⟩
      · rw [hid, hlast] at hl
        exact absurd (hm.obeys.bounded t ht) (Nat.not_le_of_lt hl)

-- Nothing but its own resumption reaches a thread that is ready, not even in its mailbox.
theorem Step.spares (hs : Step κ m n) (hm : Reachable κ m) (hκ : κ.Awaits) (hπ : κ.Paces t.id)
    (ht : t ∈ m.project.threads) (hr : t.state.Ready) (hn : ¬ Resumes t.id m n)
    (hu : u ∈ n.project.threads) (hid : u.id = t.id) : t.Stays u ∧ u.mailbox = t.mailbox := by
  cases hs with
  | operate h =>
    have hnone : ∀ k, t.state ≠ .answer k := fun k hk => by
      rcases hr with hr | hr <;> rw [hr] at hk <;> cases hk
    rw [hm.spared_apply hκ ht hnone hu hid]
    exact ⟨.refl t, rfl⟩
  | frame =>
    rw [hm.spared_prepare ht hu hid]
    exact ⟨.refl t, rfl⟩
  | turn h =>
    rename_i laps first ids resumed p q
    by_cases hfirst : first = t.id
    · subst hfirst
      have hst : ∀ u ∈ p.threads, u.id = t.id → u.state = t.state := fun u hu hid => by
        rw [hm.obeys.toRanked.eq_of_id ht hu hid]
      obtain rfl := (hm.due_of_ready hr hst h).2 ⟨t, ht, rfl⟩
      exact absurd (.mk h) hn
    · exact hm.spared_turn hκ hπ ht hfirst h hu hid

end Moment

def Thread.Collects (t : Thread) : Prop :=
  ∃ wait next, t.body = .waiting wait next ∧ wait.collects = true

-- Between the turns a mailbox holds a result only for a wait that takes it out.
structure Thread.Calm (t : Thread) : Prop where
  pending : t.mailbox.pending = none
  resume : t.mailbox.resume = none ∨ t.Collects
  performing : ∀ n, t.state = .performance n → t.Collects

-- Its own resumption leaves nothing in the mailbox of a thread.
structure Thread.Cleared (t : Thread) : Prop where
  pending : t.mailbox.pending = none
  resume : t.mailbox.resume = none
  performing : ∀ n, t.state = .performance n → t.Collects

theorem Thread.Cleared.calm {t : Thread} (h : t.Cleared) : t.Calm :=
  ⟨h.pending, .inl h.resume, h.performing⟩

theorem Thread.Fresh.calm {t : Thread} (h : t.Fresh) : t.Calm := by
  refine ⟨h.pending, .inl h.resume, fun n hn => ?_⟩
  rw [h.state] at hn
  cases hn

theorem Thread.Asks.collects {t : Thread} (h : t.Asks) : t.Collects :=
  let ⟨_, _, hb⟩ := h
  ⟨_, _, hb, rfl⟩

theorem ThreadState.performance_of_elapsed {s : ThreadState} {seconds : Float} {n : Nat}
    (h : s.elapsed seconds = .performance n) : s = .performance n := by
  cases s <;> first | exact h | cases h

namespace Project

variable {κ : Conduct} {h : Handle} {p q : Project} {t u : Thread} {m : Mailbox}

section Mailboxes

def Hushed (p : Project) (id : Nat) : Prop :=
  ∀ u ∈ p.threads, u.id = id → u.mailbox.pending = none ∧ u.mailbox.resume = none

theorem Hushed.along {id own : Nat} (hp : p.Hushed id) (hq : Along (Thread.Tends own) p q) :
    q.Hushed id := by
  intro u hu hid
  obtain ⟨t, ht, hs⟩ := hq.mem hu
  obtain ⟨hpending, hresume⟩ := hp t ht (hs.id.symm.trans hid)
  refine ⟨?_, ?_⟩
  · rcases hs.pending with he | ⟨-, he⟩
    · exact he.trans hpending
    · exact he
  · rcases hs.resume with he | ⟨-, he⟩
    · exact he.trans hresume
    · exact he

theorem Hushed.collects (hp : p.Hushed h.thread) {wait : Wait} {n : Nat}
    (hw : p.begin h wait = (.suspends (.performance n), q)) : wait.collects = true := by
  cases wait with
  | outside =>
    simp only [begin] at hw
    cases ht : p.thread? h.thread with
    | none =>
      rw [ht] at hw
      cases hw
    | some t =>
      have hnone := (hp t (List.mem_of_find?_eq_some ht) (id_of_thread? ht)).1
      rw [ht, Option.bind_some, hnone] at hw
      cases hw
  | _ => rfl

theorem calm_readiness (hp : ∀ t ∈ p.threads, t.Calm) (hr : p.Ranked) {id : Nat}
    (hu : u ∈ (p.readiness id).2.threads) :
    u.mailbox.pending = none ∧ (u.mailbox.resume = none ∨ u.Collects) := by
  have hsame : u ∈ p.threads → u.mailbox.pending = none ∧ (u.mailbox.resume = none ∨ u.Collects) :=
    fun hu => ⟨(hp u hu).pending, (hp u hu).resume⟩
  unfold readiness at hu
  split at hu
  · exact hsame hu
  · rename_i t ht
    obtain rfl := id_of_thread? ht
    have hmem : t ∈ p.threads := List.mem_of_find?_eq_some ht
    split at hu
    · cases hs : t.state with
      | timer remaining =>
        rw [hs] at hu
        obtain ⟨s, hsm, ⟨-, rfl⟩ | ⟨-, rfl⟩⟩ := mem_updateThread hu
        · exact ⟨(hp s hsm).pending, (hp s hsm).resume⟩
        · exact hsame hsm
      | performance n =>
        rw [hs] at hu
        dsimp only at hu
        split at hu
        · exact hsame hu
        · exact hsame hu
        · obtain ⟨s, hsm, ⟨hid, rfl⟩ | ⟨-, rfl⟩⟩ := mem_updateThread hu
          · obtain rfl := hr.eq_of_id hmem hsm hid
            exact ⟨(hp s hsm).pending, .inr ((hp s hsm).performing n hs)⟩
          · exact hsame hsm
      | _ =>
        rw [hs] at hu
        exact hsame hu
    · exact hsame hu

theorem carries_woken (hr : p.Ranked) (ht : t ∈ p.threads) (hc : t.mailbox.resume = none ∨ t.Collects) :
    ∃ m, (p.woken t).2.Carries t.id m ∧ m.pending = t.mailbox.pending ∧ m.resume = none ∧
      m.rates = t.mailbox.rates := by
  have hstarted : (p.updateThread t.id fun t => { t with state := .runnable }).Carries t.id
      t.mailbox := (Carries.of_mem hr ht).updateThread (by intro; rfl) (by intro; rfl) t.id
  unfold woken wake
  split
  · rename_i b hb
    refine ⟨_, hstarted, rfl, hc.resolve_right fun ⟨wait, next, hw, _⟩ => ?_, rfl⟩
    rw [hw] at hb
    cases hb
  · rename_i wait next hb
    dsimp only
    split
    · exact ⟨_, hstarted.updateMailbox _, rfl, rfl, rfl⟩
    · rename_i hn
      refine ⟨_, hstarted, rfl, hc.resolve_right fun ⟨wait', next', hw, hcol⟩ => hn ?_, rfl⟩
      rw [hw] at hb
      cases hb
      exact hcol

theorem Carries.hushed {id : Nat} (hc : p.Carries id m) (hp : m.pending = none)
    (hr : m.resume = none) : p.Hushed id := fun u hu hid => by
  rw [hc.only u hu hid]
  exact ⟨hp, hr⟩

-- How a thread that outlives its resumption has been left.
theorem mem_left {r : Resumption} (hu : u ∈ (p.leave t r).settle.threads) (hid : u.id = t.id)
    (hl : u.id ≤ p.lastThread) : ∃ suspension body state, r = .suspended suspension body ∧
      ThreadState.ofSuspension? suspension = some state ∧
      ∃ s ∈ p.threads, s.id = t.id ∧ u = { s with state := state, body := body } := by
  obtain ⟨hu, -⟩ := mem_settle hu (by rwa [lastThread_leave])
  have hgone : ∀ {q : Project}, u ∉ (q.endThread t.id).threads := fun {q} hm => by
    rw [threads_endThread] at hm
    exact absurd hid (of_decide_eq_true (List.mem_filter.1 hm).2)
  cases r with
  | finished => exact absurd hu hgone
  | failed failure => exact absurd hu hgone
  | suspended suspension body =>
    simp only [leave] at hu
    split at hu
    · exact absurd hu hgone
    · rename_i state hs
      obtain ⟨s, hsm, ⟨hsid, rfl⟩ | ⟨hne, rfl⟩⟩ := mem_updateThread hu
      · exact ⟨suspension, body, state, rfl, hs, s, hsm, hsid, rfl⟩
      · exact absurd hid hne

theorem cleared_stepped (hκ : κ.Awaits) (hr : p.Ranked) (ht : t ∈ p.threads)
    (hpend : t.mailbox.pending = none) (hc : t.mailbox.resume = none ∨ t.Collects)
    (hq : Stepped κ p t q) (hu : u ∈ q.threads) (hid : u.id = t.id) : u.Cleared := by
  obtain ⟨m, hcarries, hmp, hmr, -⟩ := carries_woken hr ht hc
  cases hq with
  | mk hd hcl =>
    rename_i mid last r
    have hle := Nat.le_trans (hid ▸ hr.bounded t ht) (changes_run (hr.bounded t ht) hd hcl).lastThread_le
    obtain ⟨suspension, body, state, rfl, hs, s, hsm, hsid, rfl⟩ := mem_left hu hid hle
    have hmid : mid.Hushed t.id := (hcarries.hushed (hmp.trans hpend) hmr).along (hd.tends hκ).1
    obtain ⟨hpending, hresume⟩ := hmid.along hcl.tends s hsm hsid
    refine ⟨hpending, hresume, fun n hn => ?_⟩
    cases hcl with
    | suspended hk hw =>
      rename_i wait next begun
      cases suspension <;> cases hs <;> cases hn
      exact ⟨wait, next, rfl, hmid.collects hw⟩

end Mailboxes

end Project

namespace Moment

variable {κ : Conduct} {m n : Moment} {p q : Project} {t u : Thread}

theorem cleared_of_resumes (hm : Reachable κ m) (hκ : κ.Awaits)
    (hc : ∀ t ∈ m.project.threads, t.Calm) (h : Resumes u.id m n) (hu : u ∈ n.project.threads) :
    u.Cleared := by
  obtain ⟨t, ht, hid, hturn⟩ := h.turn hm
  cases hturn with
  | resumes hdue ht' hcont hs =>
    obtain ⟨hpending, hresume⟩ := calm_readiness hc hm.obeys.toRanked ht'
    exact cleared_stepped hκ (obeys_readiness hm.obeys t.id).toRanked ht' hpending hresume hs hu
      (hid.symm.trans hcont.id.symm)

theorem Reachable.calm (hm : Reachable κ m) (hκ : κ.Awaits) : ∀ t ∈ m.project.threads, t.Calm := by
  refine hm.induction (motive := fun m => ∀ t ∈ m.project.threads, t.Calm) (fun hs t ht => ?_)
    fun {m n} hm hs ih u hu => ?_
  · rw [hs.threads] at ht
    cases ht
  · have hpending := (((hm.step hs).attentive hκ).attuned u hu).pending
    cases hs.comes hm hκ hu with
    | fresh hl hf => exact hf.calm
    | kept hs hc hb hr h =>
      rename_i s
      have hcollects : s.Collects → u.Collects := fun ⟨wait, next, hw, h⟩ =>
        ⟨wait, next, hb.trans hw, h⟩
      refine ⟨hpending, ?_, fun n hn => hcollects ((ih s hs).performing n ?_)⟩
      · rw [hr]
        exact (ih s hs).resume.imp_right hcollects
      · rcases h with h | ⟨seconds, h⟩
        · exact h.symm.trans hn
        · exact ThreadState.performance_of_elapsed (h.symm.trans hn)
    | answered hs hq hid hu' hm' =>
      rename_i s k rest text
      subst hu'
      obtain ⟨t, ht, htid, -, hstate⟩ := (hm.attentive hκ).askers k (hq ▸ List.mem_cons_self)
      obtain rfl := hm.obeys.toRanked.eq_of_id hs ht (htid.trans hid.symm)
      have hasks : t.Asks := ((hm.attentive hκ).attuned t hs).asking k.id hstate
      have hcollects : (t.answered text).Collects := hasks.collects
      exact ⟨hpending, .inr hcollects, fun _ _ => hcollects⟩
    | resumed h => exact (cleared_of_resumes hm hκ ih h hu).calm

end Moment

end SpriteStage

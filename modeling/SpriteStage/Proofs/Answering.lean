import SpriteStage.Proofs.Pass

namespace SpriteStage

open Project

def Thread.Asks (t : Thread) : Prop := ∃ prompt next, t.body = .waiting (.ask prompt) next

-- Between the turns a mailbox holds an answer only where one is waited for.
structure Thread.Attuned (t : Thread) : Prop where
  pending : t.mailbox.pending = none
  heard : ∀ text, t.mailbox.resume = some (.ok text) → t.state = .runnable ∧ t.Asks
  asking : ∀ n, t.state = .answer n → t.Asks

theorem Thread.Fresh.attuned {t : Thread} (h : t.Fresh) : t.Attuned := by
  refine ⟨h.pending, fun text ht => ?_, fun n hn => ?_⟩
  · rw [h.resume] at ht
    cases ht
  · rw [h.state] at hn
    cases hn

theorem Thread.Tends.attuned {own : Nat} {t t' : Thread} (h : t.Tends own t') (ht : t.Attuned) :
    t'.Attuned := by
  refine ⟨?_, fun text hr => ?_, fun n hn => ?_⟩
  · rcases h.pending with he | ⟨-, he⟩
    · exact he.trans ht.pending
    · exact he
  · rcases h.resume with he | ⟨-, he⟩
    · rw [Thread.Asks, h.state, h.body]
      exact ht.heard text (he ▸ hr)
    · rw [he] at hr
      cases hr
  · rw [Thread.Asks, h.body]
    exact ht.asking n (h.state ▸ hn)

namespace Project

structure Queued (p : Project) : Prop where
  ordered : p.world.questions.Pairwise (·.id < ·.id)
  askers : ∀ k ∈ p.world.questions,
    ∃ t ∈ p.threads, t.id = k.thread ∧ t.owner = k.owner ∧ t.state = .answer k.id
  listed : ∀ t ∈ p.threads, ∀ n, t.state = .answer n →
    ∃ k ∈ p.world.questions, k.id = n ∧ k.thread = t.id ∧ k.owner = t.owner

structure Attentive (p : Project) : Prop extends Queued p where
  attuned : ∀ t ∈ p.threads, t.Attuned

variable {κ : Conduct} {h : Handle} {p q r : Project} {t u : Thread}

namespace Attentive

theorem of_empty (ht : p.threads = []) (hq : p.world.questions = []) : p.Attentive := by
  refine ⟨⟨hq ▸ .nil, ?_, ?_⟩, ?_⟩
  · simp [hq]
  · simp [ht]
  · simp [ht]

-- Threads that stay where they are and threads that are new leave the queue as it is.
theorem keep (hp : p.Attentive) (hq : q.world.questions = p.world.questions)
    (hkept : ∀ t ∈ p.threads, ∃ u ∈ q.threads, t.Stays u)
    (hnew : ∀ u ∈ q.threads, u.Fresh ∨ ∃ t ∈ p.threads, t.Stays u ∧ u.Attuned) :
    q.Attentive := by
  refine ⟨⟨hq ▸ hp.ordered, fun k hk => ?_, fun u hu n hn => ?_⟩, fun u hu => ?_⟩
  · obtain ⟨t, ht, hid, ho, hs⟩ := hp.askers k (hq ▸ hk)
    obtain ⟨u, hu, hst⟩ := hkept t ht
    exact ⟨u, hu, hst.id.trans hid, hst.owner.trans ho, hst.state.trans hs⟩
  · rcases hnew u hu with hf | ⟨t, ht, hst, -⟩
    · rw [hf.state] at hn
      cases hn
    · obtain ⟨k, hk, hid, hth, ho⟩ := hp.listed t ht n (hst.state ▸ hn)
      exact ⟨k, hq ▸ hk, hid, hth.trans hst.id.symm, ho.trans hst.owner.symm⟩
  · rcases hnew u hu with hf | ⟨t, ht, hst, ha⟩
    · exact hf.attuned
    · exact ha

theorem along (hp : p.Attentive) (hq : q.world.questions = p.world.questions) {own : Nat}
    (h : Along (Thread.Tends own) p q) : q.Attentive := by
  refine hp.keep hq (fun t ht => ?_) fun u hu => ?_
  · obtain ⟨u, hu, hs⟩ := h.of_mem ht
    exact ⟨u, hu, hs.toStays⟩
  · obtain ⟨t, ht, hs⟩ := h.mem hu
    exact .inr ⟨t, ht, hs.toStays, hs.attuned (hp.attuned t ht)⟩

theorem same (hp : p.Attentive) (ht : q.threads = p.threads)
    (hq : q.world.questions = p.world.questions) : q.Attentive :=
  have h : Along (Thread.Tends 0) p q := .of_threads (.refl _) ht
  hp.along hq h

-- A thread without a question may change, as long as it asks none.
theorem update (hp : p.Attentive) {id : Nat} {change : Thread → Thread}
    (hs : ∀ t ∈ p.threads, t.id = id →
      (∀ n, t.state ≠ .answer n) ∧ (∀ n, (change t).state ≠ .answer n) ∧ (change t).Attuned) :
    (p.updateThread id change).Attentive := by
  refine ⟨⟨hp.ordered, fun k hk => ?_, fun u hu n hn => ?_⟩, fun u hu => ?_⟩
  · obtain ⟨t, ht, hid, ho, hstate⟩ := hp.askers k hk
    have hne : t.id ≠ id := fun he => (hs t ht he).1 k.id hstate
    exact ⟨t, List.mem_map.2 ⟨t, ht, if_neg hne⟩, hid, ho, hstate⟩
  · obtain ⟨t, ht, ⟨hid, rfl⟩ | ⟨-, rfl⟩⟩ := mem_updateThread hu
    · exact absurd hn ((hs t ht hid).2.1 n)
    · exact hp.listed _ ht n hn
  · obtain ⟨t, ht, ⟨hid, rfl⟩ | ⟨-, rfl⟩⟩ := mem_updateThread hu
    · exact (hs t ht hid).2.2
    · exact hp.attuned _ ht

theorem endThread (hp : p.Attentive) (id : Nat) : (p.endThread id).Attentive := by
  unfold Project.endThread
  split
  · exact hp
  · refine ⟨⟨hp.ordered.filter _, fun k hk => ?_, fun t ht n hn => ?_⟩, fun t ht => ?_⟩
    · obtain ⟨hk, hne⟩ := List.mem_filter.1 hk
      obtain ⟨t, ht, hid, ho, hs⟩ := hp.askers k hk
      exact ⟨t, List.mem_filter.2 ⟨ht, by rw [hid]; exact hne⟩, hid, ho, hs⟩
    · obtain ⟨ht, hne⟩ := List.mem_filter.1 ht
      obtain ⟨k, hk, hid, hth, ho⟩ := hp.listed t ht n hn
      exact ⟨k, List.mem_filter.2 ⟨hk, by rw [hth]; exact hne⟩, hid, hth, ho⟩
    · exact hp.attuned t (List.mem_of_mem_filter ht)

theorem foldl_endThread (hp : p.Attentive) (ids : List Nat) :
    (ids.foldl Project.endThread p).Attentive := by
  induction ids generalizing p with
  | nil => exact hp
  | cons id ids ih => exact ih (hp.endThread id)

theorem launchAll (hp : p.Attentive) : p.launchAll.Attentive := by
  obtain ⟨news, hnews⟩ := threads_launchAll p
  refine hp.keep (enlists_launchAll p).sameTerms.questions (fun t ht => ?_) fun u hu => ?_
  · exact ⟨t, hnews ▸ List.mem_append_left _ ht, .refl t⟩
  · rcases fresh_launchAll hu with hold | ⟨-, hf⟩
    · exact .inr ⟨u, hold, .refl u, hp.attuned u hold⟩
    · exact .inl hf

theorem settle (hp : p.Attentive) : p.settle.Attentive := by
  unfold Project.settle
  split
  · exact .of_empty rfl rfl
  · refine launchAll (foldl_endThread ?_ _)
    exact hp.same rfl rfl

theorem readiness (hp : p.Attentive) (hr : p.Ranked) (id : Nat) :
    (p.readiness id).2.Attentive := by
  unfold Project.readiness
  split
  · exact hp
  · rename_i t ht
    obtain rfl := id_of_thread? ht
    have hmem : t ∈ p.threads := List.mem_of_find?_eq_some ht
    have ha := hp.attuned t hmem
    split
    · cases hs : t.state with
      | timer remaining =>
        refine hp.update fun u hu hid => ?_
        obtain rfl := hr.eq_of_id hmem hu hid
        refine ⟨fun n hn => ?_, nofun, ha.pending, fun text he => ?_, nofun⟩
        · rw [hs] at hn
          cases hn
        · have hrun := (ha.heard text he).1
          rw [hs] at hrun
          cases hrun
      | performance n =>
        dsimp only
        split
        · exact hp
        · exact hp
        · have hno : ∀ k, t.state ≠ .answer k := fun k hk => by
            rw [hs] at hk
            cases hk
          refine hp.update fun u hu hid => ?_
          obtain rfl := hr.eq_of_id hmem hu hid
          exact ⟨hno, hno, ha.pending, nofun, fun k hk => absurd hk (hno k)⟩
      | _ => exact hp
    · exact hp

end Attentive

-- The thread of a handle runs, and holds no answer any more.
def Runs (p : Project) (h : Handle) : Prop :=
  ∀ u ∈ p.threads, u.id = h.thread →
    u.owner = h.owner ∧ u.state = .runnable ∧ ∀ text, u.mailbox.resume ≠ some (.ok text)

theorem Runs.along (hp : p.Runs h) {own : Nat} (hq : Along (Thread.Tends own) p q) : q.Runs h := by
  intro u hu hid
  obtain ⟨t, ht, hs⟩ := hq.mem hu
  obtain ⟨ho, hstate, hr⟩ := hp t ht (hs.id.symm.trans hid)
  refine ⟨hs.owner.trans ho, hs.state.trans hstate, fun text he => ?_⟩
  rcases hs.resume with hsame | ⟨-, hnone⟩
  · exact hr text (hsame ▸ he)
  · rw [hnone] at he
    cases he

theorem Attentive.woken (hp : p.Attentive) (hr : p.Ranked) (ht : t ∈ p.threads)
    (hs : ∀ n, t.state ≠ .answer n) : (p.woken t).2.Attentive ∧ (p.woken t).2.Runs t.handle := by
  have ha := hp.attuned t ht
  let started := p.updateThread t.id fun t => { t with state := .runnable }
  have hstarted : started.Attentive := by
    refine hp.update fun u hu hid => ?_
    obtain rfl := hr.eq_of_id ht hu hid
    exact ⟨hs, nofun, ha.pending, fun text he => ⟨rfl, (ha.heard text he).2⟩, nofun⟩
  have honly : ∀ u ∈ started.threads, u.id = t.id → u = { t with state := .runnable } :=
    fun u hu hid => by
      obtain ⟨s, hsm, ⟨hsid, rfl⟩ | ⟨hne, rfl⟩⟩ := mem_updateThread hu
      · rw [hr.eq_of_id ht hsm hsid]
      · exact absurd hid hne
  have hruns : (∀ text, t.mailbox.resume ≠ some (.ok text)) → started.Runs t.handle :=
    fun hno u hu hid => by
      rw [honly u hu hid]
      exact ⟨rfl, rfl, hno⟩
  have hasks : ∀ text, t.mailbox.resume = some (.ok text) → t.Asks := fun text he =>
    (ha.heard text he).2
  unfold Project.woken wake
  split
  · rename_i behavior hb
    refine ⟨hstarted, hruns fun text he => ?_⟩
    obtain ⟨prompt, next, hask⟩ := hasks text he
    rw [hask] at hb
    cases hb
  · rename_i wait next hb
    dsimp only
    split
    · have hcleared : Along (Thread.Tends t.id) started
          (started.updateMailbox t.id fun m => { m with resume := none }) :=
        .updateMailbox (.refl _) fun _ hid =>
          ⟨⟨⟨rfl, rfl, rfl, rfl, rfl⟩, rfl, rfl⟩, .inl rfl, .inr ⟨hid, rfl⟩⟩
      refine ⟨hstarted.along rfl hcleared, fun u hu hid => ?_⟩
      obtain ⟨s, hsm, ⟨hsid, rfl⟩ | ⟨hne, rfl⟩⟩ := mem_updateThread hu
      · rw [honly s hsm hsid]
        exact ⟨rfl, rfl, nofun⟩
      · exact absurd hid hne
    · rename_i hc
      refine ⟨hstarted, hruns fun text he => ?_⟩
      obtain ⟨prompt, next', hask⟩ := hasks text he
      rw [hask] at hb
      cases hb
      exact hc rfl

theorem suspends_answer (hp : ∀ t ∈ p.threads, t.mailbox.pending = none) {wait : Wait}
    {suspension : Suspension} {n : Nat} (hw : p.begin h wait = (.suspends suspension, q))
    (hs : suspension = .answer n) : ∃ prompt, wait = .ask prompt := by
  subst hs
  cases wait with
  | ask prompt => exact ⟨prompt, rfl⟩
  | yield =>
    simp only [begin] at hw
    split at hw
    · cases hw
    · split at hw <;> cases hw
  | seconds time =>
    simp only [begin] at hw
    split at hw <;> cases hw
  | broadcastAndWait message =>
    simp only [begin] at hw
    cases hg : (p.world.broadcast message).1 with
    | none =>
      rw [hg] at hw
      cases hw
    | some g =>
      rw [hg] at hw
      cases hw
  | playUntilDone name =>
    simp only [begin] at hw
    split at hw <;> cases hw
  | delete =>
    simp only [begin] at hw
    split at hw <;> cases hw
  | stopAll => cases hw
  | outside =>
    simp only [begin] at hw
    cases ht : p.thread? h.thread with
    | none =>
      rw [ht] at hw
      cases hw
    | some t =>
      have hnone : t.mailbox.pending = none := hp t (List.mem_of_find?_eq_some ht)
      rw [ht, Option.bind_some, hnone] at hw
      cases hw

theorem Attentive.asks (hp : p.Attentive) (hrun : p.Runs h) (hex : ∃ u ∈ p.threads, u.id = h.thread)
    (ha : ∀ k ∈ p.world.questions, k.id ≤ p.world.lastQuestion) (prompt : Option String)
    (next : Except CallError String → Behavior) :
    ((p.updateWorld fun w => (w.askQuestion h prompt).2).updateThread h.thread fun t =>
      { t with
        state := .answer (p.world.lastQuestion + 1)
        body := .waiting (.ask prompt) next }).Attentive := by
  refine ⟨⟨?_, fun k hk => ?_, fun u hu n hn => ?_⟩, fun u hu => ?_⟩
  · refine List.pairwise_append.2 ⟨hp.ordered, List.pairwise_singleton _ _, fun k hk k' hk' => ?_⟩
    obtain rfl := List.mem_singleton.1 hk'
    exact Nat.lt_succ_of_le (ha k hk)
  · rcases List.mem_append.1 hk with hk | hk
    · obtain ⟨t, ht, hid, ho, hs⟩ := hp.askers k hk
      have hne : t.id ≠ h.thread := fun he => by
        have hstate := (hrun t ht he).2.1
        rw [hs] at hstate
        cases hstate
      exact ⟨t, List.mem_map.2 ⟨t, ht, if_neg hne⟩, hid, ho, hs⟩
    · obtain rfl := List.mem_singleton.1 hk
      obtain ⟨u, hu, hid⟩ := hex
      exact ⟨_, List.mem_map.2 ⟨u, hu, if_pos hid⟩, hid, (hrun u hu hid).1, rfl⟩
  · obtain ⟨t, ht, ⟨hid, rfl⟩ | ⟨-, rfl⟩⟩ := mem_updateThread hu
    · cases hn
      exact ⟨_, List.mem_append_right _ List.mem_cons_self, rfl, hid.symm, (hrun t ht hid).1.symm⟩
    · obtain ⟨k, hk, hk'⟩ := hp.listed _ ht n hn
      exact ⟨k, List.mem_append_left _ hk, hk'⟩
  · obtain ⟨t, ht, ⟨hid, rfl⟩ | ⟨-, rfl⟩⟩ := mem_updateThread hu
    · exact ⟨(hp.attuned t ht).pending, fun text he => absurd he ((hrun t ht hid).2.2 text),
        fun _ _ => ⟨prompt, next, rfl⟩⟩
    · exact hp.attuned _ ht

theorem tends_clear (p : Project) (id : Nat) :
    Along (Thread.Tends id) p (p.updateMailbox id fun m => { m with pending := none }) :=
  .updateMailbox (.refl _) fun _ hid =>
    ⟨⟨⟨rfl, rfl, rfl, rfl, rfl⟩, rfl, rfl⟩, .inr ⟨hid, rfl⟩, .inl rfl⟩

theorem Attentive.begun (hp : p.Attentive) {wait : Wait} {begun : Begun wait.Reply}
    (hn : ∀ prompt, wait ≠ .ask prompt) (hw : p.begin h wait = (begun, q)) :
    (q.updateMailbox h.thread fun m => { m with pending := none }).Attentive := by
  have hquestions := sameQuestions_begin p h hn
  rw [hw] at hquestions
  exact hp.along (p := p) hquestions ((tends_of_begin hw).trans .trans (tends_clear q _))

theorem Attentive.suspends (hp : p.Attentive) (hrun : p.Runs h)
    (hex : ∃ u ∈ p.threads, u.id = h.thread)
    (ha : ∀ k ∈ p.world.questions, k.id ≤ p.world.lastQuestion) {wait : Wait}
    (next : Except CallError wait.Reply → Behavior) {suspension : Suspension} {state : ThreadState}
    (hw : p.begin h wait = (.suspends suspension, q))
    (hs : ThreadState.ofSuspension? suspension = some state) :
    ((q.updateMailbox h.thread fun m => { m with pending := none }).updateThread h.thread fun t =>
      { t with state := state, body := .waiting wait next }).Attentive := by
  by_cases hask : ∃ prompt, wait = .ask prompt
  · obtain ⟨prompt, rfl⟩ := hask
    cases hw
    cases hs
    obtain ⟨u, hu, hid⟩ := hex
    obtain ⟨v, hv, hs⟩ := (tends_clear p _).of_mem hu
    have hcleared : (p.updateMailbox h.thread fun m => { m with pending := none }).Attentive :=
      hp.along rfl (tends_clear p _)
    exact hcleared.asks (hrun.along (tends_clear p _)) ⟨v, hv, hs.id.trans hid⟩ ha prompt next
  · have hno : ∀ n, suspension ≠ .answer n := fun n he =>
      hask (suspends_answer (fun t ht => (hp.attuned t ht).pending) hw he)
    have hstate : ∀ n, state ≠ .answer n := fun n he => by
      subst he
      cases suspension with
      | answer k => exact hno k rfl
      | terminate => cases hs
      | _ => cases Option.some.inj hs
    have hq := hp.begun (fun prompt he => hask ⟨prompt, he⟩) hw
    refine hq.update fun u hu hid => ?_
    have hu' := hrun.along ((tends_of_begin hw).trans .trans (tends_clear q _)) u hu hid
    refine ⟨fun n he => ?_, hstate, (hq.attuned u hu).pending,
      fun text he => absurd he (hu'.2.2 text), fun n he => absurd he (hstate n)⟩
    rw [hu'.2.1] at he
    cases he

theorem Changes.lastQuestion_le {σ : Scope} (h : Changes σ p q) :
    p.world.lastQuestion ≤ q.world.lastQuestion := by
  induction h with
  | refl => exact Nat.le_refl _
  | tail _ hq ih => exact Nat.le_trans ih hq.last_le.2

theorem has_woken (ht : t ∈ p.threads) : ∃ u ∈ (p.woken t).2.threads, u.id = t.id := by
  have hstarted : { t with state := .runnable } ∈
      (p.updateThread t.id fun t => { t with state := .runnable }).threads :=
    List.mem_map.2 ⟨t, ht, if_pos rfl⟩
  unfold woken wake
  split
  · exact ⟨_, hstarted, rfl⟩
  · dsimp only
    split
    · exact ⟨_, List.mem_map.2 ⟨_, hstarted, if_pos rfl⟩, rfl⟩
    · exact ⟨_, hstarted, rfl⟩

theorem Attentive.stepped (hp : p.Attentive) (hr : p.Ranked)
    (ha : ∀ k ∈ p.world.questions, k.id ≤ p.world.lastQuestion) (hκ : κ.Awaits) (ht : t ∈ p.threads)
    (hs : ∀ n, t.state ≠ .answer n) (hq : Stepped κ p t q) : q.Attentive := by
  obtain ⟨hwoken, hrun⟩ := hp.woken hr ht hs
  cases hq with
  | mk hd hc =>
    rename_i mid last r
    obtain ⟨hdeeds, hterms⟩ := hd.tends hκ
    have hmid : mid.Attentive := hwoken.along hterms.questions hdeeds
    refine Attentive.settle ?_
    cases r with
    | finished =>
      cases hc with
      | finished => exact hmid.endThread t.id
    | failed failure =>
      cases hc with
      | failed failure =>
        have hreported : (mid.reportFailure t failure).Attentive := hmid.same rfl rfl
        exact hreported.endThread t.id
    | suspended suspension body =>
      cases hc with
      | suspended hk hw =>
        rename_i wait next begun
        simp only [leave]
        cases hsus : ThreadState.ofSuspension? suspension with
        | none =>
          refine (hmid.begun ?_ hw).endThread t.id
          rintro prompt rfl
          cases hw
          cases hsus
        | some state =>
          have hlast : Changes (.under κ) p mid :=
            (changes_woken trivial).trans (changes_of_deeds (licensed_under κ _) hd)
          have hquestions : mid.world.questions = p.world.questions :=
            hterms.questions.trans (congrArg World.questions (world_woken p t))
          obtain ⟨u, hu, hid⟩ := has_woken ht
          obtain ⟨v, hv, hsv⟩ := hdeeds.of_mem hu
          refine hmid.suspends (hrun.along hdeeds) ⟨v, hv, hsv.id.trans hid⟩ (fun k hk => ?_) next
            hw hsus
          exact Nat.le_trans (ha k (hquestions ▸ hk)) hlast.lastQuestion_le

theorem Attentive.turn {resumed : Bool} (hp : p.Attentive) (ho : p.Obeys κ)
    (ha : ∀ k ∈ p.world.questions, k.id ≤ p.world.lastQuestion) (hκ : κ.Awaits) (ht : t ∈ p.threads)
    (hl : p.world.isLive t.owner = true) (h : Turn κ p t resumed q) : q.Attentive := by
  have hr := hp.readiness ho.toRanked t.id
  have hworld := world_readiness p t.id
  cases h with
  | waits _ => exact hr
  | orphaned _ => exact hr.endThread t.id
  | resumes hdue ht' hc hs =>
    rename_i t'
    -- A thread with a question is not due, so the one that is resumed has none.
    have hno : ∀ n, t'.state ≠ .answer n := fun n he => by
      obtain ⟨k, hk, -, hth, -⟩ := hr.listed t' ht' n he
      rw [hworld] at hk
      obtain ⟨s, hsm, hid, -, hstate⟩ := hp.askers k hk
      obtain rfl := ho.toRanked.eq_of_id ht hsm ((hid.trans hth).trans hc.id)
      rw [readiness_of_answer (ho.toRanked.thread?_of_mem ht) hl hstate] at hdue
      cases hdue
    exact hr.stepped (obeys_readiness ho t.id).toRanked (hworld ▸ ha) hκ ht' hno hs

theorem Queued.eq_of_thread (hp : p.Queued) (hr : p.Ranked) {k k' : Question}
    (hk : k ∈ p.world.questions) (hk' : k' ∈ p.world.questions) (h : k'.thread = k.thread) :
    k'.id = k.id := by
  obtain ⟨t, ht, hid, -, hs⟩ := hp.askers k hk
  obtain ⟨t', ht', hid', -, hs'⟩ := hp.askers k' hk'
  obtain rfl := hr.eq_of_id ht ht' ((hid'.trans h).trans hid.symm)
  exact ThreadState.answer.inj (hs'.symm.trans hs)

theorem Attentive.answerQuestion (hp : p.Attentive) (hr : p.Ranked) (text : String) :
    (p.answerQuestion text).2.Attentive := by
  unfold Project.answerQuestion
  split
  · exact hp
  · rename_i first rest hq
    have hfirst : first ∈ p.world.questions := hq ▸ List.mem_cons_self
    have hrest : ∀ k ∈ rest, k ∈ p.world.questions := fun k hk => hq ▸ List.mem_cons_of_mem _ hk
    have hordered := hq ▸ hp.ordered
    obtain ⟨hlt, htail⟩ := List.pairwise_cons.1 hordered
    refine ⟨⟨htail, fun k hk => ?_, fun u hu n hn => ?_⟩, fun u hu => ?_⟩
    · obtain ⟨t, ht, hid, ho, hs⟩ := hp.askers k (hrest k hk)
      have hne : t.id ≠ first.thread := fun he => by
        have hsame := hp.eq_of_thread hr hfirst (hrest k hk) (hid.symm.trans he)
        exact Nat.ne_of_gt (hlt k hk) hsame
      exact ⟨t, List.mem_map.2 ⟨t, ht, if_neg hne⟩, hid, ho, hs⟩
    · obtain ⟨t, ht, ⟨hid, rfl⟩ | ⟨hne, rfl⟩⟩ := mem_updateThread hu
      · cases hn
      · obtain ⟨k, hk, hid, hth, ho⟩ := hp.listed _ ht n hn
        rw [hq] at hk
        rcases List.mem_cons.1 hk with rfl | hk
        · exact absurd hth.symm hne
        · exact ⟨k, hk, hid, hth, ho⟩
    · obtain ⟨t, ht, ⟨hid, rfl⟩ | ⟨-, rfl⟩⟩ := mem_updateThread hu
      · obtain ⟨s, hsm, hsid, -, hs⟩ := hp.askers first hfirst
        obtain rfl := hr.eq_of_id ht hsm (hsid.trans hid.symm)
        have ha := hp.attuned _ ht
        exact ⟨ha.pending, fun _ _ => ⟨rfl, ha.asking _ hs⟩, nofun⟩
      · exact hp.attuned _ ht

theorem Attentive.register (hp : p.Attentive) (c : ActorClass) (kind : ActorKind) :
    (p.register c kind).2.Attentive := by
  obtain ⟨actors, instances, last, journal, hq⟩ := register_writes p c kind
  rw [hq]
  exact hp.same rfl rfl

theorem Attentive.queueGroup (hp : p.Attentive) (starts : List World.Start) :
    (p.updateWorld fun w => (w.queueGroup starts).2).Attentive :=
  hp.same rfl (World.sameTerms_queueGroup p.world starts).questions

theorem Attentive.prepare (hp : p.Attentive) (hr : p.Ranked) : p.prepare.Attentive := by
  obtain ⟨news, hnews, hfresh⟩ := threads_prepare_fresh hr
  refine hp.keep (sameTerms_prepare p).questions (fun t ht => ?_) fun u hu => ?_
  · exact ⟨t, hnews ▸ List.mem_append_left _ ht, .refl t⟩
  · rw [hnews] at hu
    rcases List.mem_append.1 hu with hu | hu
    · exact .inr ⟨u, hu, .refl u, hp.attuned u hu⟩
    · exact .inl (hfresh u hu).2

theorem Attentive.poll (hp : p.Attentive) : p.poll.Attentive :=
  hp.same (threads_poll p) (sameTerms_poll p).questions

theorem Attentive.loadAssets (hp : p.Attentive) (loader : Loader) :
    (p.loadAssets loader).Attentive := by
  rw [loadAssets_eq]
  exact Attentive.poll (hp.same rfl rfl)

theorem Attentive.apply (hp : p.Attentive) (hr : p.Ranked) (op : Operation) :
    (op.apply p).Attentive := by
  have hstop : p.stopEverything.Attentive := .of_empty rfl rfl
  cases op with
  | register c kind => exact hp.register c kind
  | broadcast message => exact (hp.queueGroup _).launchAll
  | greenFlag => exact (hstop.queueGroup _).launchAll
  | redStop => exact hstop
  | answer text => exact hp.answerQuestion hr text
  | loadAssets loader => exact hp.loadAssets loader
  | poll => exact hp.poll
  | _ => exact hp.same rfl rfl

end Project

namespace Moment

variable {κ : Conduct} {m m' : Moment}

theorem Start.attentive {p : Project} (h : Start κ p) : p.Attentive := by
  cases h with
  | new h bus hl => exact .of_empty (blank_of_new h).threads (blank_of_new h).world.questions
  | script h hl hj =>
    exact load_invariant (I := Attentive) (fun p _ hp _ => .of_empty hp.threads hp.world.questions)
      (fun p c kind _ hp => hp.register c kind) h

theorem Step.attentive (hs : Step κ m m') (hm : Reachable κ m) (hκ : κ.Awaits)
    (ha : m.project.Attentive) : m'.project.Attentive := by
  cases hs with
  | operate h => exact ha.apply hm.obeys.toRanked _
  | frame => exact ha.prepare hm.obeys.toRanked
  | turn h =>
    rename_i laps id ids resumed p q
    cases ht : p.thread? id with
    | none =>
      rw [turn?_of_gone ht] at h
      cases h
      exact ha
    | some t =>
      obtain rfl := id_of_thread? ht
      have hmem : t ∈ p.threads := List.mem_of_find?_eq_some ht
      exact ha.turn hm.obeys (hm.numbered hκ).allocated hκ hmem (hm.owns hmem).isLive
        (turn_of_turn? hm.obeys hmem h)

theorem Reachable.attentive (hm : Reachable κ m) (hκ : κ.Awaits) : m.project.Attentive :=
  hm.induction (motive := fun m => m.project.Attentive) (fun h => h.attentive) fun hm hs ih =>
    hs.attentive hm hκ ih

end Moment

end SpriteStage

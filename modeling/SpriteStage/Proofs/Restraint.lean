import SpriteStage.Proofs.Joining

namespace SpriteStage

-- What no request touches and no thread that comes or goes.
structure World.SameTerms (w w' : World) : Prop where
  config : w'.config = w.config
  questions : w'.questions = w.questions
  stopRequested : w'.stopRequested = w.stopRequested

-- A running body reaches into mailboxes at most, and takes something out of its own only.
structure Thread.Tends (own : Nat) (t t' : Thread) : Prop extends t.Stays t' where
  pending : t'.mailbox.pending = t.mailbox.pending ∨ t.id = own ∧ t'.mailbox.pending = none
  resume : t'.mailbox.resume = t.mailbox.resume ∨ t.id = own ∧ t'.mailbox.resume = none

theorem Thread.Tends.refl (own : Nat) (t : Thread) : t.Tends own t := ⟨.refl t, .inl rfl, .inl rfl⟩

theorem Thread.Tends.trans {own : Nat} {t t' t'' : Thread} (h : t.Tends own t')
    (h' : t'.Tends own t'') : t.Tends own t'' := by
  refine ⟨h.toStays.trans h'.toStays, ?_, ?_⟩
  · rcases h'.pending with he | ⟨hid, he⟩
    · exact he ▸ h.pending
    · exact .inr ⟨h.id.symm.trans hid, he⟩
  · rcases h'.resume with he | ⟨hid, he⟩
    · exact he ▸ h.resume
    · exact .inr ⟨h.id.symm.trans hid, he⟩

structure Thread.Fresh (t : Thread) : Prop where
  state : t.state = .runnable
  body : ∃ behavior, t.body = .start behavior
  pending : t.mailbox.pending = none
  resume : t.mailbox.resume = none

namespace World

variable {w w' w'' : World}

theorem SameTerms.refl (w : World) : w.SameTerms w := ⟨rfl, rfl, rfl⟩

theorem SameTerms.trans (h : w.SameTerms w') (h' : w'.SameTerms w'') : w.SameTerms w'' :=
  ⟨h'.config.trans h.config, h'.questions.trans h.questions,
    h'.stopRequested.trans h.stopRequested⟩

theorem sameTerms_queueGroup (w : World) (starts : List Start) :
    w.SameTerms (w.queueGroup starts).2 := by
  obtain ⟨lastGroup, groups, spawns, hw, -⟩ := Project.world_queueGroup w starts
  rw [hw]
  exact ⟨rfl, rfl, rfl⟩

theorem sameTerms_deleteInstance (w : World) (id : Nat) : w.SameTerms (w.deleteInstance id).2 := by
  rcases w.deleteInstance_cases id with he | ⟨i, -, -, he⟩
  · rw [he]
    exact .refl w
  · rw [he]
    exact ⟨rfl, rfl, rfl⟩

theorem sameTerms_answer {id : Nat} {r : Request} {reply : r.Reply}
    (h : w.answer id r = .ok (reply, w')) : w.SameTerms w' := by
  cases grants_of_answer h with
  | sends => exact sameTerms_queueGroup _ _
  | clones hr hm =>
    rename_i source parent i a
    have hp : w.SameTerms (w.place i a) := ⟨rfl, rfl, rfl⟩
    exact hp.trans (sameTerms_queueGroup _ _)
  | _ => exact ⟨rfl, rfl, rfl⟩

end World

namespace Project

variable {κ : Conduct} {h : Handle} {p q r : Project} {t u : Thread}

-- The same threads in the same places, each related to what it was.
def Along (R : Thread → Thread → Prop) (p q : Project) : Prop :=
  ∃ change : Thread → Thread, q.threads = p.threads.map change ∧ ∀ t, R t (change t)

namespace Along

variable {R S : Thread → Thread → Prop}

theorem of_threads (hR : ∀ t, R t t) (h : q.threads = p.threads) : Along R p q :=
  ⟨id, by rw [h, List.map_id], hR⟩

theorem trans (hR : ∀ {t t' t''}, R t t' → R t' t'' → R t t'') (h : Along R p q)
    (h' : Along R q r) : Along R p r := by
  obtain ⟨change, hq, hc⟩ := h
  obtain ⟨change', hr, hc'⟩ := h'
  exact ⟨change' ∘ change, by rw [hr, hq, List.map_map], fun t => hR (hc t) (hc' _)⟩

theorem imp (hRS : ∀ t t', R t t' → S t t') (h : Along R p q) : Along S p q := by
  obtain ⟨change, hq, hc⟩ := h
  exact ⟨change, hq, fun t => hRS _ _ (hc t)⟩

theorem mem (h : Along R p q) (hu : u ∈ q.threads) : ∃ t ∈ p.threads, R t u := by
  obtain ⟨change, hq, hc⟩ := h
  rw [hq] at hu
  obtain ⟨t, ht, rfl⟩ := List.mem_map.1 hu
  exact ⟨t, ht, hc t⟩

theorem of_mem (h : Along R p q) (ht : t ∈ p.threads) : ∃ u ∈ q.threads, R t u := by
  obtain ⟨change, hq, hc⟩ := h
  exact ⟨change t, hq ▸ List.mem_map.2 ⟨t, ht, rfl⟩, hc t⟩

theorem updateMailbox (hR : ∀ t, R t t) {id : Nat} {change : Mailbox → Mailbox}
    (hc : ∀ t : Thread, t.id = id → R t { t with mailbox := change t.mailbox }) :
    Along R p (p.updateMailbox id change) := by
  refine ⟨_, rfl, fun t => ?_⟩
  dsimp only
  split
  · rename_i hid
    exact hc t hid
  · exact hR t

end Along

section Bodies

theorem tends_begin (p : Project) (h : Handle) (wait : Wait) :
    Along (Thread.Tends h.thread) p (p.begin h wait).2 := by
  have hsame : ∀ {q : Project}, q.threads = p.threads → Along (Thread.Tends h.thread) p q :=
    .of_threads (.refl _)
  have hmail : ∀ {q : Project} {change : Mailbox → Mailbox}, q.threads = p.threads →
      (∀ m, (change m).pending = m.pending) →
      (∀ m, (change m).resume = m.resume ∨ (change m).resume = none) →
      Along (Thread.Tends h.thread) p (q.updateMailbox h.thread change) := fun hq hp hr =>
    (hsame hq).trans .trans (.updateMailbox (.refl _) fun t hid =>
      ⟨⟨⟨rfl, rfl, rfl, rfl, rfl⟩, rfl, rfl⟩, .inl (hp _),
        (hr t.mailbox).imp_right fun he => ⟨hid, he⟩⟩)
  cases wait with
  | yield =>
    simp only [begin]
    split
    · exact hsame rfl
    · split
      · exact hmail rfl (fun _ => rfl) fun _ => .inl rfl
      · exact hmail rfl (fun _ => rfl) fun _ => .inr rfl
  | seconds time =>
    simp only [begin]
    split <;> exact hsame rfl
  | playUntilDone name =>
    simp only [begin]
    split <;> exact hsame rfl
  | delete =>
    simp only [begin]
    split
    · exact hmail rfl (fun _ => rfl) fun _ => .inr rfl
    · exact hsame rfl
  | _ => exact hsame rfl

theorem tends_of_begin {wait : Wait} {begun : Begun wait.Reply} (hw : p.begin h wait = (begun, q)) :
    Along (Thread.Tends h.thread) p q := by
  have ht := tends_begin p h wait
  rwa [hw] at ht

theorem tends_answer {c : Call} (hc : c.startsWait = false) (id : Nat) (p : Project) :
    Along (Thread.Tends id) p (p.answer c).2 := by
  have hrates : ∀ (id' : Nat) (change : LoopRates → LoopRates), Along (Thread.Tends id) p
      (p.updateMailbox id' fun m => { m with rates := change m.rates }) := fun _ _ =>
    .updateMailbox (.refl _) fun _ _ => ⟨⟨⟨rfl, rfl, rfl, rfl, rfl⟩, rfl, rfl⟩, .inl rfl, .inl rfl⟩
  cases c with
  | request h r =>
    simp only [answer]
    split <;> exact .of_threads (.refl _) rfl
  | pushRate h perFrame => exact hrates h.thread (·.push perFrame)
  | popRate h => exact hrates h.thread (·.pop)
  | start h wait => cases hc
  | _ => exact .of_threads (.refl _) rfl

theorem stays_answer (c : Call) (p : Project) : Along Thread.Stays p (p.answer c).2 := by
  by_cases hc : c.startsWait = false
  · exact (tends_answer hc 0 p).imp fun _ _ h => h.toStays
  · cases c with
    | start h wait =>
      have hb : Along Thread.Stays p (p.begin h wait).2 :=
        (tends_begin p h wait).imp fun _ _ h => h.toStays
      cases hw : p.begin h wait with
      | mk begun q =>
        rw [hw] at hb
        cases begun with
        | passes outcome =>
          simp only [answer, hw]
          exact hb
        | suspends suspension =>
          simp only [answer, hw]
          exact hb.trans .trans (.updateMailbox .refl fun _ _ => ⟨⟨rfl, rfl, rfl, rfl, rfl⟩, rfl, rfl⟩)
    | _ => exact absurd rfl hc

theorem sameTerms_begin (p : Project) (h : Handle) {wait : Wait}
    (ha : ∀ prompt, wait ≠ .ask prompt) (hs : wait ≠ .stopAll) :
    p.world.SameTerms (p.begin h wait).2.world := by
  have ho := p.opens_begin h wait
  generalize (p.begin h wait).2.world = w at ho
  cases ho with
  | sends => exact World.sameTerms_queueGroup _ _
  | asks => exact absurd rfl (ha _)
  | deletes => exact World.sameTerms_deleteInstance _ _
  | stops => exact absurd rfl hs
  | _ => exact ⟨rfl, rfl, rfl⟩

theorem config_begin (p : Project) (h : Handle) (wait : Wait) :
    (p.begin h wait).2.world.config = p.world.config := by
  by_cases hask : ∃ prompt, wait = .ask prompt
  · obtain ⟨prompt, rfl⟩ := hask
    rfl
  · by_cases hstop : wait = .stopAll
    · subst hstop
      rfl
    · exact (sameTerms_begin p h (fun prompt hw => hask ⟨prompt, hw⟩) hstop).config

theorem sameQuestions_begin (p : Project) (h : Handle) {wait : Wait}
    (ha : ∀ prompt, wait ≠ .ask prompt) :
    (p.begin h wait).2.world.questions = p.world.questions := by
  by_cases hstop : wait = .stopAll
  · subst hstop
    rfl
  · exact (sameTerms_begin p h ha hstop).questions

theorem stopRequested_begin (p : Project) (h : Handle) {wait : Wait} (hs : wait ≠ .stopAll) :
    (p.begin h wait).2.world.stopRequested = p.world.stopRequested := by
  by_cases hask : ∃ prompt, wait = .ask prompt
  · obtain ⟨prompt, rfl⟩ := hask
    rfl
  · exact (sameTerms_begin p h (fun prompt hw => hask ⟨prompt, hw⟩) hs).stopRequested

theorem sameTerms_passes {wait : Wait} {outcome : Except CallError wait.Reply}
    (hw : p.begin h wait = (.passes outcome, q)) : p.world.SameTerms q.world := by
  have hb : p.world.SameTerms (p.begin h wait).2.world := by
    refine sameTerms_begin p h ?_ ?_
    · rintro prompt rfl
      cases hw
    · rintro rfl
      cases hw
  rwa [hw] at hb

theorem sameTerms_call {c : Call} (hc : c.startsWait = false) (p : Project) :
    p.world.SameTerms (p.answer c).2.world := by
  cases c with
  | request h r =>
    simp only [answer]
    split
    · rename_i ha
      exact World.sameTerms_answer ha
    · exact .refl _
  | start h wait => cases hc
  | _ => exact ⟨rfl, rfl, rfl⟩

theorem config_answer (c : Call) (p : Project) :
    (p.answer c).2.world.config = p.world.config := by
  by_cases hc : c.startsWait = false
  · exact (sameTerms_call hc p).config
  · cases c with
    | start h wait =>
      have hb := config_begin p h wait
      cases hw : p.begin h wait with
      | mk begun q =>
        rw [hw] at hb
        cases begun with
        | passes outcome =>
          simp only [answer, hw]
          exact hb
        | suspends suspension =>
          simp only [answer, hw]
          exact hb
    | _ => exact absurd rfl hc

theorem Deeds.stays (hd : Deeds κ h p q) : Along Thread.Stays p q := by
  induction hd with
  | refl => exact .of_threads .refl rfl
  | tail _ hq ih =>
    refine ih.trans .trans ?_
    cases hq with
    | call hc => exact stays_answer _ _
    | passed hw =>
      exact (tends_of_begin hw).imp fun _ _ h => h.toStays

theorem Deeds.config (hd : Deeds κ h p q) : q.world.config = p.world.config := by
  induction hd with
  | refl => rfl
  | tail _ hq ih =>
    refine Eq.trans ?_ ih
    cases hq with
    | call hc => exact config_answer _ _
    | passed hw => exact (sameTerms_passes hw).config

theorem Deeds.tends (hκ : κ.Awaits) (hd : Deeds κ h p q) :
    Along (Thread.Tends h.thread) p q ∧ p.world.SameTerms q.world := by
  induction hd with
  | refl => exact ⟨.of_threads (.refl _) rfl, .refl _⟩
  | tail _ hq ih =>
    refine ⟨ih.1.trans .trans ?_, ih.2.trans ?_⟩
    · cases hq with
      | call hc => exact tends_answer (hκ _ _ _ hc) _ _
      | passed hw => exact tends_of_begin hw
    · cases hq with
      | call hc => exact sameTerms_call (hκ _ _ _ hc) _
      | passed hw => exact sameTerms_passes hw

theorem Closes.tends {halt : Halt} (hc : Closes κ h p halt q) :
    Along (Thread.Tends h.thread) p q := by
  cases hc with
  | suspended hk hw =>
    refine (tends_of_begin hw).trans .trans (.updateMailbox (.refl _) fun t hid => ?_)
    exact ⟨⟨⟨rfl, rfl, rfl, rfl, rfl⟩, rfl, rfl⟩, .inr ⟨hid, rfl⟩, .inl rfl⟩
  | _ => exact .of_threads (.refl _) rfl

theorem Closes.config {halt : Halt} (hc : Closes κ h p halt q) :
    q.world.config = p.world.config := by
  cases hc with
  | suspended hk hw =>
    exact (congrArg (·.2.world.config) hw).symm.trans (config_begin p h _)
  | _ => rfl

end Bodies

section Settling

theorem fresh_launch {s : Spawn} (hu : u ∈ (p.launch s).threads) :
    u ∈ p.threads ∨ p.lastThread < u.id ∧ u.Fresh := by
  by_cases hl : p.world.isLive s.owner
  · rw [launch_of_live hl] at hu
    rcases List.mem_append.1 hu with hu | hu
    · exact .inl hu
    · obtain rfl := List.mem_singleton.1 hu
      exact .inr ⟨Nat.lt_succ_self _, rfl, ⟨_, rfl⟩, rfl, rfl⟩
  · rw [launch_of_gone hl] at hu
    exact .inl hu

theorem fresh_foldl_launch {queue : List Spawn} (hu : u ∈ (queue.foldl launch p).threads) :
    u ∈ p.threads ∨ p.lastThread < u.id ∧ u.Fresh := by
  induction queue generalizing p with
  | nil => exact .inl hu
  | cons s queue ih =>
    rcases ih hu with hu | ⟨hid, hf⟩
    · exact fresh_launch hu
    · exact .inr ⟨Nat.lt_of_le_of_lt (lastThread_le_launch p s) hid, hf⟩

theorem fresh_launchAll (hu : u ∈ p.launchAll.threads) :
    u ∈ p.threads ∨ p.lastThread < u.id ∧ u.Fresh :=
  fresh_foldl_launch (p := p.updateWorld fun w => { w with spawns := [] }) hu

theorem fresh_settle (hu : u ∈ p.settle.threads) :
    u ∈ p.threads ∨ p.lastThread < u.id ∧ u.Fresh := by
  unfold settle at hu
  split at hu
  · cases hu
  · rcases fresh_launchAll hu with hu | ⟨hid, hf⟩
    · rw [threads_foldl_endThread] at hu
      exact .inl (List.mem_of_mem_filter hu)
    · rw [lastThread_foldl_endThread] at hid
      exact .inr ⟨hid, hf⟩

theorem Enlists.sameTerms {w w' : World} (h : Enlists w w') : w.SameTerms w' := by
  obtain ⟨_, _, _, _, _, rfl⟩ := h
  exact ⟨rfl, rfl, rfl⟩

theorem sameTerms_removeClones (w : World) : w.SameTerms w.removeClones :=
  foldl_carries .refl .trans (fun w (i : Instance) => w.sameTerms_deleteInstance i.id) _ w

theorem config_settle (p : Project) : p.settle.world.config = p.world.config := by
  rcases settle_cases p with hstop | ⟨groups, questions, hw⟩
  · rw [hstop]
    exact (sameTerms_removeClones p.world).config
  · rw [hw]

theorem sameTerms_poll (p : Project) : p.world.SameTerms p.poll.world := by
  rw [poll_eq]
  exact ⟨rfl, rfl, rfl⟩

theorem sameTerms_prepare (p : Project) : p.world.SameTerms p.prepare.world :=
  (sameTerms_poll { p with frame := p.frame + 1 }).trans (enlists_launchInput _).sameTerms

theorem threads_launchAll_fresh (hp : p.Ranked) :
    ∃ news, p.launchAll.threads = p.threads ++ news ∧ ∀ u ∈ news, p.lastThread < u.id ∧ u.Fresh := by
  obtain ⟨news, hnews, -, hids⟩ :=
    threads_foldl_launch p.world.spawns (p.updateWorld fun w => { w with spawns := [] })
  refine ⟨news, hnews, fun u hu => ⟨hids u hu, ?_⟩⟩
  have hmem : u ∈ p.launchAll.threads := hnews ▸ List.mem_append_right _ hu
  rcases fresh_launchAll hmem with hold | ⟨-, hf⟩
  · exact absurd (hp.bounded u hold) (Nat.not_le_of_lt (hids u hu))
  · exact hf

-- The threads of before come first and are as they were; the others have been launched for input.
theorem threads_prepare_fresh (hp : p.Ranked) :
    ∃ news, p.prepare.threads = p.threads ++ news ∧ ∀ u ∈ news, p.lastThread < u.id ∧ u.Fresh := by
  let counted : Project := { p with frame := p.frame + 1 }
  have hthreads : counted.poll.threads = p.threads := threads_poll _
  have hlast : p.lastThread ≤ counted.poll.lastThread :=
    (changes_poll (σ := .under .any) trivial counted).lastThread_le
  have hranked : counted.poll.Ranked :=
    ⟨hthreads ▸ hp.ordered, fun t ht => Nat.le_trans (hp.bounded t (hthreads ▸ ht)) hlast⟩
  obtain ⟨news, hnews, hfresh⟩ := threads_launchAll_fresh (p := counted.poll.updateWorld _)
    ⟨hranked.ordered, hranked.bounded⟩
  refine ⟨news, hthreads ▸ hnews, fun u hu => ?_⟩
  exact ⟨Nat.lt_of_le_of_lt hlast (hfresh u hu).1, (hfresh u hu).2⟩

end Settling

section Resumed

theorem mem_leave {r : Resumption} (hu : u ∈ (p.leave t r).threads) (hid : u.id ≠ t.id) :
    u ∈ p.threads := by
  have hend : ∀ {q : Project}, q.threads = p.threads → u ∈ (q.endThread t.id).threads →
      u ∈ p.threads := fun hq hm => by
    rw [threads_endThread, hq] at hm
    exact List.mem_of_mem_filter hm
  cases r with
  | finished => exact hend rfl hu
  | failed failure => exact hend (q := p.reportFailure t failure) rfl hu
  | suspended suspension body =>
    simp only [leave] at hu
    split at hu
    · exact hend rfl hu
    · obtain ⟨s, hs, ⟨hst, rfl⟩ | ⟨-, rfl⟩⟩ := mem_updateThread hu
      · exact absurd hst hid
      · exact hs

theorem config_leave (p : Project) (t : Thread) (r : Resumption) :
    (p.leave t r).world.config = p.world.config := by
  obtain ⟨groups, questions, errors, hw⟩ := world_leave p t r
  rw [hw]

theorem mem_woken (hu : u ∈ (p.woken t).2.threads) (hid : u.id ≠ t.id) : u ∈ p.threads := by
  have hstate : u ∈ (p.updateThread t.id fun t => { t with state := .runnable }).threads := by
    unfold woken wake at hu
    split at hu
    · exact hu
    · dsimp only at hu
      split at hu
      · obtain ⟨s, hs, ⟨hst, rfl⟩ | ⟨-, rfl⟩⟩ := mem_updateThread hu
        · exact absurd hst hid
        · exact hs
      · exact hu
  obtain ⟨s, hs, ⟨hst, rfl⟩ | ⟨-, rfl⟩⟩ := mem_updateThread hstate
  · exact absurd hst hid
  · exact hs

theorem config_stepped (hq : Stepped κ p t q) : q.world.config = p.world.config := by
  cases hq with
  | mk hd hc =>
    rw [config_settle, config_leave, hc.config, hd.config, world_woken]

theorem lastThread_leave (p : Project) (t : Thread) (r : Resumption) :
    (p.leave t r).lastThread = p.lastThread := by
  cases r with
  | finished => exact lastThread_endThread p t.id
  | failed failure => exact lastThread_endThread (p.reportFailure t failure) t.id
  | suspended suspension body =>
    simp only [leave]
    split
    · exact lastThread_endThread p t.id
    · rfl

theorem changes_run {mid last : Project} {halt : Halt} (hp : t.id ≤ p.lastThread)
    (hd : Deeds κ t.handle (p.woken t).2 mid) (hc : Closes κ t.handle mid halt last) :
    Changes (.under κ) p last := by
  have hmid : Changes (.under κ) p mid :=
    (changes_woken trivial).trans (changes_of_deeds (licensed_under κ _) hd)
  exact hmid.trans (changes_of_closes (h := t.handle) trivial trivial
    (Nat.le_trans hp hmid.lastThread_le) hc)

theorem others_settled {R : Thread → Thread → Prop} (hR : ∀ s u, R s u → u.id = s.id)
    {last : Project} {r : Resumption} (h : Along R (p.woken t).2 last)
    (hl : p.lastThread ≤ last.lastThread) (hu : u ∈ (last.leave t r).settle.threads)
    (hid : u.id ≠ t.id) : (∃ s ∈ p.threads, R s u) ∨ p.lastThread < u.id ∧ u.Fresh := by
  rcases fresh_settle hu with hu | ⟨hlast, hf⟩
  · obtain ⟨s, hs, hsu⟩ := h.mem (mem_leave hu hid)
    exact .inl ⟨s, mem_woken hs (hR s u hsu ▸ hid), hsu⟩
  · rw [lastThread_leave] at hlast
    exact .inr ⟨Nat.lt_of_le_of_lt hl hlast, hf⟩

-- Whatever a resumption does, the other threads that outlive it have been left where they were.
theorem others_stepped (hq : Stepped κ p t q) (hp : t.id ≤ p.lastThread) (hu : u ∈ q.threads)
    (hid : u.id ≠ t.id) :
    (∃ s ∈ p.threads, s.Stays u) ∨ p.lastThread < u.id ∧ u.Fresh := by
  cases hq with
  | mk hd hc =>
    have hrun := hd.stays.trans .trans (hc.tends.imp fun _ _ h => h.toStays)
    exact others_settled (fun _ _ h => h.id) hrun (changes_run hp hd hc).lastThread_le hu hid

theorem others_awaited (hκ : κ.Awaits) (hq : Stepped κ p t q) (hp : t.id ≤ p.lastThread)
    (hu : u ∈ q.threads) (hid : u.id ≠ t.id) :
    (∃ s ∈ p.threads, s.Tends t.id u) ∨ p.lastThread < u.id ∧ u.Fresh := by
  cases hq with
  | mk hd hc =>
    have hrun := (hd.tends hκ).1.trans .trans hc.tends
    exact others_settled (fun _ _ h => h.id) hrun (changes_run hp hd hc).lastThread_le hu hid

end Resumed

end Project

end SpriteStage

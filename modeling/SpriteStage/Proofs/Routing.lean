import SpriteStage.Proofs.Answering

namespace SpriteStage

open Project

-- A thread that has been answered and not been resumed since.
structure Thread.Holds (text : String) (t : Thread) : Prop where
  state : t.state = .runnable
  asks : t.Asks
  resume : t.mailbox.resume = some (.ok text)

def Thread.answered (text : String) (t : Thread) : Thread :=
  { t with state := .runnable, mailbox := { t.mailbox with resume := some (.ok text) } }

theorem ThreadState.elapsed_runnable {s : ThreadState} {seconds : Float} :
    s.elapsed seconds = .runnable ↔ s = .runnable := by
  cases s <;> simp [elapsed]

namespace Project

variable {κ : Conduct} {p q : Project} {t u : Thread}

theorem threads_loadAssets (p : Project) (loader : Loader) :
    (p.loadAssets loader).threads = p.threads := by
  rw [loadAssets_eq, poll_eq]

theorem fresh_apply {op : Operation} (hn : ∀ text, op ≠ .answer text)
    (hu : u ∈ (op.apply p).threads) : u ∈ p.threads ∨ p.lastThread < u.id ∧ u.Fresh := by
  cases op with
  | register c kind => exact .inl (threads_register p c kind ▸ hu)
  | broadcast message => exact fresh_launchAll (p := p.updateWorld _) hu
  | greenFlag =>
    rcases fresh_launchAll (p := p.stopEverything.updateWorld _) hu with h | h
    · cases h
    · exact .inr h
  | redStop => cases hu
  | answer text => exact absurd rfl (hn text)
  | loadAssets loader => exact .inl (threads_loadAssets p loader ▸ hu)
  | poll => exact .inl (threads_poll p ▸ hu)
  | _ => exact .inl hu

end Project

namespace Moment

variable {κ : Conduct} {m m' n : Moment} {p q : Project} {t u : Thread} {text : String}

-- How a thread has come out of one step.
inductive Comes (m m' : Moment) (u : Thread) : Prop where
  | fresh (hl : m.project.lastThread < u.id) (hf : u.Fresh)
  | kept {s : Thread} (hs : s ∈ m.project.threads) (hc : s.Continues u) (hb : u.body = s.body)
      (hr : u.mailbox.resume = s.mailbox.resume)
      (h : u.state = s.state ∨ ∃ seconds, u.state = s.state.elapsed seconds)
  | answered {s : Thread} {k : Question} {rest : List Question} {text : String}
      (hs : s ∈ m.project.threads) (hq : m.project.world.questions = k :: rest)
      (hid : s.id = k.thread) (hu : u = s.answered text)
      (hm : m'.project = (m.project.answerQuestion text).2)
  | resumed (h : Resumes u.id m m')

theorem comes_of_mem (hu : u ∈ m.project.threads) : Comes m m' u :=
  .kept hu (.refl u) rfl rfl (.inl rfl)

theorem comes_of_or (h : u ∈ m.project.threads ∨ m.project.lastThread < u.id ∧ u.Fresh) :
    Comes m m' u := by
  rcases h with hu | ⟨hl, hf⟩
  · exact comes_of_mem hu
  · exact .fresh hl hf

theorem comes_answerQuestion (hu : u ∈ (p.answerQuestion text).2.threads) :
    Comes ⟨p, []⟩ ⟨(p.answerQuestion text).2, []⟩ u := by
  cases hq : p.world.questions with
  | nil =>
    unfold answerQuestion at hu
    rw [hq] at hu
    exact comes_of_mem hu
  | cons k rest =>
    have hthreads : (p.answerQuestion text).2.threads =
        (p.updateThread k.thread (·.answered text)).threads := by
      unfold answerQuestion
      rw [hq]
      rfl
    rw [hthreads] at hu
    obtain ⟨s, hs, ⟨hid, rfl⟩ | ⟨-, rfl⟩⟩ := mem_updateThread hu
    · exact .answered hs hq hid rfl rfl
    · exact comes_of_mem hs

theorem comes_of_other {ids ids' : List Nat} (hκ : κ.Awaits) (hp : p.Obeys κ) (ht : t ∈ p.threads)
    (hq : Turn κ p t true q) (hu : u ∈ q.threads) (hid : u.id ≠ t.id) :
    Comes ⟨p, ids⟩ ⟨q, ids'⟩ u := by
  have hlast := lastThread_readiness p t.id
  cases hq with
  | resumes hr ht' hc hs =>
    rename_i t'
    have hbound : t'.id ≤ (p.readiness t.id).2.lastThread := by
      rw [hc.id, hlast]
      exact hp.bounded t ht
    have hid' : u.id ≠ t'.id := hc.id ▸ hid
    rcases others_awaited hκ hs hbound hu hid' with ⟨s, hsm, hsu⟩ | ⟨hlt, hf⟩
    · have hne : s.id ≠ t'.id := hsu.id ▸ hid'
      have hresume := hsu.resume.resolve_right fun h => hne h.1
      exact .kept (mem_readiness hsm (hc.id ▸ hne)) hsu.toContinues hsu.body hresume (.inl hsu.state)
    · exact .fresh (hlast ▸ hlt) hf

theorem Step.comes (hs : Step κ m m') (hm : Reachable κ m) (hκ : κ.Awaits)
    (hu : u ∈ m'.project.threads) : Comes m m' u := by
  cases hs with
  | operate h =>
    rename_i p op
    by_cases hop : ∃ text, op = .answer text
    · obtain ⟨text, rfl⟩ := hop
      exact comes_answerQuestion hu
    · exact comes_of_or (fresh_apply (fun text he => hop ⟨text, he⟩) hu)
  | frame =>
    rename_i p
    obtain ⟨news, hnews, hfresh⟩ := threads_prepare_fresh hm.obeys.toRanked
    rw [hnews] at hu
    exact comes_of_or ((List.mem_append.1 hu).imp_right (hfresh u))
  | turn h =>
    rename_i laps id ids resumed p q
    cases resumed with
    | false =>
      have hq := (hm.passes h).waits rfl
      subst hq
      obtain ⟨s, hs, ⟨-, rfl⟩ | ⟨-, rfl⟩⟩ := mem_updateThread hu
      · exact .kept hs ⟨rfl, rfl, rfl, rfl, rfl⟩ rfl rfl (.inr ⟨_, rfl⟩)
      · exact comes_of_mem hs
    | true =>
      by_cases hid : u.id = id
      · subst hid
        exact .resumed (.mk h)
      · cases ht : p.thread? id with
        | none =>
          rw [turn?_of_gone ht] at h
          cases h
        | some t =>
          obtain rfl := id_of_thread? ht
          have hmem : t ∈ p.threads := List.mem_of_find?_eq_some ht
          exact comes_of_other hκ hm.obeys hmem (turn_of_turn? hm.obeys hmem h) hu hid

-- A resumption takes the answer out, and puts none in.
theorem Reachable.silent_of_resumes (hm : Reachable κ m) (hκ : κ.Awaits) (h : Resumes u.id m m')
    (hu : u ∈ m'.project.threads) : u.mailbox.resume ≠ some (.ok text) := by
  intro he
  have hstate := ((hm.step h.step).attentive hκ).attuned u hu |>.heard text he
  cases h with
  | mk h =>
    rename_i laps ids p q
    cases ht : p.thread? u.id with
    | none =>
      rw [turn?_of_gone ht] at h
      cases h
    | some t =>
      have hmem : t ∈ p.threads := List.mem_of_find?_eq_some ht
      have hid : t.id = u.id := id_of_thread? ht
      have hturn : Turn κ p t true q := turn_of_turn? hm.obeys hmem (hid ▸ h)
      obtain ⟨t', -, hpaused⟩ := paused_of_turn hturn hm.obeys hu hid.symm
      cases hpaused with
      | mk hd hw hs hb hc hstop =>
        rename_i suspension
        rw [hstate.1] at hs
        cases suspension <;> cases hs

-- Where an answer comes from: the host has just given it, or it was there before and not yet taken.
inductive Given (text : String) (u : Thread) (m m' : Moment) : Prop where
  | now {s : Thread} {k : Question} {rest : List Question} (hs : s ∈ m.project.threads)
      (hq : m.project.world.questions = k :: rest) (hid : s.id = k.thread)
      (hstate : s.state = .answer k.id) (hu : u = s.answered text)
      (hm : m'.project = (m.project.answerQuestion text).2)
  | before {s : Thread} (hs : s ∈ m.project.threads) (hst : s.Stays u) (h : s.Holds text)

theorem Reachable.given (hm : Reachable κ m) (hκ : κ.Awaits) (hs : Step κ m m')
    (hu : u ∈ m'.project.threads) (he : u.mailbox.resume = some (.ok text)) : Given text u m m' := by
  have ha := hm.attentive hκ
  have hheard := (((hm.step hs).attentive hκ).attuned u hu).heard text he
  cases hs.comes hm hκ hu with
  | fresh hl hf =>
    rw [hf.resume] at he
    cases he
  | kept hs hc hb hr h =>
    rename_i s
    have hstate : s.state = .runnable := by
      rcases h with h | ⟨seconds, h⟩
      · exact h.symm.trans hheard.1
      · exact ThreadState.elapsed_runnable.1 (h.symm.trans hheard.1)
    refine .before hs ⟨hc, hheard.1.trans hstate.symm, hb⟩ ⟨hstate, ?_, hr.symm.trans he⟩
    exact ((ha.attuned s hs).heard text (hr.symm.trans he)).2
  | answered hs hq hid hu' hm' =>
    rename_i s k rest text'
    subst hu'
    obtain rfl : text' = text := by simpa [Thread.answered] using he
    obtain ⟨t, ht, htid, -, hstate⟩ := ha.askers k (hq ▸ List.mem_cons_self)
    obtain rfl := hm.obeys.toRanked.eq_of_id hs ht (htid.trans hid.symm)
    exact .now hs hq hid hstate rfl hm'
  | resumed h => exact absurd he (hm.silent_of_resumes hκ h hu)

theorem Step.holds (hs : Step κ m m') (hm : Reachable κ m) (hκ : κ.Awaits)
    (ht : t ∈ m.project.threads) (hh : t.Holds text) (hn : ¬ Resumes t.id m m')
    (hu : u ∈ m'.project.threads) (hid : u.id = t.id) : t.Stays u ∧ u.Holds text := by
  have hsame : ∀ {s : Thread}, s ∈ m.project.threads → s.id = u.id → s = t := fun hs hsid =>
    hm.obeys.toRanked.eq_of_id ht hs (hsid.trans hid)
  cases hs.comes hm hκ hu with
  | fresh hl hf =>
    rw [hid] at hl
    exact absurd (hm.obeys.bounded t ht) (Nat.not_le_of_lt hl)
  | kept hs hc hb hr h =>
    obtain rfl := hsame hs hc.id.symm
    have hstate : u.state = .runnable := by
      rcases h with h | ⟨seconds, h⟩
      · exact h.trans hh.state
      · exact h.trans (ThreadState.elapsed_runnable.2 hh.state)
    have hasks : u.Asks := by
      rw [Thread.Asks, hb]
      exact hh.asks
    exact ⟨⟨hc, hstate.trans hh.state.symm, hb⟩, hstate, hasks, hr.trans hh.resume⟩
  | answered hs hq hsid hu' hm' =>
    rename_i s k rest text'
    subst hu'
    obtain rfl := hsame hs rfl
    obtain ⟨a, ha, haid, -, hstate⟩ := (hm.attentive hκ).askers k (hq ▸ List.mem_cons_self)
    obtain rfl := hm.obeys.toRanked.eq_of_id ht ha (haid.trans hsid.symm)
    rw [hh.state] at hstate
    cases hstate
  | resumed h => exact absurd (hid ▸ h) hn

theorem Reachable.holds (hm : Reachable κ m) (hκ : κ.Awaits) (ht : t ∈ m.project.threads)
    (hh : t.Holds text) (hn : Relation.ReflTransGen (Awaits κ t.id) m n) (hu : u ∈ n.project.threads)
    (hid : u.id = t.id) : t.Stays u ∧ u.Holds text := by
  induction hn generalizing u with
  | refl =>
    obtain rfl := hm.obeys.toRanked.eq_of_id ht hu hid
    exact ⟨.refl u, hh⟩
  | tail hpr hq ih =>
    have hr := hm.steps (Awaits.steps hpr)
    have hle : u.id ≤ _ := hid ▸ Nat.le_trans (hm.obeys.bounded t ht)
      (hm.changes_of_steps (Awaits.steps hpr)).lastThread_le
    obtain ⟨s, hs, hsu⟩ := (hr.changes_of_step hq.1).continued hu hle
    have hsid : s.id = t.id := hsu.id.symm.trans hid
    obtain ⟨hst, hsh⟩ := ih hs hsid
    obtain ⟨hsu', huh⟩ := hq.1.holds hr hκ hs hsh (hsid ▸ hq.2) hu (hid.trans hsid.symm)
    exact ⟨hst.trans hsu', huh⟩

theorem woken_of_holds {prompt : Option String} {next : Except CallError String → Behavior}
    (hb : t.body = .waiting (.ask prompt) next) (hr : t.mailbox.resume = some (.ok text)) :
    (p.woken t).1 = next (.ok text) := by
  unfold woken wake
  rw [hb, hr]
  rfl

-- The turn of a thread that has been answered: it goes on with the answer, if it is still there.
structure Collects (laps : Nat) (p : Project) (t : Thread) (run : Behavior) (resumed : Bool)
    (q : Project) : Prop where
  due : resumed = true ↔ p.Has t.id
  run : resumed = true → ∃ u ∈ p.threads, u.id = t.id ∧ ∃ r last,
    runOn? t.handle laps run (p.woken u).2 = some (r, last) ∧ q = (last.leave u r).settle

theorem Reachable.collects {laps : Nat} {ids : List Nat} {resumed : Bool} {prompt : Option String}
    {next : Except CallError String → Behavior} (hm : Reachable κ ⟨p, t.id :: ids⟩)
    (hb : t.body = .waiting (.ask prompt) next)
    (hh : ∀ u ∈ p.threads, u.id = t.id → t.Stays u ∧ u.Holds text)
    (h : p.turn? laps t.id = some (resumed, q)) :
    Collects laps p t (next (.ok text)) resumed q := by
  have hp := hm.passes h
  have hdue : resumed = true ↔ p.Has t.id := by
    rw [hp.due]
    refine ⟨fun ⟨u, hu, hid, _⟩ => ⟨u, hu, hid⟩, fun ⟨u, hu, hid⟩ => ⟨u, hu, hid, ?_⟩⟩
    rw [Thread.Due, (hh u hu hid).2.state]
    trivial
  refine ⟨hdue, fun hr => ?_⟩
  obtain ⟨u, hu, hid⟩ := hdue.1 hr
  obtain ⟨hst, hhu⟩ := hh u hu hid
  have hthread := hm.obeys.toRanked.thread?_of_mem hu
  have hready : p.readiness t.id = (.due, p) := by
    unfold readiness
    rw [← hid, hthread]
    dsimp only
    rw [if_pos (hm.owns hu).isLive, hhu.state]
  unfold turn? at h
  rw [hready] at h
  obtain ⟨q', hstep, hq⟩ := Option.map_eq_some_iff.1 h
  cases hq
  obtain ⟨r, last, hrun, rfl⟩ := step?_eq_some (hid ▸ hthread) hstep
  rw [woken_of_holds (hst.body.trans hb) hhu.resume] at hrun
  have hhandle : u.handle = t.handle := by
    rw [Thread.handle, hst.id, hst.owner]
    rfl
  exact ⟨u, hu, hid, r, last, hhandle ▸ hrun, rfl⟩

-- What an answer does, from the moment it is given until its asker has gone on with it.
inductive Delivers (κ : Conduct) (p : Project) (text : String) (k : Question)
    (rest : List Question) : Prop where
  | mk {t : Thread} {prompt : Option String} {next : Except CallError String → Behavior}
      {q : Project} (ht : t ∈ p.threads) (hid : t.id = k.thread) (ho : t.owner = k.owner)
      (hs : t.state = .answer k.id) (hb : t.body = .waiting (.ask prompt) next)
      (hq : p.answerQuestion text = (.ok (), q))
      (hworld : q.world = { p.world with questions := rest })
      (hthreads : q.threads = p.threads.map fun u => if u.id = t.id then t.answered text else u)
      (hlater : ∀ {n : Moment}, Relation.ReflTransGen (Awaits κ t.id) ⟨q, []⟩ n →
        (∀ u ∈ n.project.threads, u.id = t.id → (t.answered text).Stays u ∧ u.Holds text) ∧
          ∀ {laps : Nat} {ids : List Nat} {resumed : Bool} {r r' : Project}, n = ⟨r, t.id :: ids⟩ →
            r.turn? laps t.id = some (resumed, r') →
              Collects laps r t (next (.ok text)) resumed r') : Delivers κ p text k rest

theorem Reachable.delivers {k : Question} {rest : List Question} (hm : Reachable κ ⟨p, []⟩)
    (hκ : κ.Awaits) (hq : p.world.questions = k :: rest) (text : String) :
    Delivers κ p text k rest := by
  have ha : p.Attentive := hm.attentive hκ
  obtain ⟨t, ht, hid, ho, hs⟩ := ha.askers k (hq ▸ List.mem_cons_self)
  obtain ⟨prompt, next, hb⟩ := (ha.attuned t ht).asking k.id hs
  obtain ⟨q, hanswer⟩ : ∃ q, p.answerQuestion text = (.ok (), q) := by
    unfold answerQuestion
    rw [hq]
    exact ⟨_, rfl⟩
  have hafter : Reachable κ ⟨q, []⟩ := by
    have hstep : Step κ ⟨p, []⟩ ⟨(Operation.answer text).apply p, []⟩ := .operate trivial
    have happly : (Operation.answer text).apply p = q := congrArg Prod.snd hanswer
    exact hm.step (happly ▸ hstep)
  have hupdated : q = (p.updateWorld fun w => { w with questions := rest }).updateThread t.id
      (·.answered text) := by
    unfold answerQuestion at hanswer
    rw [hq] at hanswer
    rw [hid]
    exact (congrArg Prod.snd hanswer).symm
  have hthreads : q.threads = p.threads.map fun u => if u.id = t.id then t.answered text else u := by
    rw [hupdated]
    refine List.map_congr_left fun u hu => ?_
    split
    · rename_i he
      rw [hm.obeys.toRanked.eq_of_id ht hu he]
    · rfl
  have hmem : t.answered text ∈ q.threads := by
    rw [hthreads]
    exact List.mem_map.2 ⟨t, ht, if_pos rfl⟩
  have hholds : (t.answered text).Holds text := ⟨rfl, ⟨prompt, next, hb⟩, rfl⟩
  refine .mk ht hid ho hs hb hanswer (by rw [hupdated]; rfl) hthreads fun {n} hn => ?_
  have hlater : ∀ u ∈ n.project.threads, u.id = t.id → (t.answered text).Stays u ∧ u.Holds text :=
    fun u hu hid => hafter.holds hκ hmem hholds hn hu hid
  refine ⟨hlater, ?_⟩
  rintro laps ids resumed r r' rfl h
  obtain ⟨hdue, hrun⟩ := Reachable.collects (t := t.answered text)
    (hafter.steps (Awaits.steps hn)) hb hlater h
  exact ⟨hdue, hrun⟩

theorem Reachable.answers_routed (hm : Reachable κ m) (hκ : κ.Awaits) :
    m.project.Queued ∧ (m.project.world.questions.map (·.thread)).Nodup ∧
      (m.project.world.questions = [] → ∀ text,
        m.project.answerQuestion text = (.error .noPendingQuestion, m.project)) ∧
      (m.turns = [] → ∀ {k : Question} {rest : List Question},
        m.project.world.questions = k :: rest → ∀ text, Delivers κ m.project text k rest) ∧
      ∀ {m' : Moment} {u : Thread} {text : String}, Step κ m m' → u ∈ m'.project.threads →
        u.mailbox.resume = some (.ok text) → u.Holds text ∧ Given text u m m' ∧ ¬ Resumes u.id m m' := by
  have ha := hm.attentive hκ
  refine ⟨ha.toQueued, ?_, fun hq text => ?_, fun ht k rest hq text => ?_, fun hs hu he => ?_⟩
  · refine List.pairwise_map.2 (ha.ordered.imp_of_mem fun hk hk' hlt he => ?_)
    exact Nat.ne_of_gt hlt (ha.eq_of_thread hm.obeys.toRanked hk hk' he.symm)
  · unfold answerQuestion
    rw [hq]
  · obtain ⟨p, turns⟩ := m
    obtain rfl : turns = [] := ht
    exact hm.delivers hκ hq text
  · obtain ⟨hstate, hasks⟩ := (((hm.step hs).attentive hκ).attuned _ hu).heard _ he
    exact ⟨⟨hstate, hasks, he⟩, hm.given hκ hs hu he,
      fun hr => hm.silent_of_resumes hκ hr hu he⟩

def curious : Handle → Behavior := fun _ => .pause (.ask (some "who")) fun _ => .finish

-- The clone of a scare has asked in its first frame, and is answered before the next one.
def questioned : Project := ((haunted "boo" curious).prepare.turned 1).prepare.turned 2

theorem haunted_answered :
    questioned.Queued ∧ questioned.world.questions = [⟨1, 2, 2, some "who"⟩] ∧
      Delivers .awaiting questioned "me" ⟨1, 2, 2, some "who"⟩ [] ∧
      ((questioned.answerQuestion "me").2.frame? 1).map (·.1) = some [2] := by
  have hstart : Reachable .awaiting ⟨haunted "boo" curious, []⟩ := by
    refine reachable_haunted (fun _ => trivial) (fun d hd h => ?_) "boo"
    simp only [ghost, List.mem_cons, List.not_mem_nil, or_false] at hd
    rcases hd with rfl | rfl | rfl
    · exact fun _ => trivial
    · exact ⟨rfl, fun _ => trivial⟩
    · exact fun _ => trivial
  have hscare : ((haunted "boo" curious).prepare.turn? 1 1).map (·.1) = some true := rfl
  have hask : (((haunted "boo" curious).prepare.turned 1).prepare.turn? 1 2).map (·.1) = some true :=
    rfl
  have hm : Reachable .awaiting ⟨questioned, []⟩ :=
    (((hstart.step .frame).turned hscare).step .frame).turned hask
  have hquestions : questioned.world.questions = [⟨1, 2, 2, some "who"⟩] := by decide +kernel
  obtain ⟨hqueued, -, -, hdelivers, -⟩ := Reachable.answers_routed hm Conduct.awaits_awaiting
  exact ⟨hqueued, hquestions, hdelivers rfl hquestions "me", by decide +kernel⟩

end Moment

end SpriteStage

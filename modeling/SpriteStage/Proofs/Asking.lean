import SpriteStage.Proofs.Settlement

namespace SpriteStage

open Project

namespace Project

variable {σ : Scope} {κ : Conduct} {p q : Project} {t u : Thread}

section Questions

theorem questions_endThread (p : Project) (id : Nat) :
    (p.endThread id).world.questions.Sublist p.world.questions := by
  obtain ⟨groups, questions, hw, hs⟩ := world_endThread p id
  rw [hw]
  exact hs

theorem questions_launch (p : Project) (s : Spawn) :
    (p.launch s).world.questions = p.world.questions := by
  obtain ⟨groups, hw⟩ := world_launch p s
  rw [hw]

theorem questions_queueGroup (w : World) (starts : List World.Start) :
    (w.queueGroup starts).2.questions = w.questions := by
  obtain ⟨lastGroup, groups, spawns, hw, -⟩ := world_queueGroup w starts
  rw [hw]

theorem questions_deleteInstance (w : World) (id : Nat) :
    (w.deleteInstance id).2.questions = w.questions := by
  rcases World.deleteInstance_cases w id with he | ⟨i, -, -, he⟩
  · rw [he]
  · rw [he]
    rfl

theorem Change.questions (h : Change σ p q) :
    q.world.questions.Sublist p.world.questions ∨
      ∃ k : Question, σ.turns k.thread ∧ (σ.conduct.Awaits → k.thread ≤ p.lastThread) ∧
        k.id = p.world.lastQuestion + 1 ∧ q.world.lastQuestion = k.id ∧
        q.world.questions = p.world.questions ++ [k] := by
  cases h with
  | aside h => exact .inl (h.world.questions ▸ .refl _)
  | dispatched trigger => exact .inl (questions_queueGroup p.world _ ▸ .refl _)
  | dispatchedTo trigger owner => exact .inl (questions_queueGroup p.world _ ▸ .refl _)
  | asked ht hl prompt => exact .inr ⟨_, ht, hl, rfl, rfl, rfl⟩
  | heard h => exact .inl (h ▸ List.sublist_cons_self _ _)
  | removed h => exact .inl (questions_deleteInstance p.world _ ▸ .refl _)
  | ended id => exact .inl (questions_endThread p id)
  | launched h => exact .inl (questions_launch (p.updateWorld _) _ ▸ .refl _)
  | cleared => exact .inl (List.nil_sublist _)
  | _ => exact .inl (.refl _)

theorem Changes.questions (h : Changes σ p q) {k : Question} (hk : k ∈ q.world.questions) :
    k ∈ p.world.questions ∨ σ.turns k.thread := by
  induction h with
  | refl => exact .inl hk
  | tail _ hq ih =>
    rcases hq.questions with hs | ⟨j, hj, -, -, -, he⟩
    · exact ih (hs.mem hk)
    · rw [he] at hk
      rcases List.mem_append.1 hk with hk | hk
      · exact ih hk
      · obtain rfl := List.mem_singleton.1 hk
        exact .inr hj

theorem Change.last_le (h : Change σ p q) :
    p.world.lastGroup ≤ q.world.lastGroup ∧ p.world.lastQuestion ≤ q.world.lastQuestion := by
  have hqueue : ∀ starts, p.world.lastGroup ≤ (p.world.queueGroup starts).2.lastGroup ∧
      p.world.lastQuestion ≤ (p.world.queueGroup starts).2.lastQuestion := fun starts => by
    obtain ⟨lastGroup, groups, spawns, hw, hle⟩ := world_queueGroup p.world starts
    rw [hw]
    exact ⟨hle, Nat.le_refl _⟩
  cases h with
  | aside h => exact ⟨Nat.le_of_eq h.world.lastGroup.symm, Nat.le_of_eq h.world.lastQuestion.symm⟩
  | dispatched trigger => exact hqueue _
  | dispatchedTo trigger owner => exact hqueue _
  | asked ht hl prompt => exact ⟨Nat.le_refl _, Nat.le_succ _⟩
  | removed h =>
    rename_i id
    rcases World.deleteInstance_cases p.world id with he | ⟨i, -, -, he⟩
    · rw [updateWorld, he]
      exact ⟨Nat.le_refl _, Nat.le_refl _⟩
    · rw [updateWorld, he]
      exact ⟨Nat.le_refl _, Nat.le_refl _⟩
  | ended id =>
    obtain ⟨groups, questions, hw, -⟩ := world_endThread p id
    rw [hw]
    exact ⟨Nat.le_refl _, Nat.le_refl _⟩
  | launched h =>
    obtain ⟨groups, hw⟩ := world_launch (p.updateWorld _) _
    rw [hw]
    exact ⟨Nat.le_refl _, Nat.le_refl _⟩
  | _ => exact ⟨Nat.le_refl _, Nat.le_refl _⟩

theorem Changes.lastGroup_le (h : Changes σ p q) : p.world.lastGroup ≤ q.world.lastGroup := by
  induction h with
  | refl => exact Nat.le_refl _
  | tail _ hq ih => exact Nat.le_trans ih hq.last_le.1

structure Numbered (p : Project) : Prop where
  ids : (p.world.questions.map (·.id)).Nodup
  allocated : ∀ k ∈ p.world.questions, k.id ≤ p.world.lastQuestion
  askers : ∀ k ∈ p.world.questions, k.thread ≤ p.lastThread

theorem Numbered.of_blank (hp : p.Blank) : p.Numbered := by
  constructor
  · simp [hp.world.questions]
  · simp [hp.world.questions]
  · simp [hp.world.questions]

theorem Numbered.change (hp : p.Numbered) (hκ : σ.conduct.Awaits) (h : Change σ p q) :
    q.Numbered := by
  have hlast := h.last_le.2
  have hthread := h.lastThread_le
  rcases h.questions with hs | ⟨k, -, hl, hid, hq, he⟩
  · exact ⟨hp.ids.sublist (hs.map _), fun k hk => Nat.le_trans (hp.allocated k (hs.mem hk)) hlast,
      fun k hk => Nat.le_trans (hp.askers k (hs.mem hk)) hthread⟩
  · refine ⟨?_, fun j hj => ?_, fun j hj => ?_⟩
    · rw [he, List.map_append]
      refine List.nodup_append.2 ⟨hp.ids, List.nodup_cons.2 ⟨List.not_mem_nil, .nil⟩, ?_⟩
      rintro x hx y hy rfl
      obtain ⟨j, hj, rfl⟩ := List.mem_map.1 hx
      have hle := hp.allocated j hj
      have heq : j.id = k.id := List.mem_singleton.1 hy
      omega
    · rw [he] at hj
      rcases List.mem_append.1 hj with hj | hj
      · exact Nat.le_trans (hp.allocated j hj) hlast
      · obtain rfl := List.mem_singleton.1 hj
        exact Nat.le_of_eq hq.symm
    · rw [he] at hj
      rcases List.mem_append.1 hj with hj | hj
      · exact Nat.le_trans (hp.askers j hj) hthread
      · obtain rfl := List.mem_singleton.1 hj
        exact Nat.le_trans (hl hκ) hthread

end Questions

section Paused

-- A thread that outlives its own resumption begins a wait, and what it waits for becomes its state.
inductive Paused (κ : Conduct) (p : Project) (t u : Thread) : Project → Prop where
  | mk {mid begun : Project} {wait : Wait} {next : Except CallError wait.Reply → Behavior}
      {suspension : Suspension} (hd : Deeds κ t.handle (p.woken t).2 mid)
      (hw : mid.begin t.handle wait = (.suspends suspension, begun))
      (hs : ThreadState.ofSuspension? suspension = some u.state) (hb : u.body = .waiting wait next)
      (hc : t.Continues u) (hstop : begun.world.stopRequested = false) :
      Paused κ p t u ((begun.updateMailbox t.id fun m => { m with pending := none }).updateThread
        t.id fun t => { t with state := u.state, body := u.body }).settle

theorem paused_of_stepped (hq : Stepped κ p t q) (hp : p.Ranked) (ht : t ∈ p.threads)
    (hu : u ∈ q.threads) (hid : u.id = t.id) : Paused κ p t u q := by
  have hl : u.id ≤ p.lastThread := hid ▸ hp.bounded t ht
  have hall : Changes (.under κ) p q :=
    changes_stepped hq hp ht (licensed_under κ _) trivial ⟨fun _ => trivial, trivial⟩
  have hcont : t.Continues u := by
    obtain ⟨s, hs, hsu⟩ := hall.continued hu hl
    rwa [hp.eq_of_id ht hs (hsu.id.symm.trans hid)] at hsu
  cases hq with
  | mk hd hc =>
    rename_i mid last r
    have hmid : Changes (.under κ) p mid :=
      (changes_woken trivial).trans (changes_of_deeds (licensed_under κ _) hd)
    have hlast : Changes (.under κ) mid last := changes_of_closes (h := t.handle) trivial trivial
      (Nat.le_trans (hp.bounded t ht) hmid.lastThread_le) hc
    have hle : u.id ≤ last.lastThread :=
      Nat.le_trans hl (Nat.le_trans hmid.lastThread_le hlast.lastThread_le)
    have hgone : ∀ {p' : Project}, p'.lastThread = last.lastThread →
        u ∉ (p'.endThread t.id).settle.threads := fun {p'} he hm => by
      obtain ⟨hm, -⟩ := mem_settle hm (by rw [lastThread_endThread, he]; exact hle)
      rw [threads_endThread] at hm
      exact absurd hid (of_decide_eq_true (List.mem_filter.1 hm).2)
    cases r with
    | finished => exact absurd hu (hgone rfl)
    | failed failure => exact absurd hu (hgone rfl)
    | suspended suspension body =>
      cases hc with
      | suspended hk hw =>
        rename_i wait next begun
        simp only [leave] at hu ⊢
        cases hs : ThreadState.ofSuspension? suspension with
        | none =>
          rw [hs] at hu
          exact absurd hu (hgone rfl)
        | some state =>
          rw [hs] at hu
          obtain ⟨hm, hstop⟩ := mem_settle hu hle
          obtain ⟨s, hs', ⟨-, rfl⟩ | ⟨hne, rfl⟩⟩ := mem_updateThread hm
          · exact .mk hd hw hs rfl hcont hstop
          · exact absurd hid hne

theorem paused_of_turn (hq : Turn κ p t true q) (hp : p.Obeys κ) (hu : u ∈ q.threads)
    (hid : u.id = t.id) : ∃ t', t.Continues t' ∧ Paused κ (p.readiness t.id).2 t' u q := by
  cases hq with
  | resumes hr ht hc hs =>
    exact ⟨_, hc, paused_of_stepped hs (obeys_readiness hp t.id).toRanked ht hu
      (hid.trans hc.id.symm)⟩

end Paused

section Asked

def Asked (p : Project) : Prop :=
  ∀ k ∈ p.world.questions, ∀ t ∈ p.threads, t.id = k.thread → t.state = .answer k.id

-- No thread takes its turn.
def idle (κ : Conduct) : Scope := ⟨fun _ => False, fun _ => True, κ, True⟩

theorem open_idle (κ : Conduct) : (idle κ).Open := ⟨fun _ => trivial, trivial⟩

theorem Asked.of_blank (hp : p.Blank) : p.Asked := by
  simp [Asked, hp.world.questions]

theorem Asked.still (ha : p.Asked) (hn : p.Numbered) (h : Changes (idle κ) p q) : q.Asked := by
  intro k hk u hu hid
  have hold : k ∈ p.world.questions := (h.questions hk).resolve_right id
  obtain ⟨t, ht, hs⟩ := h.stays hu (hid ▸ hn.askers k hold) id
  rw [hs.state]
  exact ha k hold t ht (hs.id.symm.trans hid)

theorem Asked.answerQuestion (ha : p.Asked) (hn : p.Numbered) (text : String) :
    (p.answerQuestion text).2.Asked := by
  unfold Project.answerQuestion
  split
  · exact ha
  · rename_i first rest hq
    intro k hk u hu hid
    have hold : k ∈ p.world.questions := hq ▸ List.mem_cons_of_mem _ hk
    have hfirst : first ∈ p.world.questions := hq ▸ List.mem_cons_self
    obtain ⟨t, ht, ⟨htid, rfl⟩ | ⟨-, rfl⟩⟩ := mem_updateThread hu
    · have hsame : ThreadState.answer first.id = .answer k.id :=
        (ha first hfirst t ht htid).symm.trans (ha k hold t ht hid)
      have hsame : first.id = k.id := ThreadState.answer.inj hsame
      have hids := hn.ids
      rw [hq, List.map_cons, List.nodup_cons, hsame] at hids
      exact absurd (List.mem_map_of_mem hk) hids.1
    · exact ha k hold _ ht hid

theorem world_woken (p : Project) (t : Thread) : (p.woken t).2.world = p.world := by
  unfold woken wake
  split
  · rfl
  · dsimp only
    split <;> rfl

theorem questions_begin {h : Handle} {wait : Wait} {suspension : Suspension}
    (hw : p.begin h wait = (.suspends suspension, q)) {k : Question}
    (hk : k ∈ q.world.questions) : k ∈ p.world.questions ∨ suspension = .answer k.id := by
  by_cases hask : ∃ prompt, wait = .ask prompt
  · obtain ⟨prompt, rfl⟩ := hask
    cases hw
    rcases List.mem_append.1 hk with hk | hk
    · exact .inl hk
    · obtain rfl := List.mem_singleton.1 hk
      exact .inr rfl
  · have hc : Changes (idle .any) p (p.begin h wait).2 :=
      changes_begin p wait (fun h => absurd h hask) fun _ => trivial
    rw [hw] at hc
    exact .inl ((hc.questions hk).resolve_right id)

theorem Paused.questions (h : Paused κ p t u q) (hκ : κ.Awaits) {k : Question} (hk : k ∈ q.world.questions) :
    k ∈ p.world.questions ∨ u.state = .answer k.id := by
  cases h with
  | mk hd hw hs hb hc hstop =>
    have hdeeds : Changes (idle κ) (p.woken t).2 _ :=
      changes_of_deeds (licensed_of_awaits (σ := idle κ) hκ _) hd
    have hk := ((changes_settle (σ := idle κ) fun _ _ => trivial).questions hk).resolve_right id
    rcases questions_begin hw hk with hk | hk
    · have hw := (hdeeds.questions hk).resolve_right id
      rw [world_woken] at hw
      exact .inl hw
    · subst hk
      exact .inr (Option.some.inj hs).symm

theorem readiness_of_answer {k : Nat} (ht : p.thread? t.id = some t)
    (hl : p.world.isLive t.owner = true) (hs : t.state = .answer k) :
    p.readiness t.id = (.waiting, p) := by
  unfold readiness
  rw [ht]
  dsimp only
  rw [if_pos hl, hs]

theorem Asked.turn {resumed : Bool} (ha : p.Asked) (hn : p.Numbered) (hκ : κ.Awaits)
    (hp : p.Obeys κ) (ht : t ∈ p.threads) (hl : p.world.isLive t.owner = true) (hq : Turn κ p t resumed q) :
    q.Asked := by
  let σ : Scope := ⟨(· = t.id), fun _ => True, κ, True⟩
  have hc : Changes σ p q :=
    changes_turn hq hp (licensed_of_awaits (σ := σ) hκ _) rfl ⟨fun _ => trivial, trivial⟩
  intro k hk u hu hid
  by_cases hkt : k.thread = t.id
  · by_cases hold : k ∈ p.world.questions
    · have hr := readiness_of_answer (hp.toRanked.thread?_of_mem ht) hl (ha k hold t ht hkt.symm)
      cases hq with
      | waits _ =>
        rw [hr] at hu
        exact ha k hold u hu hid
      | orphaned h =>
        rw [hr] at h
        cases h
      | resumes h =>
        rw [hr] at h
        cases h
    · cases hq with
      | waits _ =>
        rw [world_readiness] at hk
        exact absurd hk hold
      | orphaned h =>
        refine absurd ?_ hold
        rw [← world_readiness p t.id]
        exact (questions_endThread _ _).mem hk
      | resumes hr ht' hc' hs =>
        obtain ⟨t', -, hpause⟩ := paused_of_turn (.resumes hr ht' hc' hs) hp hu (hid.trans hkt)
        refine (hpause.questions hκ hk).resolve_left ?_
        rw [world_readiness]
        exact hold
  · have hold : k ∈ p.world.questions := (hc.questions hk).resolve_right hkt
    obtain ⟨s, hs, hsu⟩ := hc.stays hu (hid ▸ hn.askers k hold) (hid ▸ hkt)
    rw [hsu.state]
    exact ha k hold s hs (hsu.id.symm.trans hid)

theorem threads_register (p : Project) (c : ActorClass) (kind : ActorKind) :
    (p.register c kind).2.threads = p.threads := by
  obtain ⟨actors, instances, last, journal, hq⟩ := register_writes p c kind
  rw [hq]

end Asked

end Project

namespace Moment

variable {κ : Conduct} {m m' : Moment}

theorem Reachable.numbered (hm : Reachable κ m) (hκ : κ.Awaits) : m.project.Numbered :=
  hm.invariant (I := Numbered) (fun _ hp => .of_blank hp)
    (fun _ hp h => hp.change (σ := .under κ) hκ h) .refl

theorem Start.threads {p : Project} (h : Start κ p) : p.threads = [] := by
  cases h with
  | new h bus hl => exact (blank_of_new h).threads
  | script h hl hj =>
    refine load_invariant (I := fun p => p.threads = []) (fun p _ hp _ => hp.threads)
      (fun p c kind _ hp => ?_) h
    exact (threads_register p c kind).trans hp

theorem Step.asked (hs : Step κ m m') (hm : Reachable κ m) (hκ : κ.Awaits)
    (ha : m.project.Asked) : m'.project.Asked := by
  have hn := hm.numbered hκ
  cases hs with
  | operate h =>
    rename_i p op
    cases op with
    | answer text => exact ha.answerQuestion hn text
    | _ => exact ha.still hn (changes_apply h (open_idle κ) p (by rintro _ _ _ ⟨⟩))
  | frame => exact ha.still hn (changes_prepare (σ := idle κ) trivial _)
  | turn h =>
    rename_i laps id ids resumed p q
    cases ht : p.thread? id with
    | none =>
      rw [turn?_of_gone ht] at h
      cases h
      exact ha
    | some t =>
      obtain rfl := id_of_thread? ht
      have hmem : t ∈ p.threads := List.mem_of_find?_eq_some ht
      exact ha.turn hn hκ hm.obeys hmem (hm.owns hmem).isLive (turn_of_turn? hm.obeys hmem h)

theorem Reachable.asked (hm : Reachable κ m) (hκ : κ.Awaits) : m.project.Asked :=
  hm.induction (motive := fun m => m.project.Asked)
    (fun h k _ t ht => by simp [h.threads] at ht) fun hm hs ih =>
      hs.asked hm hκ ih

end Moment

end SpriteStage

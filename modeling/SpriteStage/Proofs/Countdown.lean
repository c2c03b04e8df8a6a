import SpriteStage.Proofs.Fixture
import SpriteStage.Proofs.Routing

namespace SpriteStage

open Project

-- What is left of a wait when so many frames have been counted off it.
def countdown (seconds frame : Float) : Nat → Float
  | 0 => if seconds > 0.0 then seconds else 0.0
  | k + 1 => countdown seconds frame k - frame

-- The first frame in which no more is left of a wait than timers tolerate.
structure RunsOut (seconds frame : Float) (k : Nat) : Prop where
  late : 1 ≤ k
  spent : countdown seconds frame k ≤ timerTolerance
  first : ∀ j, 1 ≤ j → j < k → ¬ countdown seconds frame j ≤ timerTolerance

def Thread.Sleeps (seconds : Float) (t : Thread) : Prop :=
  ∃ next, t.body = .waiting (.seconds seconds) next

-- A thread that has had so many turns since it began to wait, and was due in none of them.
structure Thread.Counts (seconds frame : Float) (had : Nat) (t u : Thread) : Prop
    extends t.Continues u where
  body : u.body = t.body
  state : u.state = .timer (countdown seconds frame had)
  early : ∀ j, 1 ≤ j → j ≤ had → ¬ countdown seconds frame j ≤ timerTolerance

theorem Thread.Counts.stays {seconds frame : Float} {had : Nat} {t u v : Thread}
    (h : t.Counts seconds frame had u) (hv : u.Stays v) : t.Counts seconds frame had v :=
  ⟨h.toContinues.trans hv.toContinues, hv.body.trans h.body, hv.state.trans h.state, h.early⟩

theorem Thread.Counts.elapsed {seconds frame : Float} {had : Nat} {t u : Thread}
    (h : t.Counts seconds frame had u)
    (hn : ¬ countdown seconds frame (had + 1) ≤ timerTolerance) :
    t.Counts seconds frame (had + 1) (u.elapsed frame) where
  toContinues := h.toContinues.trans ⟨rfl, rfl, rfl, rfl, rfl⟩
  body := h.body
  state := by
    rw [Thread.elapsed, h.state]
    rfl
  early j hj hle := by
    rcases Nat.lt_or_eq_of_le hle with hlt | rfl
    · exact h.early j hj (Nat.le_of_lt_succ hlt)
    · exact hn

namespace Project

variable {κ : Conduct} {h : Handle} {p q : Project} {t u : Thread} {seconds frame : Float}

theorem run_seconds_of_not_finite (hs : seconds.isFinite = false) (h : Handle)
    (next : Except CallError (Wait.seconds seconds).Reply → Behavior) (p : Project) :
    run h (.pause (.seconds seconds) next) p = run h
      (next (.error (.invalidArgument "wait_seconds" "duration must be a finite number"))) p := by
  have hn : ¬ seconds.isFinite = true := by
    rw [hs]
    exact Bool.false_ne_true
  simp only [run, begin, if_neg hn]

theorem Paused.timer (hp : Paused κ p t u q) (hu : u.Sleeps seconds) :
    seconds.isFinite = true ∧ u.state = .timer (countdown seconds frame 0) := by
  obtain ⟨next', hbody⟩ := hu
  cases hp with
  | mk hd hw hs hb hc hstop =>
    rw [hb] at hbody
    cases hbody
    simp only [begin] at hw
    split at hw
    · rename_i hf
      cases hw
      exact ⟨hf, (Option.some.inj hs).symm⟩
    · cases hw

-- An operation of the host changes no thread but the one that is given an answer.
theorem mem_answerQuestion {text : String} (hu : u ∈ (p.answerQuestion text).2.threads) :
    u ∈ p.threads ∨ ∃ s ∈ p.threads, ∃ k ∈ p.world.questions, s.id = k.thread ∧
      u = s.answered text := by
  unfold answerQuestion at hu
  split at hu
  · exact .inl hu
  · rename_i k rest hq
    obtain ⟨s, hs, ⟨hid, rfl⟩ | ⟨-, rfl⟩⟩ := mem_updateThread hu
    · exact .inr ⟨s, hs, k, hq ▸ List.mem_cons_self, hid, rfl⟩
    · exact .inl hs

theorem resumed_iff_due {laps id : Nat} {resumed : Bool} (h : p.turn? laps id = some (resumed, q)) :
    resumed = true ↔ (p.readiness id).1 = .due := by
  cases ran_of_turn? h with
  | resumed ht he =>
    refine ⟨fun _ => ?_, fun _ => rfl⟩
    by_contra hn
    rw [ending?_of_not_due hn] at he
    cases he
  | passed hd => exact ⟨nofun, fun h => absurd h hd⟩
  | orphaned hd =>
    rw [hd]
    exact ⟨nofun, nofun⟩

theorem frameSeconds_apply (op : Operation) (p : Project) :
    (op.apply p).world.config.frameSeconds = p.world.config.frameSeconds := by
  cases op with
  | press | release | click | limitLoops | countLoop => rfl
  | _ => exact congrArg Config.frameSeconds (Operation.sameFixture rfl p).config

end Project

namespace Moment

variable {κ : Conduct} {a b m n : Moment} {p q : Project} {t u : Thread} {seconds frame : Float}
  {id k : Nat}

-- A run in which a thread is not resumed, and how many frames begin in it.
inductive Passing (κ : Conduct) (id : Nat) (a : Moment) : Nat → Moment → Prop where
  | refl : Passing κ id a 0 a
  | operate {k : Nat} {p : Project} {op : Operation} (h : Passing κ id a k ⟨p, []⟩)
      (ho : op.Keeps κ) : Passing κ id a k ⟨op.apply p, []⟩
  | frame {k : Nat} {p : Project} (h : Passing κ id a k ⟨p, []⟩) :
      Passing κ id a (k + 1) ⟨p.prepare, p.prepare.threads.map (·.id)⟩
  | turn {k laps first : Nat} {ids : List Nat} {resumed : Bool} {p q : Project}
      (h : Passing κ id a k ⟨p, first :: ids⟩) (ht : p.turn? laps first = some (resumed, q))
      (hn : first = id → resumed = false) : Passing κ id a k ⟨q, ids⟩

theorem Passing.steps (h : Passing κ id a k n) : Relation.ReflTransGen (Step κ) a n := by
  induction h with
  | refl => exact .refl
  | operate _ ho ih => exact ih.tail (.operate ho)
  | frame _ ih => exact ih.tail .frame
  | turn _ ht _ ih => exact ih.tail (.turn ht)

theorem Passing.step (h : Passing κ id a k m) (hs : Step κ m n) :
    (∃ k, Passing κ id a k n) ∨ Resumes id m n := by
  cases hs with
  | operate ho => exact .inl ⟨k, h.operate ho⟩
  | frame => exact .inl ⟨k + 1, h.frame⟩
  | turn ht =>
    rename_i laps first ids resumed p q
    by_cases hr : first = id ∧ resumed = true
    · obtain ⟨rfl, rfl⟩ := hr
      exact .inr (.mk ht)
    · exact .inl ⟨k, h.turn ht fun he => Bool.eq_false_iff.2 fun hb => hr ⟨he, hb⟩⟩

-- A run passes until the thread is resumed for the first time, if ever it is.
theorem passing_or_resumed (hs : Relation.ReflTransGen (Step κ) a m) :
    (∃ k, Passing κ id a k m) ∨ ∃ k n n', Passing κ id a k n ∧ Resumes id n n' ∧
      Relation.ReflTransGen (Step κ) n' m := by
  induction hs with
  | refl => exact .inl ⟨0, .refl⟩
  | tail hpr hq ih =>
    rcases ih with ⟨k, hk⟩ | ⟨k, n, n', hk, hr, hlater⟩
    · exact (hk.step hq).imp_right fun hr => ⟨k, _, _, hk, hr, .refl⟩
    · exact .inr ⟨k, n, n', hk, hr, hlater.tail hq⟩

theorem Passing.pass {laps : Nat} {before rest earlier : List Nat}
    (h : Passing κ id a k ⟨p, before ++ rest⟩) (hid : id ∉ before)
    (hp : pass? laps before p = some (earlier, q)) : Passing κ id a k ⟨q, rest⟩ := by
  induction before generalizing p earlier with
  | nil =>
    cases hp
    exact h
  | cons first before ih =>
    obtain ⟨b, r, later, ht, hp, -⟩ := pass?_cons hp
    obtain ⟨hne, hid⟩ := not_or.1 (fun he => hid (List.mem_cons.2 he))
    exact ih (.turn h ht fun he => absurd he.symm hne) hid hp

theorem Step.frameSeconds (hs : Step κ m n) (hm : Reachable κ m) :
    n.project.world.config.frameSeconds = m.project.world.config.frameSeconds := by
  cases hs with
  | operate ho => exact frameSeconds_apply _ _
  | frame => exact congrArg Config.frameSeconds (sameTerms_prepare _).config
  | turn ht => exact congrArg Config.frameSeconds (hm.passes ht).config

theorem Reachable.frameSeconds (hm : Reachable κ m) (hs : Relation.ReflTransGen (Step κ) m n) :
    n.project.world.config.frameSeconds = m.project.world.config.frameSeconds := by
  induction hs with
  | refl => rfl
  | tail hpr hq ih => exact (hq.frameSeconds (hm.steps hpr)).trans ih

-- The host reaches a thread that waits for a time as little as any other that has asked nothing.
theorem Reachable.spared_apply {op : Operation} (hm : Reachable κ ⟨p, []⟩) (hκ : κ.Awaits)
    (ht : t ∈ p.threads) (hs : ∀ n, t.state ≠ .answer n) (hu : u ∈ (op.apply p).threads)
    (hid : u.id = t.id) : u = t := by
  have hsame : u ∈ p.threads → u = t := fun hu => hm.obeys.toRanked.eq_of_id ht hu hid
  by_cases hop : ∃ text, op = .answer text
  · obtain ⟨text, rfl⟩ := hop
    rcases mem_answerQuestion hu with hu | ⟨s, -, k, hk, hsid, rfl⟩
    · exact hsame hu
    · obtain ⟨v, hv, hvid, -, hstate⟩ := (hm.attentive hκ).askers k hk
      have htid : t.id = v.id := hid.symm.trans (hsid.trans hvid.symm)
      obtain rfl := hm.obeys.toRanked.eq_of_id ht hv htid.symm
      exact absurd hstate (hs k.id)
  · rcases fresh_apply (fun text he => hop ⟨text, he⟩) hu with hu | ⟨hl, -⟩
    · exact hsame hu
    · exact absurd (hm.obeys.bounded t ht) (Nat.not_le_of_lt (hid ▸ hl))

theorem Reachable.spared_prepare (hm : Reachable κ ⟨p, []⟩) (ht : t ∈ p.threads)
    (hu : u ∈ p.prepare.threads) (hid : u.id = t.id) : u = t := by
  obtain ⟨news, hnews, hfresh⟩ := threads_prepare_fresh hm.obeys.toRanked
  rw [hnews] at hu
  rcases List.mem_append.1 hu with hu | hu
  · exact hm.obeys.toRanked.eq_of_id ht hu hid
  · exact absurd (hm.obeys.bounded t ht) (Nat.not_le_of_lt (hid ▸ (hfresh u hu).1))

theorem Reachable.mem_of_later (hm : Reachable κ m) (hs : Relation.ReflTransGen (Step κ) a m)
    (ha : Reachable κ a) (ht : t ∈ a.project.threads) (hstep : Step κ m n)
    (hu : u ∈ n.project.threads) (hid : u.id = t.id) :
    ∃ s ∈ m.project.threads, s.id = t.id := by
  have hle : u.id ≤ m.project.lastThread :=
    hid ▸ Nat.le_trans (ha.obeys.bounded t ht) (ha.changes_of_steps hs).lastThread_le
  obtain ⟨s, hs, hsu⟩ := (hm.changes_of_step hstep).continued hu hle
  exact ⟨s, hs, hsu.id.symm.trans hid⟩

-- A turn that does not resume its thread finds it not due.
theorem Reachable.elapses {laps : Nat} {ids : List Nat} {had : Nat}
    (hm : Reachable κ ⟨p, t.id :: ids⟩) (hf : p.world.config.frameSeconds = frame)
    (h : p.turn? laps t.id = some (false, q)) (hs : u ∈ p.threads) (hid : u.id = t.id)
    (hc : t.Counts seconds frame had u) {v : Thread} (hv : v ∈ q.threads) (hvid : v.id = t.id) :
    t.Counts seconds frame (had + 1) v := by
  have hp := hm.passes h
  have hn : ¬ countdown seconds frame (had + 1) ≤ timerTolerance := fun hle => by
    have hdue : u.Due p := by
      rw [Thread.Due, hc.state]
      dsimp only
      rw [hf]
      exact hle
    exact absurd (hp.due.2 ⟨u, hs, hid, hdue⟩) Bool.false_ne_true
  rw [hp.waits rfl, hf] at hv
  obtain ⟨s, hsm, ⟨hsid, rfl⟩ | ⟨hne, rfl⟩⟩ := mem_updateThread hv
  · obtain rfl := hm.obeys.toRanked.eq_of_id hs hsm (hsid.trans hid.symm)
    exact hc.elapsed hn
  · exact absurd hvid hne

-- Each frame counts its length off once, at the turn of the thread, whatever else goes on.
theorem Passing.counts (h : Passing κ t.id a k n) (ha : Reachable κ a) (hκ : κ.Awaits)
    (ht : t ∈ a.project.threads) (hs : t.state = .timer (countdown seconds frame 0))
    (hturns : t.id ∉ a.turns) (hf : a.project.world.config.frameSeconds = frame)
    (hu : u ∈ n.project.threads) (hid : u.id = t.id) :
    ∃ had, k = had + n.turns.count t.id ∧ t.Counts seconds frame had u := by
  induction h generalizing u with
  | refl =>
    obtain rfl := ha.obeys.toRanked.eq_of_id ht hu hid
    refine ⟨0, by rw [List.count_eq_zero_of_not_mem hturns], .refl u, rfl, hs, fun j hj hle => ?_⟩
    exact absurd (Nat.le_trans hj hle) (Nat.not_succ_le_zero 0)
  | operate h ho ih =>
    have hr := ha.steps h.steps
    obtain ⟨s, hsm, hsid⟩ := hr.mem_of_later h.steps ha ht (.operate ho) hu hid
    obtain ⟨had, hk, hc⟩ := ih hsm hsid
    have hnone : ∀ n, s.state ≠ .answer n := fun n hn => by
      rw [hc.state] at hn
      cases hn
    rw [hr.spared_apply hκ hsm hnone hu (hid.trans hsid.symm)]
    exact ⟨had, hk, hc⟩
  | frame h ih =>
    have hr := ha.steps h.steps
    obtain ⟨s, hsm, hsid⟩ := hr.mem_of_later h.steps ha ht .frame hu hid
    obtain ⟨had, hk, hc⟩ := ih hsm hsid
    rename_i p
    have hone : (p.prepare.threads.map Thread.id).count t.id = 1 :=
      List.count_eq_one_of_mem (hr.step .frame).turns_nodup (List.mem_map.2 ⟨u, hu, hid⟩)
    rw [hr.spared_prepare hsm hu (hid.trans hsid.symm)]
    exact ⟨had, by rw [hone, hk, List.count_nil], hc⟩
  | turn h hturn hn ih =>
    rename_i laps first ids resumed p q
    have hr := ha.steps h.steps
    obtain ⟨s, hsm, hsid⟩ := hr.mem_of_later h.steps ha ht (.turn hturn) hu hid
    obtain ⟨had, hk, hc⟩ := ih hsm hsid
    by_cases hfirst : first = t.id
    · subst hfirst
      obtain rfl := hn rfl
      have hf := (ha.frameSeconds h.steps).trans hf
      have hnot := (List.nodup_cons.1 hr.turns_nodup).1
      refine ⟨had + 1, ?_, hr.elapses hf hturn hsm hsid hc hu hid⟩
      rw [hk, List.count_cons_self, List.count_eq_zero_of_not_mem hnot]
    · refine ⟨had, by rw [hk, List.count_cons_of_ne hfirst], ?_⟩
      rcases (hr.passes hturn).others u hu fun he => hfirst (he.symm.trans hid) with
        ⟨v, hv, hvu⟩ | ⟨hl, -⟩
      · have hvs := hr.obeys.toRanked.eq_of_id hsm hv (hvu.id.symm.trans (hid.trans hsid.symm))
        exact hc.stays (hvs ▸ hvu)
      · rw [hid, ← hsid] at hl
        exact absurd (hr.obeys.bounded s hsm) (Nat.not_le_of_lt hl)

-- What becomes of a thread once it has begun to wait for a time.
structure TimesOut (κ : Conduct) (seconds : Float) (t : Thread) (a : Moment) : Prop where
  finite : seconds.isFinite = true
  state : t.state = .timer (if seconds > 0.0 then seconds else 0.0)
  due : ∀ {k : Nat} {ids : List Nat} {p : Project}, Passing κ t.id a k ⟨p, t.id :: ids⟩ →
    ((p.readiness t.id).1 = .due ↔
      p.Has t.id ∧ RunsOut seconds a.project.world.config.frameSeconds k)
  turn : ∀ {k laps : Nat} {ids : List Nat} {resumed : Bool} {p q : Project},
    Passing κ t.id a k ⟨p, t.id :: ids⟩ → p.turn? laps t.id = some (resumed, q) →
      (resumed = true ↔ p.Has t.id ∧ RunsOut seconds a.project.world.config.frameSeconds k)
  frame : ∀ {k laps : Nat} {resumed : List Nat} {p q : Project}, Passing κ t.id a k ⟨p, []⟩ →
    p.Has t.id → p.frame? laps = some (resumed, q) → ∃ before after earlier r,
      p.prepare.threads.map (·.id) = before ++ t.id :: after ∧
        pass? laps before p.prepare = some (earlier, r) ∧
        (t.id ∈ resumed ↔
          r.Has t.id ∧ RunsOut seconds a.project.world.config.frameSeconds (k + 1)) ∧
        (t.id ∉ resumed → Passing κ t.id a (k + 1) ⟨q, []⟩)
  run : ∀ {m : Moment}, Relation.ReflTransGen (Step κ) a m → (∃ k, Passing κ t.id a k m) ∨
    ∃ k n n', Passing κ t.id a k n ∧ Resumes t.id n n' ∧
      RunsOut seconds a.project.world.config.frameSeconds k ∧ Relation.ReflTransGen (Step κ) n' m

theorem Passing.due_iff {ids : List Nat} (h : Passing κ t.id a k ⟨p, t.id :: ids⟩)
    (ha : Reachable κ a) (hκ : κ.Awaits) (ht : t ∈ a.project.threads)
    (hs : t.state = .timer (countdown seconds frame 0)) (hturns : t.id ∉ a.turns)
    (hf : a.project.world.config.frameSeconds = frame) :
    (p.readiness t.id).1 = .due ↔ p.Has t.id ∧ RunsOut seconds frame k := by
  have hr := ha.steps h.steps
  cases hthread : p.thread? t.id with
  | none =>
    have hgone : (p.readiness t.id).1 = .gone := by
      unfold readiness
      rw [hthread]
    rw [hgone]
    refine iff_of_false nofun ?_
    rintro ⟨⟨u, hu, hid⟩, -⟩
    have hsome := hr.obeys.toRanked.thread?_of_mem hu
    rw [hid, hthread] at hsome
    cases hsome
  | some u =>
    have hu : u ∈ p.threads := List.mem_of_find?_eq_some hthread
    have hid : u.id = t.id := id_of_thread? hthread
    obtain ⟨had, hk, hc⟩ := h.counts ha hκ ht hs hturns hf hu hid
    rw [List.count_cons_self,
      List.count_eq_zero_of_not_mem (List.nodup_cons.1 hr.turns_nodup).1] at hk
    subst hk
    have hframe : p.world.config.frameSeconds = frame := (ha.frameSeconds h.steps).trans hf
    have hdue : (p.readiness t.id).1 = .due ↔ u.Due p := by
      rw [← hid]
      exact Project.due_iff (hr.accounted .refl) (hid ▸ hthread) (hr.owns hu).isLive
    rw [hdue, Thread.Due, hc.state]
    dsimp only
    rw [hframe]
    refine ⟨fun hle => ⟨⟨u, hu, hid⟩, Nat.le_add_left 1 had, hle, fun j hj hlt => ?_⟩,
      fun hout => hout.2.spent⟩
    exact hc.early j hj (Nat.le_of_lt_succ hlt)

theorem Resumes.turn (h : Resumes id b a) (hb : Reachable κ b) :
    ∃ s ∈ b.project.threads, s.id = id ∧ Turn κ b.project s true a.project := by
  cases h with
  | mk h =>
    rename_i laps ids p q
    cases hthread : p.thread? id with
    | none =>
      rw [turn?_of_gone hthread] at h
      cases h
    | some s =>
      have hmem : s ∈ p.threads := List.mem_of_find?_eq_some hthread
      obtain rfl := id_of_thread? hthread
      exact ⟨s, hmem, rfl, turn_of_turn? hb.obeys hmem h⟩

theorem Resumes.sleeps (h : Resumes t.id b a) (hb : Reachable κ b) (ht : t ∈ a.project.threads)
    (hs : t.Sleeps seconds) (frame : Float) :
    seconds.isFinite = true ∧ t.state = .timer (countdown seconds frame 0) := by
  obtain ⟨s, -, hid, hturn⟩ := h.turn hb
  obtain ⟨t', -, hpaused⟩ := paused_of_turn hturn hb.obeys ht hid.symm
  exact hpaused.timer hs

theorem Resumes.not_mem (h : Resumes id b a) (hb : Reachable κ b) : id ∉ a.turns := by
  have hnodup := hb.turns_nodup
  cases h with
  | mk _ => exact (List.nodup_cons.1 hnodup).1

-- A frame, with the one turn of a thread in it.
inductive Around (laps : Nat) (p : Project) (id : Nat) (resumed : List Nat) (q : Project) : Prop where
  | mk {before after earlier later : List Nat} {r r' : Project} {b : Bool}
      (hids : p.prepare.threads.map (·.id) = before ++ id :: after) (hb : id ∉ before)
      (ha : id ∉ after) (hbefore : pass? laps before p.prepare = some (earlier, r))
      (hturn : r.turn? laps id = some (b, r')) (hafter : pass? laps after r' = some (later, q))
      (hmem : id ∈ resumed ↔ b = true) : Around laps p id resumed q

theorem Reachable.around {laps : Nat} {resumed : List Nat} (hm : Reachable κ ⟨p, []⟩)
    (hid : p.Has id) (h : p.frame? laps = some (resumed, q)) : Around laps p id resumed q := by
  obtain ⟨u, hu, hid⟩ := hid
  obtain ⟨news, hnews⟩ := threads_prepare p
  have hmem : id ∈ p.prepare.threads.map (·.id) := by
    rw [hnews]
    exact List.mem_map.2 ⟨u, List.mem_append_left _ hu, hid⟩
  have hnodup : (p.prepare.threads.map (·.id)).Nodup := (hm.step .frame).turns_nodup
  obtain ⟨before, after, hids⟩ := List.append_of_mem hmem
  unfold frame? at h
  rw [hids] at h hnodup
  obtain ⟨-, hcons, hdisjoint⟩ := List.nodup_append.1 hnodup
  have hnb : id ∉ before := fun hm => hdisjoint _ hm _ List.mem_cons_self rfl
  have hna : id ∉ after := (List.nodup_cons.1 hcons).1
  obtain ⟨earlier, later, r, hbefore, hafter, rfl⟩ := pass?_append h
  obtain ⟨b, r', rest, hturn, hrest, rfl⟩ := pass?_cons hafter
  refine .mk hids hnb hna hbefore hturn hrest ?_
  have hne : id ∉ earlier := fun hm => hnb (mem_of_pass? hbefore hm)
  have hnr : id ∉ rest := fun hm => hna (mem_of_pass? hrest hm)
  cases b with
  | true => simp
  | false => simp [hne, hnr]

theorem Reachable.waitSeconds_exact (hκ : κ.Awaits) (hb : Reachable κ b) (hi : Resumes t.id b a)
    (ht : t ∈ a.project.threads) (hs : t.Sleeps seconds) :
    t.id ∉ a.turns ∧ TimesOut κ seconds t a ∧
      ∀ {endless : Float}, endless.isFinite = false → ∀ h next (p : Project),
        run h (.pause (.seconds endless) next) p = run h (next (.error (.invalidArgument
          "wait_seconds" "duration must be a finite number"))) p := by
  have ha : Reachable κ a := hb.step hi.step
  have hturns := hi.not_mem hb
  obtain ⟨hfinite, hstate⟩ := hi.sleeps hb ht hs a.project.world.config.frameSeconds
  have hdue : ∀ {k : Nat} {ids : List Nat} {p : Project}, Passing κ t.id a k ⟨p, t.id :: ids⟩ →
      ((p.readiness t.id).1 = .due ↔
        p.Has t.id ∧ RunsOut seconds a.project.world.config.frameSeconds k) := fun h =>
    h.due_iff ha hκ ht hstate hturns rfl
  refine ⟨hturns, ⟨hfinite, hstate, hdue, fun h hturn => ?_, fun h hhas hframe => ?_,
    fun hm => ?_⟩, fun hn h next p => run_seconds_of_not_finite hn h next p⟩
  · rw [resumed_iff_due hturn, hdue h]
  · cases (ha.steps h.steps).around hhas hframe with
    | mk hids hnb hna hbefore hturn hafter hmem =>
      rename_i before after earlier later r r' resumes
      have hpass := (hids ▸ Passing.frame h).pass hnb hbefore
      refine ⟨before, after, earlier, r, hids, hbefore, ?_, fun hn => ?_⟩
      · rw [hmem, resumed_iff_due hturn, hdue hpass]
      · have hturned : Passing κ t.id a _ ⟨r', after ++ []⟩ := (List.append_nil after).symm ▸
          hpass.turn hturn fun _ => Bool.eq_false_iff.2 fun hb => hn (hmem.2 hb)
        exact hturned.pass hna hafter
  · rcases passing_or_resumed hm with h | ⟨k, n, n', hk, hr, hlater⟩
    · exact .inl h
    · refine .inr ⟨k, n, n', hk, hr, ?_, hlater⟩
      cases hr with
      | mk hturn => exact ((hdue hk).1 ((resumed_iff_due hturn).1 rfl)).2

theorem ghost_keeps {vanish : Handle → Behavior}
    (hhaunt : ∀ h, κ.keeps h (.pause (.broadcastAndWait "boo") fun _ => .finish))
    (hscare : ∀ h, κ.keeps h (.call (.request h (.createClone (.member h.owner))) fun _ => .finish))
    (hvanish : ∀ h, κ.keeps h (vanish h)) :
    ∀ d ∈ (ghost vanish).handlers, ∀ h, κ.keeps h (d.handler.body h) := by
  intro d hd
  simp only [ghost, List.mem_cons, List.not_mem_nil, or_false] at hd
  rcases hd with rfl | rfl | rfl
  · exact hhaunt
  · exact hscare
  · exact hvanish

def nap : Handle → Behavior := fun _ => .pause (.seconds 0.03) fun _ => .finish

-- The clone of a scare falls asleep in its first frame, and two frames are longer than its nap.
def napping : Project := ((haunted "boo" nap).prepare.turned 1).prepare.turned 2

theorem haunted_wakes :
    ∃ t b a m m', Reachable .awaiting b ∧ Resumes t.id b a ∧ t ∈ a.project.threads ∧ t.Sleeps 0.03 ∧
      TimesOut .awaiting 0.03 t a ∧ Passing .awaiting t.id a 2 m ∧ Resumes t.id m m' ∧
      RunsOut 0.03 a.project.world.config.frameSeconds 2 := by
  have hstart : Reachable .awaiting ⟨haunted "boo" nap, []⟩ := by
    refine reachable_haunted (fun _ => trivial) (ghost_keeps ?_ ?_ ?_) "boo"
    · exact fun _ _ => trivial
    · exact fun _ => ⟨rfl, fun _ => trivial⟩
    · exact fun _ _ => trivial
  have hscare : ((haunted "boo" nap).prepare.turn? 1 1).map (·.1) = some true := rfl
  have hsleep : (((haunted "boo" nap).prepare.turned 1).prepare.turn? 1 2).map (·.1) = some true :=
    rfl
  have hwait : (napping.prepare.turn? 1 2).map (·.1) = some false := by decide +kernel
  have hwake : ((napping.prepare.turned 2).prepare.turn? 1 2).map (·.1) = some true := by
    decide +kernel
  have hthreads : napping.threads ≠ [] := by decide +kernel
  have hb := ((hstart.step .frame).turned hscare).step .frame
  have hi : Resumes 2 ⟨((haunted "boo" nap).prepare.turned 1).prepare, [2]⟩ ⟨napping, []⟩ :=
    .mk (turn?_turned hsleep)
  have hframe : Passing .awaiting 2 ⟨napping, []⟩ 1 ⟨napping.prepare, [2]⟩ := .frame .refl
  have hpath : Passing .awaiting 2 ⟨napping, []⟩ 2 ⟨(napping.prepare.turned 2).prepare, [2]⟩ :=
    .frame (hframe.turn (turn?_turned hwait) fun _ => rfl)
  have hsleeps : (napping.threads.head hthreads).Sleeps 0.03 := ⟨_, rfl⟩
  obtain ⟨-, htimes, -⟩ :=
    Reachable.waitSeconds_exact Conduct.awaits_awaiting hb hi (List.head_mem hthreads) hsleeps
  exact ⟨_, _, _, _, _, hb, hi, List.head_mem hthreads, hsleeps, htimes, hpath,
    .mk (turn?_turned hwake), ((htimes.turn hpath (turn?_turned hwake)).1 rfl).2⟩

end Moment

end SpriteStage

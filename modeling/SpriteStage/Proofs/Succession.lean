import SpriteStage.Proofs.Sequel

namespace SpriteStage

open Project

-- An answer from the host goes to the thread that has asked first.
def Operation.cues (id : Nat) : Operation → Project → List Cue
  | .answer text, p =>
    match p.world.questions with
    | k :: _ => if k.thread = id then [.answer text] else []
    | [] => []
  | _, _ => []

namespace Project

variable {p : Project} {t : Thread} {laps id : Nat}

theorem turnJumps_of_not_due (hd : (p.readiness id).1 ≠ .due) : p.turnJumps laps id = [] := by
  unfold turnJumps
  split
  · rename_i he
    exact absurd (congrArg Prod.fst he) hd
  · rfl

theorem turnJumps_eq (hd : (p.readiness id).1 = .due)
    (ht : (p.readiness id).2.thread? id = some t) :
    p.turnJumps laps id =
      jumpsOn t.handle laps ((p.readiness id).2.woken t).1 ((p.readiness id).2.woken t).2 := by
  unfold turnJumps
  split
  · rename_i p' he
    obtain rfl : (p.readiness id).2 = p' := congrArg Prod.snd he
    rw [ht, Option.elim_some]
  · rename_i hn
    exact (hn (p.readiness id).2 (Prod.ext hd rfl)).elim

theorem ending?_eq (hd : (p.readiness id).1 = .due) (ht : (p.readiness id).2.thread? id = some t) :
    p.ending? laps id =
      runOn? t.handle laps ((p.readiness id).2.woken t).1 ((p.readiness id).2.woken t).2 := by
  unfold ending?
  split
  · rename_i p' he
    obtain rfl : (p.readiness id).2 = p' := congrArg Prod.snd he
    rw [ht, Option.bind_some]
  · rename_i hn
    exact (hn (p.readiness id).2 (Prod.ext hd rfl)).elim

end Project

namespace Script

variable {setting : Setting} {first target : Jump} {t u : Thread} {p q : Project} {cues : List Cue}

theorem Poised.stays (hp : Poised setting first t cues) (hs : t.Stays u)
    (hr : u.mailbox.resume = t.mailbox.resume) : Poised setting first u cues := by
  have hh : u.handle = t.handle := by rw [Thread.handle, Thread.handle, hs.id, hs.owner]
  cases hp with
  | begins hf hb => exact .begins (hf.trans hh.symm) (hs.body.trans hb)
  | waits hd ht hb hn ha =>
    refine .waits hd (ht.trans hh.symm) ?_ (hr.trans hn) fun hasks => ?_
    · rw [hs.body, hb, hh]
    · obtain ⟨n, hn⟩ := ha hasks
      exact ⟨n, hs.state.trans hn⟩
  | answered hd ht hb ha hn =>
    refine .answered hd (ht.trans hh.symm) ?_ ha (hr.trans hn)
    rw [hs.body, hb, hh]

theorem handle_of_due? (hd : due? setting first cues = some target) :
    target.handle = first.handle ∨
      ∃ former r, .call former r ∈ cues ∧ target.handle = former.handle := by
  match cues, hd with
  | [], hd =>
    cases hd
    exact .inl rfl
  | .call former r :: _, hd =>
    obtain ⟨d, -, hd⟩ := Option.bind_eq_some_iff.1 hd
    split at hd
    · cases hd
    · obtain ⟨function, -, rfl⟩ := Option.map_eq_some_iff.1 hd
      exact .inr ⟨former, r, List.mem_cons_self, rfl⟩
  | .answer text :: .call former r :: _, hd =>
    obtain ⟨d, -, hd⟩ := Option.bind_eq_some_iff.1 hd
    split at hd
    · obtain ⟨function, -, rfl⟩ := Option.map_eq_some_iff.1 hd
      exact .inr ⟨former, r, List.mem_cons_of_mem _ List.mem_cons_self, rfl⟩
    · cases hd

-- All calls of a thread are made on one instance.
theorem Orderly.handle (ho : Orderly setting first cues) (hm : .call target p ∈ cues) :
    target.handle = first.handle := by
  induction cues generalizing target p with
  | nil => cases hm
  | cons cue cues ih =>
    cases cue with
    | answer text =>
      rcases List.mem_cons.1 hm with hm | hm
      · cases hm
      · exact ih ho hm
    | call former r =>
      rcases List.mem_cons.1 hm with hm | hm
      · cases hm
        rcases handle_of_due? ho.1 with he | ⟨other, r', hother, he⟩
        · exact he
        · exact he.trans (ih ho.2 hother)
      · exact ih ho.2 hm

theorem Orderly.answered {answers : List Cue} (ha : ∀ cue ∈ answers, ∃ text, cue = .answer text)
    (ho : Orderly setting first cues) : Orderly setting first (answers ++ cues) := by
  induction answers with
  | nil => exact ho
  | cons cue answers ih =>
    obtain ⟨⟨text, rfl⟩, hrest⟩ := List.forall_mem_cons.1 ha
    exact ih hrest

-- How a thread goes on in a turn in which it is resumed.
inductive Goes (setting : Setting) (first : Jump) (cues : List Cue) (laps : Nat) (p : Project)
    (t : Thread) : Project → Prop where
  | calls {q r : Project} {target : Jump} {later : List Cue}
      (hd : due? setting first cues = some target)
      (hj : p.turnJumps laps t.id = later ++ [.call target r]) : Goes setting first cues laps p t q
  | ends {q last : Project} (hd : due? setting first cues = none) (hj : p.turnJumps laps t.id = [])
      (he : p.ending? laps t.id = some (.finished, last)) (hn : ¬ q.Has t.id) :
      Goes setting first cues laps p t q
  | fails {q last : Project} {e : CallError} (hd : t.Disappointed p e)
      (hj : p.turnJumps laps t.id = [])
      (he : p.ending? laps t.id = some (.failed (.call e), last)) (hn : ¬ q.Has t.id) :
      Goes setting first cues laps p t q

end Script

namespace Moment

open Script

variable {κ : Conduct} {a m n : Moment} {p q : Project} {s t u : Thread} {setting : Setting}
  {first : Jump} {cues : List Cue} {laps id : Nat} {ids : List Nat} {resumed : Bool}

-- A run with all that concerns a thread in it, the last first.
inductive Plays (κ : Conduct) (id : Nat) (a : Moment) : List Cue → Moment → Prop where
  | refl : Plays κ id a [] a
  | operate {cues : List Cue} {p : Project} {op : Operation} (h : Plays κ id a cues ⟨p, []⟩)
      (ho : op.Keeps κ) : Plays κ id a (op.cues id p ++ cues) ⟨op.apply p, []⟩
  | frame {cues : List Cue} {p : Project} (h : Plays κ id a cues ⟨p, []⟩) :
      Plays κ id a cues ⟨p.prepare, p.prepare.threads.map (·.id)⟩
  | other {cues : List Cue} {laps other : Nat} {ids : List Nat} {resumed : Bool} {p q : Project}
      (h : Plays κ id a cues ⟨p, other :: ids⟩) (hn : other ≠ id)
      (ht : p.turn? laps other = some (resumed, q)) : Plays κ id a cues ⟨q, ids⟩
  | turn {cues : List Cue} {laps : Nat} {ids : List Nat} {resumed : Bool} {p q : Project}
      (h : Plays κ id a cues ⟨p, id :: ids⟩) (ht : p.turn? laps id = some (resumed, q)) :
      Plays κ id a (p.turnJumps laps id ++ cues) ⟨q, ids⟩

theorem Plays.steps (h : Plays κ id a cues m) : Relation.ReflTransGen (Step κ) a m := by
  induction h with
  | refl => exact .refl
  | operate _ ho ih => exact ih.tail (.operate ho)
  | frame _ ih => exact ih.tail .frame
  | other _ _ ht ih => exact ih.tail (.turn ht)
  | turn _ ht ih => exact ih.tail (.turn ht)

-- The turn of another thread puts nothing in a mailbox.
theorem Reachable.stays_of_other {other : Nat} (hm : Reachable κ ⟨p, other :: ids⟩) (hκ : κ.Awaits)
    (hs : s ∈ p.threads) (hne : other ≠ s.id) (h : p.turn? laps other = some (resumed, q))
    (hu : u ∈ q.threads) (hid : u.id = s.id) :
    s.Stays u ∧ u.mailbox.resume = s.mailbox.resume := by
  have hsame {v : Thread} (hv : v ∈ p.threads) (he : v.id = u.id) : v = s :=
    hm.obeys.toRanked.eq_of_id hs hv (he.trans hid)
  have hnew : ¬ p.lastThread < u.id := by
    rw [hid]
    exact Nat.not_lt_of_le (hm.obeys.bounded s hs)
  have hstays : s.Stays u := by
    rcases (hm.passes h).others u hu fun he => hne (he.symm.trans hid) with ⟨v, hv, hvu⟩ | ⟨hl, -⟩
    · exact hsame hv hvu.id.symm ▸ hvu
    · exact absurd hl hnew
  refine ⟨hstays, ?_⟩
  have hstep : Step κ ⟨p, other :: ids⟩ ⟨q, ids⟩ := .turn h
  cases hstep.comes hm hκ hu with
  | fresh hl hf => exact absurd hl hnew
  | kept hv hc hb hr hst => exact hsame hv hc.id.symm ▸ hr
  | answered hv hq hvid hu' hm' =>
    rename_i v k rest text
    subst hu'
    obtain rfl := hsame hv rfl
    obtain ⟨w, hw, hwid, -, hstate⟩ := (hm.attentive hκ).askers k (hq ▸ List.mem_cons_self)
    obtain rfl := hm.obeys.toRanked.eq_of_id hs hw (hwid.trans hvid.symm)
    have hrunnable := hstays.state
    rw [hstate] at hrunnable
    cases hrunnable
  | resumed hr =>
    cases hr with
    | mk _ => exact absurd hid hne

-- Whatever the host does, it does not reach a thread but by an answer to its question.
theorem Reachable.poised_apply {op : Operation} (hm : Reachable κ ⟨p, []⟩) (hκ : κ.Awaits)
    (hs : s ∈ p.threads) (hp : Poised setting first s cues) (hu : u ∈ (op.apply p).threads)
    (hid : u.id = s.id) : Poised setting first u (op.cues s.id p ++ cues) := by
  have hsame {v : Thread} (hv : v ∈ p.threads) (he : v.id = u.id) : v = s :=
    hm.obeys.toRanked.eq_of_id hs hv (he.trans hid)
  by_cases hop : ∃ text, op = .answer text
  · obtain ⟨text, rfl⟩ := hop
    simp only [Operation.apply, answerQuestion] at hu
    cases hq : p.world.questions with
    | nil =>
      rw [hq] at hu
      obtain rfl := hsame hu rfl
      simp only [Operation.cues, hq, List.nil_append]
      exact hp
    | cons k rest =>
      rw [hq] at hu
      obtain ⟨v, hv, ⟨hvid, rfl⟩ | ⟨hne, rfl⟩⟩ := mem_updateThread hu
      · obtain rfl := hsame hv rfl
        have ha := hm.attentive hκ
        obtain ⟨w, hw, hwid, -, hstate⟩ := ha.askers k (hq ▸ List.mem_cons_self)
        obtain rfl := hm.obeys.toRanked.eq_of_id hs hw (hwid.trans hvid.symm)
        obtain ⟨prompt, next, hbody⟩ := (ha.attuned _ hs).asking k.id hstate
        have hcues : Operation.cues w.id (.answer text) p = [.answer text] := by
          simp only [Operation.cues, hq, hvid, if_true]
        rw [hcues]
        cases hp with
        | begins hh hb =>
          rw [hb] at hbody
          cases hbody
        | waits hd hh hb hr hasks =>
          rename_i target r earlier d
          have hasks : d.pause.asks = true := by
            rw [hb] at hbody
            obtain ⟨pause, following⟩ := d
            cases pause <;> first | rfl | cases hbody
          exact .answered hd hh hb hasks rfl
        | answered hd hh hb hasks hr =>
          have hheard := ((ha.attuned _ hs).heard _ hr).1
          rw [hstate] at hheard
          cases hheard
      · obtain rfl := hsame hv rfl
        simp only [Operation.cues, hq, Ne.symm hne, if_false, List.nil_append]
        exact hp
  · have hcues : op.cues s.id p = [] := by
      cases op with
      | answer text => exact absurd ⟨text, rfl⟩ hop
      | _ => rfl
    rw [hcues, List.nil_append]
    rcases fresh_apply (fun text he => hop ⟨text, he⟩) hu with hu | ⟨hl, -⟩
    · exact hsame hu rfl ▸ hp
    · exact absurd (hm.obeys.bounded s hs) (Nat.not_le_of_lt (hid ▸ hl))

theorem Reachable.poised_waiting (hm : Reachable κ ⟨p, s.id :: ids⟩) (hs : s ∈ p.threads)
    (hp : Poised setting first s cues) (h : p.turn? laps s.id = some (false, q))
    (hu : u ∈ q.threads) (hid : u.id = s.id) : Poised setting first u cues := by
  rw [(hm.passes h).waits rfl] at hu
  obtain ⟨v, hv, ⟨-, rfl⟩ | ⟨hne, rfl⟩⟩ := mem_updateThread hu
  · obtain rfl := hm.obeys.toRanked.eq_of_id hs hv hid
    cases hp with
    | begins hh hb => exact .begins hh hb
    | waits hd hh hb hr ha =>
      refine .waits hd hh hb hr fun hasks => ?_
      obtain ⟨n, hn⟩ := ha hasks
      exact ⟨n, by rw [Thread.elapsed, hn]; rfl⟩
    | answered hd hh hb ha hr => exact .answered hd hh hb ha hr
  · exact absurd hid hne

-- How a thread that pauses has been left by its last call.
theorem Reachable.poised_resumed {target : Jump} {r : Project} {earlier : List Cue} {d : Directive}
    (hm : Reachable κ ⟨p, s.id :: ids⟩) (hκ : κ.Awaits) (hs : s ∈ p.threads)
    (h : p.turn? laps s.id = some (true, q)) (hu : u ∈ q.threads) (hid : u.id = s.id)
    (hd : directive? setting target r = some d) (hh : target.handle = s.handle)
    (hb : u.body = d.body s.handle) : Poised setting first u (.call target r :: earlier) := by
  have hstep : Step κ ⟨p, s.id :: ids⟩ ⟨q, ids⟩ := .turn h
  have hcont := hm.continued (.single hstep) hs hu hid
  have hhandle : u.handle = s.handle := by rw [Thread.handle, Thread.handle, hcont.id, hcont.owner]
  have hresumes : Resumes u.id ⟨p, s.id :: ids⟩ ⟨q, ids⟩ := by
    rw [hid]
    exact .mk h
  have hcleared := cleared_of_resumes hm hκ (hm.calm hκ) hresumes hu
  refine .waits hd (hh.trans hhandle.symm) (hhandle ▸ hb) hcleared.resume fun hasks => ?_
  obtain ⟨t', -, hpaused⟩ := paused_of_turn (turn_of_turn? hm.obeys hs h) hm.obeys hu hid
  cases hpaused with
  | mk hdeeds hw hst hbody hc hstop =>
    rw [hb] at hbody
    obtain ⟨pause, next⟩ := d
    cases pause with
    | askAndWait prompt =>
      cases hbody
      simp only [begin] at hw
      cases hw
      exact ⟨_, (Option.some.inj hst).symm⟩
    | _ => cases hasks

theorem not_has_of_left {last : Project} {r : Resumption} (hl : t.id ≤ last.lastThread)
    (hr : ∀ suspension body, r ≠ .suspended suspension body) :
    ¬ ((last.leave t r).settle).Has t.id := by
  rintro ⟨u, hu, hid⟩
  obtain ⟨suspension, body, state, he, -⟩ := mem_left hu hid (hid ▸ hl)
  exact hr suspension body he

-- The turn of a thread: the call that is due comes first, and each of the others from the one
-- before.
theorem Reachable.poised_turn (hm : Reachable κ ⟨p, s.id :: ids⟩) (hκ : κ.Awaits)
    (hlib : p.library = library setting) (hs : s ∈ p.threads) (hp : Poised setting first s cues)
    (ho : Orderly setting first cues) (h : p.turn? laps s.id = some (true, q)) :
    Orderly setting first (p.turnJumps laps s.id ++ cues) ∧
      (∀ u ∈ q.threads, u.id = s.id → Poised setting first u (p.turnJumps laps s.id ++ cues)) ∧
        Goes setting first cues laps p s q := by
  have hthread := hm.obeys.toRanked.thread?_of_mem hs
  have hdue : (p.readiness s.id).1 = .due := (resumed_iff_due h).1 rfl
  have hturn := h
  cases ran_of_turn? h with
  | resumed ht he =>
    rename_i t r
    obtain ⟨hbody, hhandle, -, -⟩ := heard_readiness hthread hdue ht
    have hid : t.id = s.id := congrArg Handle.thread hhandle
    have hrun := he
    rw [ending?_eq hdue ht] at hrun
    generalize hlast : (p.turnStart s.id).performAll (p.turnExchanges laps s.id) = last at *
    have hlib' : ((p.readiness s.id).2.woken t).2.library = library setting := by
      rw [library_woken, library_readiness, hlib]
    have hle : t.id ≤ last.lastThread := by
      have hc : Changes (.under .any) p last := by
        rw [← hlast]
        exact (changes_turnStart p s.id).trans (changes_performAll _ _)
      exact hid ▸ Nat.le_trans (hm.obeys.bounded s hs) hc.lastThread_le
    have hruns := (hp.wakes hthread hdue ht (p.readiness s.id).2).runs hlib' ho hrun
    rw [← turnJumps_eq hdue ht] at hruns
    cases hruns with
    | calls hd hj hl ho hr =>
      refine ⟨ho, fun u hu huid => ?_, .calls hd hj⟩
      rw [hl]
      obtain ⟨suspension, body, state, he, hstate, s', hs', hsid, rfl⟩ :=
        mem_left hu (huid.trans hid.symm) (by rw [huid, ← hid]; exact hle)
      obtain ⟨d, hdirective, hb⟩ := hr suspension body he
      exact hm.poised_resumed hκ hs hturn hu huid hdirective hhandle (hhandle ▸ hb)
    | ends hd hj hr =>
      have hn : ¬ Project.Has _ s.id := hid ▸ not_has_of_left hle (r := r) (hr ▸ nofun)
      rw [hj, List.nil_append]
      exact ⟨ho, fun u hu huid => absurd ⟨u, hu, huid⟩ hn, .ends hd hj (hr ▸ he) hn⟩
    | fails hd hj hr =>
      have hn : ¬ Project.Has _ s.id := hid ▸ not_has_of_left hle (r := r) (hr ▸ nofun)
      rw [hj, List.nil_append]
      exact ⟨ho, fun u hu huid => absurd ⟨u, hu, huid⟩ hn, .fails hd hj (hr ▸ he) hn⟩

-- A thread that starts with a function of the script, at any later time.
theorem Plays.poised (h : Plays κ t.id a cues m) (ha : Reachable κ a) (hκ : κ.Awaits)
    (hlib : a.project.library = library setting) (ht : t ∈ a.project.threads)
    (hp : Poised setting first t []) : Orderly setting first cues ∧
      ∀ u ∈ m.project.threads, u.id = t.id → Poised setting first u cues := by
  have hearlier {m n : Moment} {cues : List Cue} {u : Thread} (h : Plays κ t.id a cues m)
      (hstep : Step κ m n) (hu : u ∈ n.project.threads) (hid : u.id = t.id) :
      ∃ s ∈ m.project.threads, s.id = t.id :=
    (ha.steps h.steps).mem_of_later h.steps ha ht hstep hu hid
  induction h with
  | refl =>
    refine ⟨trivial, fun u hu hid => ?_⟩
    rw [ha.obeys.toRanked.eq_of_id ht hu hid]
    exact hp
  | operate h ho ih =>
    rename_i cues p op
    refine ⟨ih.1.answered fun cue hcue => ?_, fun u hu hid => ?_⟩
    · unfold Operation.cues at hcue
      split at hcue
      · split at hcue
        · split at hcue
          · exact ⟨_, List.mem_singleton.1 hcue⟩
          · cases hcue
        · cases hcue
      · cases hcue
    · obtain ⟨s, hs, hsid⟩ := hearlier h (.operate ho) hu hid
      rw [← hsid] at ih hid ⊢
      exact (ha.steps h.steps).poised_apply hκ hs (ih.2 s hs rfl) hu hid
  | frame h ih =>
    refine ⟨ih.1, fun u hu hid => ?_⟩
    obtain ⟨s, hs, hsid⟩ := hearlier h .frame hu hid
    rw [(ha.steps h.steps).spared_prepare hs hu (hid.trans hsid.symm)]
    exact ih.2 s hs hsid
  | other h hn hturn ih =>
    refine ⟨ih.1, fun u hu hid => ?_⟩
    obtain ⟨s, hs, hsid⟩ := hearlier h (.turn hturn) hu hid
    obtain ⟨hstays, hresume⟩ := (ha.steps h.steps).stays_of_other hκ hs
      (fun he => hn (he.trans hsid)) hturn hu (hid.trans hsid.symm)
    exact (ih.2 s hs hsid).stays hstays hresume
  | turn h hturn ih =>
    rename_i cues laps ids resumed p q
    have hm := ha.steps h.steps
    cases resumed with
    | false =>
      have hjumps : p.turnJumps laps t.id = [] :=
        turnJumps_of_not_due fun hd => Bool.false_ne_true ((resumed_iff_due hturn).2 hd)
      rw [hjumps, List.nil_append]
      refine ⟨ih.1, fun u hu hid => ?_⟩
      obtain ⟨s, hs, hsid⟩ := hearlier h (.turn hturn) hu hid
      rw [← hsid] at hm hturn hid
      exact hm.poised_waiting hs (ih.2 s hs hsid) hturn hu hid
    | true =>
      obtain ⟨s, hs, hsid, -⟩ := (Resumes.mk hturn).turn hm
      have hplib : p.library = library setting := (ha.changes_of_steps h.steps).library.trans hlib
      rw [← hsid] at hm hturn ⊢
      obtain ⟨ho, hpoised, -⟩ := hm.poised_turn hκ hplib hs (ih.2 s hs hsid) ih.1 hturn
      exact ⟨ho, hpoised⟩

theorem plays_of_steps (hs : Relation.ReflTransGen (Step κ) a m) : ∃ cues, Plays κ id a cues m := by
  induction hs with
  | refl => exact ⟨[], .refl⟩
  | tail hpath hs ih =>
    obtain ⟨cues, h⟩ := ih
    cases hs with
    | operate ho => exact ⟨_, h.operate ho⟩
    | frame => exact ⟨_, h.frame⟩
    | turn ht =>
      rename_i other ids resumed p q
      by_cases hn : other = id
      · subst hn
        exact ⟨_, h.turn ht⟩
      · exact ⟨_, h.other hn ht⟩

end Moment

section Continuations

open Script

variable {κ : Conduct} {a : Moment} {t : Thread} {setting : Setting} {first : Jump}

-- Which function a call runs: one of its name and of as many parameters, or none at all.
inductive Script.Resolves (setting : Setting) (target : Jump) (p : Project) : Prop where
  | found {f : Function} (hf : f ∈ setting.program.functions) (hn : f.name = target.routine)
      (ha : f.params.length = target.arguments.length)
      (hr : Calling.result setting target.handle ⟨target.routine, target.arguments, p⟩ =
        (Script.run setting {
          control := .eval (.block f.body)
          env := .ofCall f.params target.arguments (some (.handle target.handle))
          }).run Query.answer p) : Resolves setting target p
  | missing (hn : ∀ f ∈ setting.program.functions, f.name = target.routine →
        f.params.length ≠ target.arguments.length)
      (hr : Calling.result setting target.handle ⟨target.routine, target.arguments, p⟩ =
        (⟨.error (.unknownName target.routine), 0⟩, p)) : Resolves setting target p

theorem Script.resolves (setting : Setting) (target : Jump) (p : Project) :
    Resolves setting target p := by
  cases hf : setting.program.function? target.routine target.arguments.length with
  | none =>
    refine .missing (fun f hmem hn hlength => ?_) ?_
    · have hnot := List.find?_eq_none.1 hf f hmem
      rw [hn, hlength] at hnot
      simp at hnot
    · unfold Calling.result Program.callFor
      dsimp only
      rw [hf]
      rfl
  | some f =>
    have hfound := List.find?_some hf
    simp only [Bool.and_eq_true, beq_iff_eq] at hfound
    refine .found (List.mem_of_find?_eq_some hf) hfound.1 hfound.2 ?_
    unfold Calling.result Program.callFor
    dsimp only
    rw [hf]

-- What becomes of a thread that starts with a function of the script: in all that it does, each
-- call follows from the directive before it, with nothing but what that one has waited for.
structure Moment.Succeeds (κ : Conduct) (setting : Setting) (first : Jump) (t : Thread)
    (a : Moment) : Prop where
  covers : ∀ {m : Moment}, Relation.ReflTransGen (Step κ) a m → ∃ cues, Plays κ t.id a cues m
  orderly : ∀ {cues : List Cue} {m : Moment}, Plays κ t.id a cues m → Orderly setting first cues
  handle : ∀ {cues : List Cue} {m : Moment} {target : Jump} {p : Project},
    Plays κ t.id a cues m → .call target p ∈ cues → target.handle = t.handle
  poised : ∀ {cues : List Cue} {m : Moment} {u : Thread}, Plays κ t.id a cues m →
    u ∈ m.project.threads → u.id = t.id → Poised setting first u cues
  goes : ∀ {cues : List Cue} {laps : Nat} {ids : List Nat} {p q : Project},
    Plays κ t.id a cues ⟨p, t.id :: ids⟩ → p.turn? laps t.id = some (true, q) →
      ∃ s ∈ p.threads, s.id = t.id ∧ Goes setting first cues laps p s q

theorem Moment.Reachable.continuations_followed (ha : Reachable κ a) (hκ : κ.Awaits)
    (hlib : a.project.library = library setting) (ht : t ∈ a.project.threads)
    (hh : first.handle = t.handle) (hb : t.body = .start (.jump first)) :
    Succeeds κ setting first t a ∧
      (∀ target p, Resolves setting target p) ∧
      (∀ {value : Value} {next : Option String},
        Routine.continuation value = .ok next ↔ Routine.Names value next) ∧
      ∀ {name : String} {front : List Value} {value : Value} {pause : Pause} {next : Option String},
        Routine.Pauses name front (.ok pause) → Routine.Names value next →
          Routine.ofDirective name (front ++ [value]) =
            some (.done (Routine.issue pause next)) := by
  have hp : Poised setting first t [] := .begins hh hb
  refine ⟨⟨plays_of_steps, fun h => (h.poised ha hκ hlib ht hp).1, fun h hcall => ?_,
    fun h hu hid => (h.poised ha hκ hlib ht hp).2 _ hu hid, fun h hturn => ?_⟩,
    resolves setting, Routine.continuation_eq_ok, Routine.issue_of_names⟩
  · exact ((h.poised ha hκ hlib ht hp).1.handle hcall).trans hh
  · have hm := ha.steps h.steps
    obtain ⟨s, hs, hsid, -⟩ := (Resumes.mk hturn).turn hm
    obtain ⟨ho, hpoised⟩ := h.poised ha hκ hlib ht hp
    have hplib := (ha.changes_of_steps h.steps).library.trans hlib
    have hs' := hpoised s hs hsid
    rw [← hsid] at hm hturn
    exact ⟨s, hs, hsid, (hm.poised_turn hκ hplib hs hs' ho hturn).2.2⟩

end Continuations

section Currying

open Script

-- A pointer that carries a number, to a function of which there is one without parameters too.
def currier : String :=
  "fn start() \x7b next_frame(pick()) \x7d fn pick() \x7b Fn(\"g\").curry(5) \x7d " ++
    "fn g() \x7b this.set(\"got\", 0); \x7d fn g(x) \x7b this.set(\"got\", x); \x7d " ++
    "register(sprite(\"A\").when(\"green-flag\", \"start\"));"

def curried : Project := (Project.load currier {}).2.greenFlag

def Thread.startsScript (t : Thread) : Bool :=
  match t.body with
  | .start (.jump ⟨⟨1, 1⟩, "start", []⟩) => t.id = 1 && t.owner = 1
  | _ => false

def picksFive (program : Program) : Bool :=
  let setting : Setting := ⟨program, true, ({} : Config).maxScriptOperations⟩
  match (Calling.result setting ⟨1, 1⟩ ⟨"pick", [], curried⟩).1.result with
  | .ok (.routine "g" [.int 5]) => true
  | _ => false

def callsBare : List Cue → Bool
  | [.call ⟨⟨1, 1⟩, "g", []⟩ _] => true
  | _ => false

def getsZero : Except CallError Value → Bool
  | .ok (.int 0) => true
  | _ => false

namespace Moment

def framed (p : Project) : Project := (p.frame? 3).elim p (·.2)

theorem frame?_framed {p : Project} {resumed : List Nat}
    (h : (p.frame? 3).map (·.1) = some resumed) : p.frame? 3 = some (resumed, framed p) := by
  obtain ⟨⟨resumed, q⟩, hq, rfl⟩ := Option.map_eq_some_iff.1 h
  unfold framed
  rw [hq]
  rfl

-- One evaluation for all, since each of them loads the script.
theorem currier_runs : (Project.load currier {}).1.isOk = true ∧
    curried.threads.any Thread.startsScript = true ∧
    (Program.ofText? currier).any picksFive = true ∧
    (curried.frame? 3).map (·.1) = some [1] ∧
    callsBare ((framed curried).prepare.turnJumps 3 1) = true ∧
    ((framed curried).frame? 3).map (·.1) = some [1] ∧
    getsZero ((framed (framed curried)).world.attribute? 1 "got") = true := by
  decide +kernel

theorem load_currier : Project.load currier {} = (.ok (), (Project.load currier {}).2) :=
  load_of_isOk currier_runs.1

theorem reachable_curried : Reachable .awaiting ⟨curried, []⟩ := by
  have hflag : ∀ p : Project, Step .awaiting ⟨p, []⟩ ⟨Operation.greenFlag.apply p, []⟩ := fun _ =>
    .operate trivial
  exact (reachable_load load_currier).step (hflag _)

theorem library_curried : ∃ program, Program.ofText? currier = some program ∧
    curried.library = library ⟨program, true, ({} : Config).maxScriptOperations⟩ := by
  obtain ⟨program, hparse, hlib⟩ := library_load load_currier
  have hflag : ∀ p : Project, Changes (.under .any) p p.greenFlag :=
    changes_greenFlag fun _ => trivial
  exact ⟨program, hparse, (hflag _).library.trans hlib⟩

theorem currier_followed : ∃ program t, Program.ofText? currier = some program ∧
    t ∈ curried.threads ∧ t.body = .start (.jump ⟨t.handle, "start", []⟩) ∧
      Succeeds .awaiting ⟨program, true, ({} : Config).maxScriptOperations⟩
        ⟨t.handle, "start", []⟩ t ⟨curried, []⟩ := by
  obtain ⟨program, hparse, hlib⟩ := library_curried
  obtain ⟨t, ht, hstarts⟩ := List.any_eq_true.1 currier_runs.2.1
  unfold Thread.startsScript at hstarts
  split at hstarts
  · rename_i hbody
    have hhandle : t.handle = ⟨1, 1⟩ := by
      simp only [Bool.and_eq_true, decide_eq_true_eq] at hstarts
      rw [Thread.handle, hstarts.1, hstarts.2]
    rw [← hhandle] at hbody
    exact ⟨program, t, hparse, ht, hbody, (Reachable.continuations_followed reachable_curried
      Conduct.awaits_awaiting hlib ht rfl hbody).1⟩
  · cases hstarts

-- The function is called without the number, so the other one of its name runs.
theorem currier_misled : ∃ program p q r, Program.ofText? currier = some program ∧
    (Calling.result ⟨program, true, ({} : Config).maxScriptOperations⟩ ⟨1, 1⟩
      ⟨"pick", [], curried⟩).1.result = .ok (.routine "g" [.int 5]) ∧
    curried.frame? 3 = some ([1], p) ∧ p.prepare.turnJumps 3 1 = [.call ⟨⟨1, 1⟩, "g", []⟩ r] ∧
      p.frame? 3 = some ([1], q) ∧ q.world.attribute? 1 "got" = .ok (.int 0) := by
  obtain ⟨-, -, hparsed, hfirst, hbare, hsecond, hzero⟩ := currier_runs
  obtain ⟨program, hparse, hpicks⟩ := (Option.any_eq_true _ _).1 hparsed
  unfold callsBare at hbare
  split at hbare
  · rename_i r hjumps
    refine ⟨program, framed curried, framed (framed curried), r, hparse, ?_, frame?_framed hfirst,
      hjumps, frame?_framed hsecond, ?_⟩
    · unfold picksFive at hpicks
      dsimp only at hpicks
      split at hpicks
      · rename_i hresult
        exact hresult
      · cases hpicks
    · unfold getsZero at hzero
      split at hzero
      · rename_i hget
        exact hget
      · cases hzero
  · cases hbare

end Moment

end Currying

end SpriteStage

import SpriteStage.Proofs.Indifference

namespace SpriteStage

open Project

inductive Event where
  | operate (op : Operation)
  | frame
  | turn (laps : Nat)

-- What a failed resumption has to report, by the names that it leaves.
def Project.failures (laps : Nat) (p : Project) (id : Nat) : List Report :=
  match p.thread? id, p.ending? laps id with
  | some t, some (.failed failure, last) =>
    [⟨.thread (last.world.className t.actor) (last.world.label t.owner) t.label, failure.message⟩]
  | _, _ => []

def Project.hushed (p : Project) : Project := { p with world := { p.world with errors := [] } }

namespace Project

variable {p q : Project} {id laps : Nat}

section Loads

theorem loads_endThread (p : Project) (id : Nat) : (p.endThread id).loads = p.loads := by
  unfold endThread
  split <;> rfl

theorem loads_launchAll (p : Project) : p.launchAll.loads = p.loads := by
  refine foldl_keeps Project.loads (fun p s => ?_) p.world.spawns
    (p.updateWorld fun w => { w with spawns := [] })
  unfold launch
  split <;> rfl

theorem loads_settle (p : Project) : p.settle.loads = p.loads := by
  unfold settle
  split
  · rfl
  · exact (loads_launchAll _).trans (foldl_keeps Project.loads loads_endThread _ _)

theorem loads_leave (p : Project) (t : Thread) (r : Resumption) :
    (p.leave t r).loads = p.loads := by
  cases r with
  | finished => exact loads_endThread p t.id
  | failed failure => exact loads_endThread (p.reportFailure t failure) t.id
  | suspended suspension body =>
    simp only [leave]
    split
    · exact loads_endThread p t.id
    · rfl

theorem loads_readiness (p : Project) (id : Nat) : (p.readiness id).2.loads = p.loads := by
  obtain ⟨change, hr, -⟩ := readiness_eq_updateThread p id
  rw [hr]
  rfl

theorem loads_turnStart (p : Project) (id : Nat) : (p.turnStart id).loads = p.loads := by
  unfold turnStart
  cases (p.readiness id).2.thread? id with
  | none => rfl
  | some t =>
    refine Eq.trans ?_ (loads_readiness p id)
    simp only [Option.elim_some, woken, wake]
    split
    · rfl
    · dsimp only
      split <;> rfl

theorem loads_performAll (p : Project) (exchanges : List Exchange) :
    (p.performAll exchanges).loads = p.loads :=
  foldl_keeps Project.loads (fun p e => (within_perform p e).loads) exchanges p

theorem loads_turn {resumed : Bool} (h : p.turn? laps id = some (resumed, q)) :
    q.loads = p.loads := by
  cases ran_of_turn? h with
  | passed hd => exact loads_readiness p id
  | orphaned hd => exact (loads_endThread _ id).trans (loads_readiness p id)
  | resumed ht he =>
    rw [loads_settle, loads_leave, loads_performAll, loads_turnStart]

end Loads

section Errors

theorem errors_performAll (p : Project) (exchanges : List Exchange) :
    (p.performAll exchanges).world.errors = p.world.errors := by
  have hc : Changes (anything False) p (p.performAll exchanges) := changes_performAll p exchanges
  exact hc.errors fun h => h

-- A thread keeps its names while it is asked whether it is due.
theorem errors_leave {t : Thread} {r : Resumption} {last : Project}
    (ht : (p.readiness id).2.thread? id = some t) (he : p.ending? laps id = some (r, last)) :
    (last.leave t r).world.errors = last.world.errors ++ p.failures laps id := by
  obtain ⟨change, hr, hc⟩ := readiness_eq_updateThread p id
  rw [hr, thread?_updateThread fun t => (hc t).1.id] at ht
  obtain ⟨s, hs, rfl⟩ := Option.map_eq_some_iff.1 ht
  unfold failures
  rw [hs, he]
  cases r with
  | finished =>
    rw [List.append_nil]
    exact errors_endThread last _
  | suspended suspension body =>
    rw [List.append_nil]
    simp only [leave]
    split
    · exact errors_endThread last _
    · rfl
  | failed failure =>
    dsimp only
    rw [← (hc s).1.actor, ← (hc s).1.owner, ← (hc s).1.label]
    exact errors_endThread (last.reportFailure (change s) failure) _

theorem errors_turn {resumed : Bool} (h : p.turn? laps id = some (resumed, q)) :
    q.world.errors = p.world.errors ++ p.failures laps id := by
  have hnone : (p.readiness id).1 ≠ .due → p.failures laps id = [] := fun hd => by
    unfold failures
    rw [ending?_of_not_due hd]
    cases p.thread? id <;> rfl
  cases ran_of_turn? h with
  | passed hd => rw [hnone hd, List.append_nil, world_readiness]
  | orphaned hd =>
    rw [hnone (by simp [hd]), List.append_nil, errors_endThread, world_readiness]
  | resumed ht he =>
    rw [errors_settle, errors_leave ht he, errors_performAll, world_turnStart]

theorem errors_prepare (p : Project) :
    p.prepare.world.errors = p.world.errors ++ p.loads.filterMap Load.report? := by
  have hc : Changes (anything False) { p with frame := p.frame + 1 }.poll p.prepare :=
    changes_launchInput _
  rw [hc.errors fun h => h, poll_eq]

theorem loads_prepare (p : Project) :
    p.prepare.loads = p.loads.filter (·.result?.isNone) := by
  refine (loads_launchAll _).trans ?_
  exact congrArg Project.loads (poll_eq { p with frame := p.frame + 1 })

end Errors

end Project

namespace Event

-- The loads that an event settles as far as they are ready.
def looksAt? : Event → Project → Option (List Load)
  | .operate (.loadAssets loader), p =>
    some (p.loads ++ p.wanted.map fun key => loader key.1 key.2)
  | .operate .poll, p => some p.loads
  | .frame, p => some p.loads
  | _, _ => none

def answers : Event → List Load → List Load
  | .operate (.completeLoad kind locator outcome), loads =>
    onOldest kind locator (fun load => (load.answer outcome).abandon) loads
  | .operate (.abandonLoad kind locator), loads => onOldest kind locator Load.abandon loads
  | _, loads => loads

-- The failures that an event consists of: of loads that have failed, or of a resumption.
def occurred (e : Event) (m : Moment) : List Report :=
  match e.looksAt? m.project, e, m.turns with
  | some loads, _, _ => loads.filterMap Load.report?
  | none, .turn laps, id :: _ => m.project.failures laps id
  | none, _, _ => []

def taken : Event → Moment → List Report
  | .operate .takeErrors, m => m.project.takeErrors.1
  | _, _ => []

end Event

namespace Moment

variable {κ : Conduct} {m m' n : Moment} {p q : Project} {e : Event} {events : List Event}

def act? : Event → Moment → Option Moment
  | .operate op, ⟨p, []⟩ => some ⟨op.apply p, []⟩
  | .frame, ⟨p, []⟩ => some ⟨p.prepare, p.prepare.threads.map (·.id)⟩
  | .turn laps, ⟨p, id :: ids⟩ => (p.turn? laps id).map fun r => ⟨r.2, ids⟩
  | _, _ => none

def acts? : List Event → Moment → Option Moment
  | [], m => some m
  | e :: events, m => (m.act? e).bind (acts? events)

def gathered (f : Event → Moment → List Report) : List Event → Moment → List Report
  | [], _ => []
  | e :: events, m => f e m ++ (m.act? e).elim [] (gathered f events)

def hushed (m : Moment) : Moment := ⟨m.project.hushed, m.turns⟩

def after (earlier : List Report) (m : Moment) : Moment := ⟨m.project.after earlier, m.turns⟩

section Hushing

variable {earlier : List Report}

theorem act?_after (he : e ≠ .operate .takeErrors) (m : Moment) :
    (m.after earlier).act? e = (m.act? e).map (after earlier) := by
  obtain ⟨p, ids⟩ := m
  cases e with
  | operate op =>
    cases ids with
    | cons id ids => rfl
    | nil =>
      refine congrArg (fun q : Project => some (⟨q, []⟩ : Moment)) (apply_after (fun hop => he ?_) p)
      rw [hop]
  | frame =>
    cases ids with
    | cons id ids => rfl
    | nil =>
      exact congrArg (fun q : Project => some (⟨q, q.threads.map (·.id)⟩ : Moment)) (prepare_after p)
  | turn laps =>
    cases ids with
    | nil => rfl
    | cons id ids =>
      simp only [act?, after]
      rw [turn?_after, Option.map_map, Option.map_map]
      rfl

theorem after_hushed (m : Moment) : m.hushed.after m.project.world.errors = m := by
  simp only [hushed, after, Project.hushed, Project.after, World.after, List.append_nil]

-- What has been reported decides nothing of what happens next.
theorem act?_hushed (e : Event) (m : Moment) :
    (m.act? e).map hushed = (m.hushed.act? e).map hushed := by
  by_cases he : e = .operate .takeErrors
  · subst he
    obtain ⟨p, ids⟩ := m
    cases ids <;> rfl
  · have ha : (m.hushed.after m.project.world.errors).act? e =
        (m.hushed.act? e).map (after m.project.world.errors) := act?_after he m.hushed
    rw [after_hushed] at ha
    rw [ha, Option.map_map]
    rfl

theorem act?_congr (h : m.hushed = m'.hushed) (e : Event) :
    (m.act? e).map hushed = (m'.act? e).map hushed := by
  rw [act?_hushed, h, ← act?_hushed]

theorem acts?_congr (h : m.hushed = m'.hushed) (events : List Event) :
    (m.acts? events).map hushed = (m'.acts? events).map hushed := by
  induction events generalizing m m' with
  | nil => exact congrArg some h
  | cons e events ih =>
    have hact := act?_congr h e
    simp only [acts?]
    cases hm : m.act? e with
    | none =>
      rw [hm] at hact
      rw [Option.map_eq_none_iff.1 hact.symm]
    | some n =>
      rw [hm] at hact
      obtain ⟨n', hn', hhush⟩ := Option.map_eq_some_iff.1 hact.symm
      rw [hn']
      exact ih hhush.symm

theorem failures_after (laps id : Nat) (p : Project) :
    (p.after earlier).failures laps id = p.failures laps id := by
  have ht : (p.after earlier).thread? id = p.thread? id := rfl
  unfold failures
  rw [ht, ending?_after]
  cases p.thread? id with
  | none => rfl
  | some t =>
    cases p.ending? laps id with
    | none => rfl
    | some ended =>
      obtain ⟨r, last⟩ := ended
      cases r <;> rfl

theorem occurred_hushed (e : Event) (m : Moment) : e.occurred m = e.occurred m.hushed := by
  have hfailures : ∀ laps id : Nat,
      m.project.failures laps id = m.hushed.project.failures laps id := fun laps id => by
    have hf : (m.hushed.project.after m.project.world.errors).failures laps id =
        m.hushed.project.failures laps id := failures_after laps id m.hushed.project
    rw [← hf]
    exact congrArg (fun m : Moment => m.project.failures laps id) (after_hushed m).symm
  obtain ⟨p, ids⟩ := m
  cases e with
  | turn laps =>
    cases ids with
    | nil => rfl
    | cons id ids => exact hfailures laps id
  | operate op => cases op <;> rfl
  | frame => rfl

theorem gathered_occurred_congr (h : m.hushed = m'.hushed) (events : List Event) :
    gathered Event.occurred events m = gathered Event.occurred events m' := by
  induction events generalizing m m' with
  | nil => rfl
  | cons e events ih =>
    have hact := act?_congr h e
    simp only [gathered]
    rw [occurred_hushed, h, ← occurred_hushed]
    refine congrArg (e.occurred m' ++ ·) ?_
    cases hm : m.act? e with
    | none =>
      rw [hm] at hact
      rw [Option.map_eq_none_iff.1 hact.symm]
    | some n =>
      rw [hm] at hact
      obtain ⟨n', hn', hhush⟩ := Option.map_eq_some_iff.1 hact.symm
      rw [hn']
      exact ih hhush.symm

end Hushing

section Sums

theorem errors_apply {op : Operation} (p : Project) :
    (Event.operate op).taken ⟨p, []⟩ ++ (op.apply p).world.errors =
      p.world.errors ++ (Event.operate op).occurred ⟨p, []⟩ := by
  have hmute : ∀ {q : Project}, Changes (anything False) p q →
      q.world.errors = p.world.errors ++ [] := fun hc => by
    rw [List.append_nil]
    exact hc.errors fun h => h
  cases op with
  | register c kind => exact hmute (changes_register p c kind fun _ _ _ => trivial)
  | broadcast message => exact hmute (changes_broadcast p message)
  | greenFlag => exact hmute (changes_greenFlag (fun _ => trivial) p)
  | redStop => exact hmute (changes_stopEverything (fun _ => trivial) p)
  | answer text => exact hmute (changes_answerQuestion p text fun _ => trivial)
  | loadAssets loader =>
    simp only [Operation.apply, loadAssets_eq, poll_eq]
    rfl
  | poll =>
    simp only [Operation.apply, poll_eq]
    rfl
  | takeErrors => rfl
  | _ => exact (List.append_nil _).symm

-- What an event takes and what it leaves is what it found and what occurred in it.
theorem act?_errors (h : m.act? e = some n) :
    e.taken m ++ n.project.world.errors = m.project.world.errors ++ e.occurred m := by
  obtain ⟨p, ids⟩ := m
  cases e with
  | operate op =>
    cases ids with
    | cons id ids => cases h
    | nil =>
      cases h
      exact errors_apply p
  | frame =>
    cases ids with
    | cons id ids => cases h
    | nil =>
      cases h
      exact errors_prepare p
  | turn laps =>
    cases ids with
    | nil => cases h
    | cons id ids =>
      obtain ⟨⟨resumed, q⟩, hq, rfl⟩ := Option.map_eq_some_iff.1 h
      exact errors_turn hq

theorem acts?_errors (h : m.acts? events = some n) :
    gathered Event.taken events m ++ n.project.world.errors =
      m.project.world.errors ++ gathered Event.occurred events m := by
  induction events generalizing m with
  | nil =>
    cases h
    exact (List.append_nil _).symm
  | cons e events ih =>
    obtain ⟨mid, hmid, hn⟩ := Option.bind_eq_some_iff.1 h
    simp only [gathered, hmid, Option.elim_some]
    rw [List.append_assoc, ih hn, ← List.append_assoc, act?_errors hmid, List.append_assoc]

theorem Start.errors (h : Start κ p) : p.world.errors = [] := by
  cases h with
  | new h bus hl => exact (blank_of_new h).world.errors
  | script h hl hj =>
    refine load_invariant (I := fun p => p.world.errors = []) (fun p _ hp _ => hp.world.errors)
      (fun p c kind _ hp => ?_) h
    have hc : Changes (anything False) p (p.register c kind).2 :=
      changes_register p c kind fun _ _ _ => trivial
    exact (hc.errors fun h => h).trans hp

-- A load that has been looked at is gone once it is ready; none is lost before.
theorem act?_loads (h : m.act? e = some n) : n.project.loads =
    (e.looksAt? m.project).elim (e.answers m.project.loads) (·.filter (·.result?.isNone)) := by
  obtain ⟨p, ids⟩ := m
  cases e with
  | operate op =>
    cases ids with
    | cons id ids => cases h
    | nil =>
      cases h
      cases op with
      | register c kind => exact (within_register p c kind).loads
      | broadcast message => exact loads_launchAll _
      | greenFlag => exact loads_launchAll _
      | answer text =>
        simp only [Operation.apply, answerQuestion]
        split <;> rfl
      | loadAssets loader =>
        simp only [Operation.apply, loadAssets_eq, poll_eq]
        rfl
      | poll =>
        simp only [Operation.apply, poll_eq]
        rfl
      | _ => rfl
  | frame =>
    cases ids with
    | cons id ids => cases h
    | nil =>
      cases h
      exact loads_prepare p
  | turn laps =>
    cases ids with
    | nil => cases h
    | cons id ids =>
      obtain ⟨⟨resumed, q⟩, hq, rfl⟩ := Option.map_eq_some_iff.1 h
      exact loads_turn hq

theorem Step.event (h : Step κ m n) : ∃ e, m.act? e = some n := by
  cases h with
  | operate h => exact ⟨.operate _, rfl⟩
  | frame => exact ⟨.frame, rfl⟩
  | turn h => exact ⟨.turn _, congrArg (Option.map _) h⟩

end Sums

end Moment

end SpriteStage

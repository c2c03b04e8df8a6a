import SpriteStage.Proofs.Ledger

namespace SpriteStage

open Project

namespace Project

variable {p q : Project} {t : Thread} {id : Nat} {b : Body}

-- The same project, but for what one of its threads is about to do.
def recast (p : Project) (id : Nat) (b : Body) : Project :=
  p.updateThread id fun t => { t with body := b }

-- Blind to what a thread does next and to what it waits for.
def without (p : Project) (id : Nat) : Project := p.veiled [] (· == id)

def reporting (p : Project) (r : Report) : Project :=
  p.updateWorld (·.report r.origin r.message)

section Recasting

theorem recast_self (hp : p.Ranked) (ht : t ∈ p.threads) : p.recast t.id t.body = p :=
  updateThread_of_fixed fun u hu hid => by rw [hp.eq_of_id ht hu hid]

theorem updateThread_comp {f g : Thread → Thread}
    (hc : ∀ t, (f t).id = t.id) :
    (p.updateThread id f).updateThread id g =
      p.updateThread id fun t => g (f t) := by
  simp only [updateThread, List.map_map]
  refine congrArg (fun threads => { p with threads := threads }) (List.map_congr_left fun t _ => ?_)
  simp only [Function.comp]
  by_cases ht : t.id = id
  · simp only [if_pos ht, hc]
  · simp only [if_neg ht]

theorem recast_updateThread {f : Thread → Thread} (hc : ∀ t, (f t).id = t.id)
    (hb : ∀ t : Thread, f { t with body := b } = { f t with body := b }) :
    (p.recast id b).updateThread id f = (p.updateThread id f).recast id b := by
  unfold recast
  rw [updateThread_comp, updateThread_comp hc]
  · exact updateThread_congr fun t _ _ => hb t
  · exact fun _ => rfl

theorem thread?_recast (p : Project) (id : Nat) (b : Body) :
    (p.recast id b).thread? id = (p.thread? id).map fun t => { t with body := b } :=
  thread?_updateThread fun _ => rfl

-- Whether a thread is due does not depend on what it would do.
theorem readiness_recast (p : Project) (id : Nat) (b : Body) :
    (p.recast id b).readiness id = ((p.readiness id).1, (p.readiness id).2.recast id b) := by
  unfold readiness
  rw [thread?_recast]
  cases p.thread? id with
  | none => rfl
  | some t =>
    have hl : (p.recast id b).world.isLive t.owner = p.world.isLive t.owner := rfl
    simp only [Option.map_some]
    rw [hl]
    by_cases hlive : p.world.isLive t.owner
    · rw [if_pos hlive, if_pos hlive]
      cases t.state with
      | timer remaining =>
        refine congrArg (Prod.mk _) ?_
        exact recast_updateThread (fun _ => rfl) fun _ => rfl
      | performance performance =>
        have hb : (p.recast id b).world.bus = p.world.bus := rfl
        dsimp only
        rw [hb]
        cases p.world.bus.status performance with
        | failed reason =>
          refine congrArg (Prod.mk _) ?_
          exact recast_updateThread (fun _ => rfl) fun _ => rfl
        | _ => rfl
      | _ => rfl
    · rw [if_neg hlive, if_neg hlive]

theorem without_updateThread {f g : Thread → Thread}
    (hc : ∀ t : Thread, t.id = id →
      (f t).veiled (· == id) = (g t).veiled (· == id)) :
    (p.updateThread id f).without id = (p.updateThread id g).without id := by
  simp only [without, veiled, updateThread, List.map_map]
  refine congrArg (fun threads => { p with threads := threads, world := p.world.after [] })
    (List.map_congr_left fun t _ => ?_)
  simp only [Function.comp]
  by_cases ht : t.id = id
  · simp only [if_pos ht]
    exact hc t ht
  · simp only [if_neg ht]

-- Two threads that are told apart by what is veiled only.
theorem veiled_congr {t u : Thread} (hid : t.id = id) (h : ∃ body resume,
    u = { t with body := body, mailbox := { t.mailbox with resume := resume } }) :
    t.veiled (· == id) = u.veiled (· == id) := by
  obtain ⟨body, resume, rfl⟩ := h
  have hb : (t.id == id) = true := beq_iff_eq.2 hid
  simp only [Thread.veiled, hb, if_true]

theorem without_woken (p : Project) (t : Thread) :
    (p.woken t).2.without t.id =
      (p.updateThread t.id fun t => { t with state := .runnable }).without t.id := by
  unfold woken wake
  cases t.body with
  | start behavior => rfl
  | waiting wait next =>
    dsimp only
    split
    · rw [updateMailbox, updateThread_comp]
      · refine without_updateThread fun u hu => Eq.symm ?_
        exact veiled_congr (t := { u with state := .runnable }) hu ⟨u.body, none, rfl⟩
      · exact fun _ => rfl
    · rfl

theorem without_turnStart (p : Project) (id : Nat) (b : Body) :
    ((p.recast id b).turnStart id).without id = (p.turnStart id).without id := by
  have hcast : ∀ q : Project, (q.recast id b).without id = q.without id := fun q => by
    have hself : (q.recast id b).without id = (q.updateThread id fun t => t).without id :=
      without_updateThread fun u hu => (veiled_congr hu ⟨b, u.mailbox.resume, rfl⟩).symm
    rw [hself, updateThread_self]
  unfold turnStart
  rw [readiness_recast]
  dsimp only
  rw [thread?_recast]
  cases ht : (p.readiness id).2.thread? id with
  | none => exact hcast p
  | some t =>
    obtain rfl := id_of_thread? ht
    have hw := without_woken ((p.readiness t.id).2.recast t.id b) { t with body := b }
    simp only [Option.map_some, Option.elim_some]
    refine hw.trans (Eq.trans ?_ (without_woken (p.readiness t.id).2 t).symm)
    have hawake : ((p.readiness t.id).2.recast t.id b).updateThread t.id
        (fun t => { t with state := .runnable }) =
          ((p.readiness t.id).2.updateThread t.id fun t => { t with state := .runnable }).recast t.id b :=
      recast_updateThread (fun _ => rfl) fun _ => rfl
    exact (congrArg (Project.without · t.id) hawake).trans (hcast _)

end Recasting

section Endings

variable {b' : Body} {laps laps' : Nat} {last last' : Project} {r : Report} {failure : Failure}

theorem veiled_of_ne {t : Thread} (h : t.id ≠ id) : t.veiled (· == id) = t :=
  if_neg (by simpa using h)

theorem without_of_gone (h : p.thread? id = none) : p.without id = p := by
  refine congrArg (fun threads => { p with threads := threads }) ?_
  refine (List.map_congr_left fun t ht => veiled_of_ne ?_).trans (List.map_id _)
  simpa using List.find?_eq_none.1 h t ht

theorem filter_without (p : Project) (id : Nat) :
    (p.without id).threads.filter (·.id ≠ id) = p.threads.filter (·.id ≠ id) := by
  have hsame : ((fun t : Thread => decide (t.id ≠ id)) ∘
      Thread.veiled (· == id)) =
      fun t : Thread => decide (t.id ≠ id) := funext fun t => by
    simp only [Function.comp, id_veiled]
  rw [without, veiled, List.filter_map, hsame]
  refine (List.map_congr_left fun t ht => veiled_of_ne ?_).trans (List.map_id _)
  simpa using (List.mem_filter.1 ht).2

-- Whoever ends a thread does not look at what it was about to do.
theorem endThread_without (p : Project) (id : Nat) :
    (p.without id).endThread id = p.endThread id := by
  cases ht : p.thread? id with
  | none => rw [without_of_gone ht]
  | some t =>
    have hw : (p.without id).thread? id = (p.thread? id).map (·.veiled (· == id)) :=
      thread?_veiled p id
    have hgroup : (t.veiled (· == id)).group = t.group := by
      unfold Thread.veiled
      split <;> rfl
    have hf := filter_without p id
    unfold endThread
    rw [hw, ht]
    simp only [Option.map_some, hgroup, hf]
    rfl

theorem endThread_reporting (p : Project) (r : Report) (id : Nat) :
    (p.reporting r).endThread id = (p.endThread id).reporting r := by
  have ht : (p.reporting r).thread? id = p.thread? id := rfl
  unfold endThread
  rw [ht]
  cases p.thread? id <;> rfl

theorem settle_reporting (p : Project) (r : Report) :
    (p.reporting r).settle = p.settle.reporting r := by
  have hnone : p.hushed.settle.world.errors = [] := errors_settle p.hushed
  have hp : p.hushed.after p.world.errors = p := by
    simp only [hushed, after, World.after, List.append_nil]
  have hr : p.hushed.after (p.world.errors ++ [r]) = p.reporting r := by
    simp only [hushed, after, World.after, List.append_nil]
    rfl
  rw [← hr, settle_after]
  conv => rhs; rw [← hp, settle_after]
  simp only [after, World.after, reporting, updateWorld, World.report, hnone, List.append_nil]

theorem without_of_ending {r : Resumption}
    (h : (p.recast id b).ending? laps id = some (r, last)) :
    last.without id =
      ((p.turnStart id).without id).performAll ((p.recast id b).turnExchanges laps id) := by
  obtain ⟨t, -, rfl, -⟩ := ending?_eq_some h
  rw [← without_turnStart p id b]
  exact (performAll_veiled _ _).symm

-- Two bodies that exchange the same with the project, one of which fails in the end.
theorem turns_of_endings (h : (p.recast id b).ending? laps id = some (.finished, last))
    (h' : (p.recast id b').ending? laps' id = some (.failed failure, last'))
    (he : (p.recast id b').turnExchanges laps' id = (p.recast id b).turnExchanges laps id) :
    ∃ q r, (p.recast id b).turn? laps id = some (true, q) ∧
      (p.recast id b').turn? laps' id = some (true, q.reporting r) ∧
      q.world.errors = p.world.errors ∧ r.message = failure.message := by
  have hsame : last'.endThread id = last.endThread id := by
    rw [← endThread_without, ← endThread_without last, without_of_ending h', without_of_ending h, he]
  obtain ⟨t, ht, hlast, hturn⟩ := ending?_eq_some h
  obtain ⟨u, hu, -, hturn'⟩ := ending?_eq_some h'
  let r : Report :=
    ⟨.thread (last'.world.className u.actor) (last'.world.label u.owner) u.label, failure.message⟩
  have hfailed : last'.leave u (.failed failure) = (last.endThread id).reporting r := by
    rw [← hsame, ← endThread_reporting, ← id_of_thread? hu]
    rfl
  have hfinished : last.leave t .finished = last.endThread id := by
    rw [← id_of_thread? ht]
    rfl
  refine ⟨(last.endThread id).settle, r, hfinished ▸ hturn, ?_, ?_, rfl⟩
  · rw [hturn', hfailed, settle_reporting]
  · rw [errors_settle, errors_endThread, hlast, errors_performAll, world_turnStart]
    rfl

end Endings

end Project

def Resumption.cause? : Resumption → Option (Option Failure)
  | .finished => some none
  | .failed failure => some (some failure)
  | .suspended _ _ => none

theorem Project.ending_of_cause {p : Project} {laps id : Nat} {cause : Option Failure}
    (h : (p.ending? laps id).map (·.1.cause?) = some (some cause)) :
    ∃ last, p.ending? laps id = some (cause.elim .finished .failed, last) := by
  obtain ⟨⟨r, last⟩, he, hr⟩ := Option.map_eq_some_iff.1 h
  cases r with
  | finished =>
    cases hr
    exact ⟨last, he⟩
  | failed failure =>
    cases hr
    exact ⟨last, he⟩
  | suspended suspension body => cases hr

namespace Moment

variable {κ : Conduct} {m : Moment} {t : Thread} {b b' : Body}

-- Two projects that only differ in what a failure of a thread has added to the errors.
structure Isolated (p : Project) (t : Thread) (failure : Failure) (q q' : Project) : Prop where
  report : ∃ label, q' = q.reporting ⟨.thread (p.world.className t.actor) label t.label,
      failure.message⟩ ∧
    (label = p.world.className t.actor ++ World.idText t.owner ∨
      label = World.idText t.owner ∧ q.world.isLive t.owner = false)
  later : ∀ (ids : List Nat) (events : List Event),
    (acts? events ⟨q', ids⟩).map hushed = (acts? events ⟨q, ids⟩).map hushed ∧
      gathered Event.occurred events ⟨q', ids⟩ = gathered Event.occurred events ⟨q, ids⟩

theorem keeps_any (b : Body) (h : Handle) : b.Keeps .any h := by
  cases b with
  | start behavior => trivial
  | waiting wait next => exact fun _ => trivial

theorem Reachable.reports_recast (hm : Reachable κ m) (ht : t ∈ m.project.threads) {laps : Nat}
    {resumed : Bool} {q : Project}
    (h : (m.project.recast t.id b).turn? laps t.id = some (resumed, q)) :
    Reports .any (m.project.recast t.id b) { t with body := b } q := by
  have hcast : Changes (.under .any) m.project (m.project.recast t.id b) :=
    .single (.turn trivial (fun _ => ⟨rfl, rfl, rfl, rfl, rfl⟩) fun _ _ _ _ => keeps_any b _)
  have ho := hm.any.obeys_of_changes hcast
  have ⟨hw, hi⟩ := hm.any.registered_indexed hcast
  have hmem : { t with body := b } ∈ (m.project.recast t.id b).threads :=
    List.mem_map.2 ⟨t, ht, if_pos rfl⟩
  have hown : m.project.world.Owns t.owner t.actor := hm.owns ht
  exact reports_turn (turn_of_turn? ho hmem h) ho hw hi hown

theorem Isolated.of_report {p q : Project} {r : Report} {failure : Failure}
    (hr : ∃ label, r = ⟨.thread (p.world.className t.actor) label t.label, failure.message⟩ ∧
      (label = p.world.className t.actor ++ World.idText t.owner ∨
        label = World.idText t.owner ∧ q.world.isLive t.owner = false)) :
    Isolated p t failure q (q.reporting r) where
  report := by
    obtain ⟨label, rfl, hl⟩ := hr
    exact ⟨label, rfl, hl⟩
  later ids events := by
    have hsame : (⟨q.reporting r, ids⟩ : Moment).hushed = (⟨q, ids⟩ : Moment).hushed := rfl
    exact ⟨acts?_congr hsame events, gathered_occurred_congr hsame events⟩

-- Nobody else can tell whether a thread has finished or failed, and each failure is noted once.
structure FailsAlone (κ : Conduct) (m : Moment) : Prop where
  same : ∀ t ∈ m.project.threads, m.project.recast t.id t.body = m.project
  isolated : ∀ t ∈ m.project.threads, ∀ ⦃b b' : Body⦄ ⦃laps laps' : Nat⦄ ⦃last last' : Project⦄
    ⦃failure : Failure⦄,
    (m.project.recast t.id b).ending? laps t.id = some (.finished, last) →
    (m.project.recast t.id b').ending? laps' t.id = some (.failed failure, last') →
    (m.project.recast t.id b').turnExchanges laps' t.id =
      (m.project.recast t.id b).turnExchanges laps t.id →
    ∃ q q', (m.project.recast t.id b).turn? laps t.id = some (true, q) ∧
      (m.project.recast t.id b').turn? laps' t.id = some (true, q') ∧
      Isolated m.project t failure q q'
  sums : ∀ {p : Project} {events : List Event} {n : Moment}, Start κ p →
    acts? events ⟨p, []⟩ = some n →
      gathered Event.taken events ⟨p, []⟩ ++ n.project.world.errors =
        gathered Event.occurred events ⟨p, []⟩
  settled : ∀ {e : Event} {n : Moment}, m.act? e = some n → n.project.loads =
    (e.looksAt? m.project).elim (e.answers m.project.loads) (·.filter (·.result?.isNone))
  covered : ∀ {n : Moment}, Step κ m n → ∃ e, m.act? e = some n

theorem Reachable.isolated (hm : Reachable κ m) (ht : t ∈ m.project.threads)
    {laps laps' : Nat} {last last' : Project} {failure : Failure}
    (h : (m.project.recast t.id b).ending? laps t.id = some (.finished, last))
    (h' : (m.project.recast t.id b').ending? laps' t.id = some (.failed failure, last'))
    (he : (m.project.recast t.id b').turnExchanges laps' t.id =
      (m.project.recast t.id b).turnExchanges laps t.id) :
    ∃ q q', (m.project.recast t.id b).turn? laps t.id = some (true, q) ∧
      (m.project.recast t.id b').turn? laps' t.id = some (true, q') ∧
      Isolated m.project t failure q q' := by
  obtain ⟨q, r, hq, hq', herrors, hmessage⟩ := turns_of_endings h h' he
  refine ⟨q, q.reporting r, hq, hq', .of_report ?_⟩
  have hadded : (q.reporting r).world.errors = m.project.world.errors ++ [r] :=
    congrArg (· ++ [r]) herrors
  cases hm.reports_recast ht hq' with
  | silent hs =>
    have hnil : m.project.world.errors ++ [r] = m.project.world.errors ++ [] :=
      hadded.symm.trans (hs.trans (List.append_nil _).symm)
    cases List.append_cancel_left hnil
  | failure hf hl _ =>
    obtain rfl := List.singleton_inj.1 (List.append_cancel_left (hadded.symm.trans hf))
    subst hmessage
    exact ⟨_, rfl, hl⟩

theorem Reachable.failures_isolated (hm : Reachable κ m) : FailsAlone κ m where
  same _ ht := recast_self hm.obeys.toRanked ht
  isolated _ ht _ _ _ _ _ _ _ h h' he := hm.isolated ht h h' he
  sums hp hn := by
    rw [acts?_errors hn, hp.errors, List.nil_append]
  settled h := act?_loads h
  covered h := h.event

def outcry (ending : Behavior) : Body :=
  .start (.call (.request ⟨1, 1⟩ (.createClone (.member 1))) fun _ => ending)

def outcries : List Event :=
  [.operate (.register (ghost fun _ => .fail (.text "too loud")) .sprite),
    .operate (.broadcast "boo"), .frame, .turn 1, .frame, .turn 1, .operate .takeErrors]

theorem haunted_isolated :
    let p := (haunted "boo" fun _ => .finish).prepare
    (∃ t q q', (p.recast 1 (outcry .finish)).turn? 1 1 = some (true, q) ∧
      (p.recast 1 (outcry (.fail (.text "in vain")))).turn? 1 1 = some (true, q') ∧
      Isolated p t (.text "in vain") q q') ∧
      ∃ n, acts? outcries ⟨{}, []⟩ = some n ∧
        gathered Event.taken outcries ⟨{}, []⟩ ++ n.project.world.errors =
          [⟨.thread "Ghost" "Ghost#2" "vanish", "too loud"⟩] := by
  intro p
  have hm : Reachable .any ⟨p, [1]⟩ :=
    (reachable_haunted (fun _ => trivial) (fun _ _ _ => trivial) "boo").step .frame
  have h := Reachable.failures_isolated hm
  have hnew : Project.new {} = .ok {} := rfl
  have hstart : Start .any {} := .new hnew {} fun _ _ _ => trivial
  have hruns : (acts? outcries ⟨{}, []⟩).isSome = true := by decide +kernel
  have hoccurred : gathered Event.occurred outcries ⟨{}, []⟩ =
      [⟨.thread "Ghost" "Ghost#2" "vanish", "too loud"⟩] := by decide +kernel
  obtain ⟨n, hn⟩ := Option.isSome_iff_exists.1 hruns
  have hledger := h.sums hstart hn
  obtain ⟨t, ht, hid⟩ : ∃ t ∈ p.threads, t.id = 1 :=
    List.mem_map.1 (show 1 ∈ p.threads.map (·.id) from List.mem_singleton_self 1)
  have hturns := h.isolated t ht
  rw [hid] at hturns
  have hfinishes : ((p.recast 1 (outcry .finish)).ending? 1 1).map (·.1.cause?) =
      some (some none) := by decide +kernel
  have hfails : ((p.recast 1 (outcry (.fail (.text "in vain")))).ending? 1 1).map (·.1.cause?) =
      some (some (some (.text "in vain"))) := by decide +kernel
  obtain ⟨last, hlast⟩ := ending_of_cause hfinishes
  obtain ⟨last', hlast'⟩ := ending_of_cause hfails
  have hcalls : (p.recast 1 (outcry (.fail (.text "in vain")))).turnExchanges 1 1 =
      (p.recast 1 (outcry .finish)).turnExchanges 1 1 := rfl
  obtain ⟨q, q', hq, hq', hsame⟩ := hturns hlast hlast' hcalls
  exact ⟨⟨t, q, q', hq, hq', hsame⟩, n, hn, hledger.trans hoccurred⟩

end Moment

end SpriteStage

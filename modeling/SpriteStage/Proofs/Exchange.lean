import SpriteStage.Proofs.Stopping

namespace SpriteStage

-- What passes between a body and its project, one thing after another.
inductive Exchange where
  | call (call : Call)
  | pause (handle : Handle) (wait : Wait)

-- A request to delete the instance of a handle, whether the body waits for it or not.
inductive Exchange.Deletes (k : Handle) : Exchange → Prop where
  | awaited : Deletes k (.pause k .delete)
  | dropped : Deletes k (.call (.start k .delete))

-- What has handlers started, whoever asks for it.
inductive Order where
  | send (trigger : Trigger)
  | clone (source : CloneSource)
  | click (place : Point)

def Order.apply : Order → World → World
  | .send trigger, w => (w.dispatch trigger).2
  | .clone source, w =>
    match w.createClone source with
    | .ok (_, w) => w
    | .error _ => w
  | .click place, w => Project.click w place

def Exchange.order? : Exchange → Option Order
  | .call (.request _ (.broadcast message)) => some (.send (.message message))
  | .call (.request _ (.createClone source)) => some (.clone source)
  | .call (.start _ (.broadcastAndWait message)) => some (.send (.message message))
  | .pause _ (.broadcastAndWait message) => some (.send (.message message))
  | _ => none

namespace World

variable {w w' w'' : World}

-- Nothing is made, nothing is started.
structure Steady (w w' : World) : Prop where
  lastInstance : w'.lastInstance = w.lastInstance
  lastGroup : w'.lastGroup = w.lastGroup
  groups : w'.groups = w.groups
  spawns : w'.spawns = w.spawns

theorem Steady.refl (w : World) : w.Steady w := ⟨rfl, rfl, rfl, rfl⟩

theorem steady_deleteInstance (w : World) (id : Nat) : w.Steady (w.deleteInstance id).2 := by
  rcases w.deleteInstance_cases id with he | ⟨i, -, -, he⟩
  · rw [he]
    exact .refl w
  · rw [he]
    exact ⟨rfl, rfl, rfl, rfl⟩

theorem steady_answer {id : Nat} {r : Request} {reply : r.Reply}
    (h : w.answer id r = .ok (reply, w')) (hb : ∀ message, r ≠ .broadcast message)
    (hc : ∀ source, r ≠ .createClone source) : w.Steady w' := by
  cases grants_of_answer h with
  | sends => exact absurd rfl (hb _)
  | clones hr hm => exact absurd rfl (hc _)
  | _ => exact ⟨rfl, rfl, rfl, rfl⟩

end World

namespace Project

variable {σ : Scope} {κ : Conduct} {h : Handle} {p q : Project} {t : Thread}

def perform (p : Project) : Exchange → Project
  | .call c => (p.answer c).2
  | .pause h wait =>
    match p.begin h wait with
    | (.passes _, q) => q
    | (.suspends _, q) => q.updateMailbox h.thread fun m => { m with pending := none }

def performAll (p : Project) (exchanges : List Exchange) : Project := exchanges.foldl perform p

theorem performAll_append (p : Project) (earlier later : List Exchange) :
    p.performAll (earlier ++ later) = (p.performAll earlier).performAll later := List.foldl_append

def exchanges (h : Handle) : Behavior → Project → List Exchange
  | .finish, _ => []
  | .fail _, _ => []
  | .jump _, _ => []
  | .call call next, p => .call call :: exchanges h (next (p.answer call).1) (p.answer call).2
  | .pause wait next, p =>
    .pause h wait ::
      match p.begin h wait with
      | (.passes outcome, p) => exchanges h (next outcome) p
      | (.suspends _, _) => []

def exchangesOn (h : Handle) : Nat → Behavior → Project → List Exchange
  | 0, _, _ => []
  | laps + 1, behavior, p =>
    exchanges h behavior p ++
      match run h behavior p with
      | (.jumps target, p) => exchangesOn h laps (p.library target) p
      | _ => []

theorem run_eq_performAll (h : Handle) (b : Behavior) (p : Project) :
    (run h b p).2 = p.performAll (exchanges h b p) := by
  induction b generalizing p with
  | finish => rfl
  | fail failure => rfl
  | jump target => rfl
  | call c next ih => exact ih _ _
  | pause wait next ih =>
    simp only [run, exchanges, performAll, List.foldl_cons, perform]
    cases hw : p.begin h wait with
    | mk begun q =>
      cases begun with
      | passes outcome => exact ih _ _
      | suspends suspension => rfl

theorem runOn_eq_performAll {laps : Nat} {b : Behavior} {r : Resumption}
    (hr : runOn? h laps b p = some (r, q)) : q = p.performAll (exchangesOn h laps b p) := by
  induction laps generalizing b p with
  | zero => cases hr
  | succ laps ih =>
    have hrun := run_eq_performAll h b p
    simp only [runOn?] at hr
    simp only [exchangesOn]
    cases he : run h b p with
    | mk halt mid =>
      rw [he] at hr hrun
      obtain rfl : mid = p.performAll (exchanges h b p) := hrun
      rw [performAll_append]
      cases halt with
      | jumps target => exact ih hr
      | _ => cases hr; rfl

section Orders

theorem steady_begin (p : Project) (h : Handle) {wait : Wait}
    (hb : ∀ message, wait ≠ .broadcastAndWait message) :
    p.world.Steady (p.begin h wait).2.world := by
  have ho := p.opens_begin h wait
  generalize (p.begin h wait).2.world = w at ho
  cases ho with
  | sends => exact absurd rfl (hb _)
  | deletes => exact World.steady_deleteInstance _ _
  | _ => exact ⟨rfl, rfl, rfl, rfl⟩

theorem world_start (p : Project) (h : Handle) (wait : Wait) :
    (p.answer (.start h wait)).2.world = (p.begin h wait).2.world := by
  simp only [answer]
  split <;> rename_i hw <;> rw [hw]
  rfl

theorem world_pause (p : Project) (h : Handle) (wait : Wait) :
    (p.perform (.pause h wait)).world = (p.begin h wait).2.world := by
  simp only [perform]
  split <;> rename_i hw <;> rw [hw]
  rfl

theorem world_request (p : Project) (h : Handle) (r : Request) :
    (p.answer (.request h r)).2.world =
      match p.world.answer h.owner r with
      | .ok (_, w) => w
      | .error _ => p.world := by
  simp only [answer]
  cases p.world.answer h.owner r <;> rfl

-- Only sending a message and making a clone start anything.
theorem world_of_order {e : Exchange} {o : Order} (ho : e.order? = some o) :
    (p.perform e).world = o.apply p.world := by
  cases e with
  | pause h wait =>
    cases wait with
    | broadcastAndWait message =>
      cases ho
      exact world_pause p h _
    | _ => cases ho
  | call c =>
    cases c with
    | request h r =>
      cases r with
      | broadcast message =>
        cases ho
        exact world_request p h _
      | createClone source =>
        cases ho
        simp only [perform, world_request, World.answer, Order.apply]
        cases p.world.createClone source <;> rfl
      | _ => cases ho
    | start h wait =>
      cases wait with
      | broadcastAndWait message =>
        cases ho
        exact world_start p h _
      | _ => cases ho
    | _ => cases ho

theorem steady_of_order {e : Exchange} (ho : e.order? = none) : p.world.Steady (p.perform e).world := by
  cases e with
  | pause h wait =>
    rw [world_pause]
    refine steady_begin p h fun message he => ?_
    subst he
    cases ho
  | call c =>
    cases c with
    | request h r =>
      simp only [perform, world_request]
      split
      · rename_i ha
        refine World.steady_answer ha (fun message he => ?_) fun source he => ?_
        · subst he
          cases ho
        · subst he
          cases ho
      · exact .refl _
    | start h wait =>
      simp only [perform, world_start]
      refine steady_begin p h fun message he => ?_
      subst he
      cases ho
    | _ => exact ⟨rfl, rfl, rfl, rfl⟩

def anything (reports : Prop) : Scope := ⟨fun _ => True, fun _ => True, .any, reports⟩

theorem changes_exchange {σ : Scope} (hn : ¬ σ.conduct.Awaits) (ht : ∀ id, σ.turns id)
    (p : Project) {e : Exchange} (hr : ∀ k, e.Deletes k → σ.removes k.owner) :
    Changes σ p (p.perform e) := by
  cases e with
  | call c =>
    refine changes_answer p c fun k wait hc =>
      ⟨fun _ => ⟨ht _, fun ha => absurd ha hn⟩, fun hw => ?_⟩
    subst hc hw
    exact hr k .dropped
  | pause k wait =>
    have hb : Changes σ p (p.begin k wait).2 := by
      refine changes_begin p wait (fun _ => ⟨ht _, fun ha => absurd ha hn⟩) fun hw => ?_
      subst hw
      exact hr k .awaited
    simp only [perform]
    split <;> rename_i hw <;> rw [hw] at hb
    · exact hb
    · exact hb.tail (.mailbox _ _)

theorem not_awaits_any : ¬ Conduct.any.Awaits := fun h => by
  cases h ⟨0, 0⟩ (.start ⟨0, 0⟩ .yield) (fun _ => .finish) trivial

theorem changes_perform {reports : Prop} (p : Project) (e : Exchange) :
    Changes (anything reports) p (p.perform e) :=
  changes_exchange not_awaits_any (fun _ => trivial) p fun _ _ => trivial

theorem changes_performAll {reports : Prop} (p : Project) (exchanges : List Exchange) :
    Changes (anything reports) p (p.performAll exchanges) := by
  induction exchanges generalizing p with
  | nil => exact .refl
  | cons e exchanges ih => exact (changes_perform p e).trans (ih _)

end Orders

section Gathering

variable {α : Type}

-- What exchanges bring about, each in the project that it finds.
def gather (f : Exchange → Project → List α) : List Exchange → Project → List α
  | [], _ => []
  | e :: later, p => f e p ++ gather f later (p.perform e)

end Gathering

section Turns

-- What the turn of a thread does, and the project that its resumption starts from.
def turnExchanges (laps : Nat) (p : Project) (id : Nat) : List Exchange :=
  match p.readiness id with
  | (.due, p) =>
    (p.thread? id).elim [] fun t => exchangesOn t.handle laps (p.woken t).1 (p.woken t).2
  | _ => []

def turnStart (p : Project) (id : Nat) : Project :=
  ((p.readiness id).2.thread? id).elim p fun t => ((p.readiness id).2.woken t).2

theorem world_turnStart (p : Project) (id : Nat) : (p.turnStart id).world = p.world := by
  unfold turnStart
  cases (p.readiness id).2.thread? id with
  | none => rfl
  | some t => exact (world_woken _ t).trans (world_readiness p id)

-- How the resumption ends of a thread that is due, and the project that it leaves.
def ending? (laps : Nat) (p : Project) (id : Nat) : Option (Resumption × Project) :=
  match p.readiness id with
  | (.due, p) =>
    (p.thread? id).bind fun t => runOn? t.handle laps (p.woken t).1 (p.woken t).2
  | _ => none

-- How a turn goes: as a resumption that ends in one of three ways, or not at all.
inductive Ran (laps : Nat) (p : Project) (id : Nat) : Bool → Project → Prop where
  | resumed {t : Thread} {r : Resumption} (ht : (p.readiness id).2.thread? id = some t)
      (he : p.ending? laps id =
        some (r, (p.turnStart id).performAll (p.turnExchanges laps id))) :
      Ran laps p id true ((((p.turnStart id).performAll (p.turnExchanges laps id)).leave t r).settle)
  | passed (hd : (p.readiness id).1 ≠ .due) : Ran laps p id false (p.readiness id).2
  | orphaned (hd : (p.readiness id).1 = .orphaned) :
      Ran laps p id false ((p.readiness id).2.endThread id)

theorem turnExchanges_of_not_due {laps id : Nat} (hd : (p.readiness id).1 ≠ .due) :
    p.turnExchanges laps id = [] := by
  unfold turnExchanges
  split
  · rename_i he
    exact absurd (congrArg Prod.fst he) hd
  · rfl

theorem ending?_of_not_due {laps id : Nat} (hd : (p.readiness id).1 ≠ .due) :
    p.ending? laps id = none := by
  unfold ending?
  split
  · rename_i he
    exact absurd (congrArg Prod.fst he) hd
  · rfl

theorem thread?_readiness {id : Nat} (hd : (p.readiness id).1 = .due) :
    ∃ t, (p.readiness id).2.thread? id = some t := by
  obtain ⟨change, hr, hc⟩ := readiness_eq_updateThread p id
  rw [hr]
  cases ht : p.thread? id with
  | none =>
    unfold readiness at hd
    rw [ht] at hd
    cases hd
  | some t =>
    cases hf : (p.updateThread id change).thread? id with
    | some u => exact ⟨u, rfl⟩
    | none =>
      have hid : t.id = id := id_of_thread? ht
      have hmem : change t ∈ (p.updateThread id change).threads :=
        List.mem_map.2 ⟨t, List.mem_of_find?_eq_some ht, if_pos hid⟩
      have hne := List.find?_eq_none.1 hf (change t) hmem
      rw [(hc t).1.id, hid] at hne
      exact absurd (beq_self_eq_true id) hne

-- A resumption that ends has come that far through what it exchanged.
theorem ending?_eq_some {laps id : Nat} {r : Resumption} {last : Project}
    (h : p.ending? laps id = some (r, last)) :
    ∃ t, (p.readiness id).2.thread? id = some t ∧
      last = (p.turnStart id).performAll (p.turnExchanges laps id) ∧
      p.turn? laps id = some (true, (last.leave t r).settle) := by
  cases hr : p.readiness id with
  | mk readiness p' =>
    cases readiness with
    | due =>
      have hend := h
      unfold ending? at hend
      rw [hr] at hend
      obtain ⟨t, ht, hrun⟩ := Option.bind_eq_some_iff.1 hend
      have hstart : p.turnStart id = (p'.woken t).2 := by
        rw [turnStart, hr]
        simp only [ht, Option.elim_some]
      have hturn : p.turnExchanges laps id =
          exchangesOn t.handle laps (p'.woken t).1 (p.turnStart id) := by
        unfold turnExchanges
        rw [hr, hstart]
        simp only [ht, Option.elim_some]
      refine ⟨t, ht, ?_, ?_⟩
      · rw [hturn, hstart]
        exact runOn_eq_performAll hrun
      · unfold turn?
        rw [hr]
        exact congrArg (Option.map (true, ·)) (step?_of_runOn ht hrun)
    | _ => rw [ending?_of_not_due (by simp [hr])] at h; cases h

theorem ran_of_turn? {laps id : Nat} {resumed : Bool} (h : p.turn? laps id = some (resumed, q)) :
    Ran laps p id resumed q := by
  cases hr : p.readiness id with
  | mk readiness p' =>
    obtain rfl : (p.readiness id).2 = p' := congrArg Prod.snd hr
    have hfst : (p.readiness id).1 = readiness := congrArg Prod.fst hr
    cases readiness with
    | due =>
      obtain ⟨t, ht⟩ := thread?_readiness hfst
      have hturn := h
      unfold turn? at hturn
      rw [hr] at hturn
      obtain ⟨q', hstep, hq⟩ := Option.map_eq_some_iff.1 hturn
      obtain ⟨r, last, hrun, -⟩ := step?_eq_some ht hstep
      have he : p.ending? laps id = some (r, last) := by
        unfold ending?
        rw [hr]
        simp only [ht, Option.bind_some]
        exact hrun
      obtain ⟨u, hu, rfl, hdone⟩ := ending?_eq_some he
      rw [h] at hdone
      cases hdone
      exact .resumed hu he
    | gone =>
      unfold turn? at h
      rw [hr] at h
      cases h
      exact .passed (by simp [hfst])
    | waiting =>
      unfold turn? at h
      rw [hr] at h
      cases h
      exact .passed (by simp [hfst])
    | orphaned =>
      unfold turn? at h
      rw [hr] at h
      cases h
      exact .orphaned hfst

end Turns

end Project

end SpriteStage

import SpriteStage.Proofs.Recipients
import SpriteStage.Proofs.Seniority

namespace SpriteStage

open Project

def Spawn.thread (s : Spawn) (rate id : Nat) : Thread :=
  (⟨s.actor, s.owner, s.handler⟩ : World.Start).thread rate s.group id

namespace Project

variable {κ : Conduct} {p q r : Project} {queue : List Spawn}

-- Nobody comes or goes.
structure SameRoll (p q : Project) : Prop where
  ids : q.threads.map (·.id) = p.threads.map (·.id)
  lastThread : q.lastThread = p.lastThread

theorem SameRoll.sublist (h : SameRoll p q) :
    (q.threads.map (·.id)).Sublist (p.threads.map (·.id)) :=
  h.ids ▸ .refl _

theorem SameRoll.trans (h : SameRoll p q) (h' : SameRoll q r) : SameRoll p r :=
  ⟨h'.ids.trans h.ids, h'.lastThread.trans h.lastThread⟩

theorem sameRoll_along {R : Thread → Thread → Prop} (hR : ∀ t u, R t u → u.id = t.id)
    (h : Along R p q) (hl : q.lastThread = p.lastThread) : SameRoll p q := by
  obtain ⟨change, hq, hc⟩ := h
  refine ⟨?_, hl⟩
  rw [hq, List.map_map]
  exact List.map_congr_left fun t _ => hR t _ (hc t)

theorem sameRoll_updateThread {id : Nat} {change : Thread → Thread} (hc : ∀ t, (change t).id = t.id) :
    SameRoll p (p.updateThread id change) := by
  refine sameRoll_along (R := fun t u => u.id = t.id) (fun _ _ h => h) ⟨_, rfl, fun t => ?_⟩ rfl
  dsimp only
  split
  · exact hc t
  · rfl

-- Beyond the world and the threads nothing is written.
structure Within (p q : Project) : Prop where
  lastThread : q.lastThread = p.lastThread
  loads : q.loads = p.loads

-- The threads that are made of a queue, numbered on from what has been given out.
def launched (p : Project) (queue : List Spawn) : List Thread :=
  (queue.filter (p.world.isLive ·.owner)).mapIdx fun k s =>
    s.thread p.world.config.defaultLoopIterationsPerFrame (p.lastThread + k + 1)

-- What a project keeps of its threads is followed by one for each start whose instance is live.
structure Launches (p : Project) (queue : List Spawn) (q : Project) : Prop where
  threads : ∃ old, (old.map (·.id)).Sublist (p.threads.map (·.id)) ∧
    q.threads = old ++ (queue.filter (q.world.isLive ·.owner)).mapIdx fun k s =>
      s.thread q.world.config.defaultLoopIterationsPerFrame (p.lastThread + k + 1)
  lastThread : q.lastThread =
    p.lastThread + (queue.filter (q.world.isLive ·.owner)).length

theorem isLive_foldl_launch (queue : List Spawn) (p : Project) :
    (queue.foldl launch p).world.isLive = p.world.isLive := by
  obtain ⟨groups, hw⟩ := world_foldl_launch queue p
  rw [hw]
  rfl

theorem foldl_launch_eq_launched (queue : List Spawn) (p : Project) :
    (queue.foldl launch p).threads = p.threads ++ p.launched queue ∧
      (queue.foldl launch p).lastThread = p.lastThread + (p.launched queue).length := by
  induction queue generalizing p with
  | nil => exact ⟨(List.append_nil _).symm, rfl⟩
  | cons s queue ih =>
    obtain ⟨ht, hl⟩ := ih (p.launch s)
    have hlive : (p.launch s).world.isLive = p.world.isLive := isLive_foldl_launch [s] p
    rw [List.foldl_cons, ht, hl]
    unfold launched
    rw [hlive]
    by_cases hs : p.world.isLive s.owner
    · have hf : (s :: queue).filter (p.world.isLive ·.owner) =
          s :: queue.filter (p.world.isLive ·.owner) := List.filter_cons_of_pos hs
      rw [hf, launch_of_live hs, List.mapIdx_cons]
      have hnext : ∀ k, p.lastThread + 1 + k + 1 = p.lastThread + (k + 1) + 1 := fun k => by omega
      simp only [List.append_assoc, List.singleton_append, List.length_cons, List.length_mapIdx, hnext]
      exact ⟨rfl, by omega⟩
    · have hf : (s :: queue).filter (p.world.isLive ·.owner) =
          queue.filter (p.world.isLive ·.owner) := List.filter_cons_of_neg hs
      rw [hf, launch_of_gone hs]
      exact ⟨rfl, rfl⟩

theorem launches_launchAll (p : Project) : Launches p p.world.spawns p.launchAll := by
  obtain ⟨ht, hl⟩ := foldl_launch_eq_launched p.world.spawns
    (p.updateWorld fun w => { w with spawns := [] })
  have hlive : p.launchAll.world.isLive = p.world.isLive := isLive_foldl_launch _ _
  have hrate : p.launchAll.world.config = p.world.config := (enlists_launchAll p).sameTerms.config
  refine ⟨⟨p.threads, .refl _, ?_⟩, ?_⟩
  · rw [hlive, hrate]
    exact ht
  · rw [hlive]
    refine hl.trans ?_
    rw [launched, List.length_mapIdx]
    rfl

-- Threads may go before a queue is launched, as long as nothing else is queued and none is made.
theorem Launches.weaken (h : Launches q queue r)
    (hs : (q.threads.map (·.id)).Sublist (p.threads.map (·.id)))
    (hl : q.lastThread = p.lastThread) : Launches p queue r := by
  obtain ⟨⟨old, hold, ht⟩, hlast⟩ := h
  rw [hl] at ht hlast
  exact ⟨⟨old, hold.trans hs, ht⟩, hlast⟩

theorem launches_settle (hs : p.world.stopRequested = false) :
    Launches p p.world.spawns p.settle := by
  unfold settle
  rw [if_neg (by simp [hs])]
  dsimp only
  let doomed := (p.threads.filter fun t => p.world.deleted.contains t.owner).map (·.id)
  let ended := doomed.foldl endThread (p.updateWorld fun w => { w with deleted := [] })
  have hspawns : ended.world.spawns = p.world.spawns :=
    foldl_keeps (fun p : Project => p.world.spawns) spawns_endThread _ _
  have hthreads : (ended.threads.map (·.id)).Sublist (p.threads.map (·.id)) := by
    simp only [ended, threads_foldl_endThread]
    exact List.filter_sublist.map _
  have hlast : ended.lastThread = p.lastThread := lastThread_foldl_endThread _ _
  exact hspawns ▸ (launches_launchAll ended).weaken hthreads hlast

theorem SameRoll.launches (h : SameRoll p q) : Launches p [] q :=
  ⟨⟨q.threads, h.sublist, (List.append_nil _).symm⟩, h.lastThread⟩

section Operations

theorem sameRoll_poll (p : Project) : SameRoll p p.poll := by
  rw [poll_eq]
  exact ⟨rfl, rfl⟩

theorem sameRoll_loadAssets (p : Project) (loader : Loader) : SameRoll p (p.loadAssets loader) := by
  rw [loadAssets_eq, poll_eq]
  exact ⟨rfl, rfl⟩

theorem sameRoll_answerQuestion (p : Project) (text : String) :
    SameRoll p (p.answerQuestion text).2 := by
  unfold answerQuestion
  split
  · exact ⟨rfl, rfl⟩
  · exact .trans (q := p.updateWorld _) ⟨rfl, rfl⟩ (sameRoll_updateThread fun _ => rfl)

theorem within_register (p : Project) (c : ActorClass) (kind : ActorKind) :
    Within p (p.register c kind).2 := by
  obtain ⟨actors, instances, last, journal, hq⟩ := register_writes p c kind
  rw [hq]
  exact ⟨rfl, rfl⟩

theorem sameRoll_register (p : Project) (c : ActorClass) (kind : ActorKind) :
    SameRoll p (p.register c kind).2 :=
  ⟨congrArg _ (threads_register p c kind), (within_register p c kind).lastThread⟩

end Operations

end Project

namespace Operation

variable {p : Project}

def orders : Operation → List Order
  | .broadcast message => [.send (.message message)]
  | .greenFlag => [.send .greenFlag]
  | _ => []

-- What an operation starts from: both flags stop everything first.
def base : Operation → Project → Project
  | .greenFlag, p | .redStop, p => p.stopEverything
  | _, p => p

theorem launches_apply (hp : p.world.spawns = []) (op : Operation) :
    Launches (op.base p) (Order.queueAll op.orders (op.base p).world) (op.apply p) := by
  have hsend : ∀ {q : Project} (trigger : Trigger), q.world.spawns = [] →
      Launches q (Order.queueAll [.send trigger] q.world)
        (q.updateWorld fun w => (w.dispatch trigger).2).launchAll := fun {q} trigger hq => by
    have hspawns := spawns_queueAll [.send trigger] q.world
    rw [hq, List.nil_append] at hspawns
    rw [← hspawns]
    exact (launches_launchAll (q.updateWorld fun w => (w.dispatch trigger).2)).weaken (.refl _) rfl
  cases op with
  | broadcast message => exact hsend _ hp
  | greenFlag => exact hsend _ rfl
  | redStop => exact SameRoll.launches ⟨rfl, rfl⟩
  | register c kind => exact (sameRoll_register p c kind).launches
  | loadAssets loader => exact (sameRoll_loadAssets p loader).launches
  | poll => exact (sameRoll_poll p).launches
  | answer text => exact (sameRoll_answerQuestion p text).launches
  | _ => exact SameRoll.launches ⟨rfl, rfl⟩

end Operation

namespace Project

variable {p q : Project}

section Input

-- The keys since the last frame, then the clicks.
def inputs (w : World) : List Order :=
  w.keyboard.fresh.map (fun name => .send (.keyPressed name)) ++ w.pointer.clicks.map .click

def polled (p : Project) : Project := { p with frame := p.frame + 1 }.poll

-- A frame that has taken note of some of its input and has launched nothing yet.
def noting (p : Project) (orders : List Order) : Project :=
  { p.polled with world := orders.foldl (fun w o => o.apply w) { p.polled.world with
      keyboard := p.polled.world.keyboard.drained, pointer := p.polled.world.pointer.drained } }

theorem dispatch_pointer (w : World) (pointer : Pointer) (trigger : Trigger) :
    (World.dispatch { w with pointer := pointer } trigger).2 =
      { (w.dispatch trigger).2 with pointer := pointer } := by
  have hs : World.starts { w with pointer := pointer } trigger = w.starts trigger := rfl
  rw [World.dispatch, World.dispatch, hs]
  unfold World.queueGroup
  split <;> rfl

theorem foldl_send_pointer (names : List String) (w : World) (pointer : Pointer) :
    names.foldl (fun w name => (w.dispatch (.keyPressed name)).2) { w with pointer := pointer } =
      { names.foldl (fun w name => (w.dispatch (.keyPressed name)).2) w with
        pointer := pointer } := by
  induction names generalizing w with
  | nil => rfl
  | cons name names ih =>
    rw [List.foldl_cons, List.foldl_cons, dispatch_pointer]
    exact ih _

theorem prepare_eq_launchAll (p : Project) :
    p.prepare = (p.noting (inputs p.polled.world)).launchAll := by
  have hkeys := foldl_send_pointer p.polled.world.keyboard.fresh
    { p.polled.world with keyboard := p.polled.world.keyboard.drained }
    p.polled.world.pointer.drained
  rw [noting, inputs, List.foldl_append, List.foldl_map, List.foldl_map]
  exact congrArg (fun w => Project.launchAll { p.polled with
    world := p.polled.world.pointer.clicks.foldl click w }) hkeys.symm

theorem launches_prepare (hp : p.world.spawns = []) :
    Launches p (Order.queueAll (inputs p.polled.world) (p.noting []).world) p.prepare := by
  have hpoll : SameRoll { p with frame := p.frame + 1 } p.polled := sameRoll_poll _
  have hnone : (p.noting []).world.spawns = [] := by
    rw [noting, polled, poll_eq]
    exact hp
  have hspawns : (p.noting (inputs p.polled.world)).world.spawns =
      Order.queueAll (inputs p.polled.world) (p.noting []).world := by
    refine (spawns_queueAll (inputs p.polled.world) (p.noting []).world).trans ?_
    rw [hnone, List.nil_append]
  rw [prepare_eq_launchAll, ← hspawns]
  exact (launches_launchAll _).weaken hpoll.sublist hpoll.lastThread

end Input

section Turns

variable {laps id : Nat} {resumed : Bool}

theorem within_begin (p : Project) (h : Handle) (wait : Wait) : Within p (p.begin h wait).2 := by
  cases wait with
  | yield =>
    simp only [begin]
    split
    · exact ⟨rfl, rfl⟩
    · split <;> exact ⟨rfl, rfl⟩
  | seconds time =>
    simp only [begin]
    split <;> exact ⟨rfl, rfl⟩
  | playUntilDone name =>
    simp only [begin]
    split <;> exact ⟨rfl, rfl⟩
  | delete =>
    simp only [begin]
    split <;> exact ⟨rfl, rfl⟩
  | _ => exact ⟨rfl, rfl⟩

theorem within_answer (p : Project) (c : Call) : Within p (p.answer c).2 := by
  cases c with
  | request h r =>
    simp only [answer]
    split <;> exact ⟨rfl, rfl⟩
  | start h wait =>
    have hb := within_begin p h wait
    simp only [answer]
    split <;> rename_i hw <;> rw [hw] at hb <;> exact ⟨hb.lastThread, hb.loads⟩
  | _ => exact ⟨rfl, rfl⟩

theorem within_perform (p : Project) (e : Exchange) : Within p (p.perform e) := by
  cases e with
  | call c => exact within_answer p c
  | pause h wait =>
    have hb := within_begin p h wait
    simp only [perform]
    split <;> rename_i hw <;> rw [hw] at hb <;> exact ⟨hb.lastThread, hb.loads⟩

theorem sameRoll_perform (p : Project) (e : Exchange) : SameRoll p (p.perform e) := by
  refine sameRoll_along (R := Thread.Stays) (fun _ _ h => h.id) ?_ (within_perform p e).lastThread
  cases e with
  | call c => exact stays_answer c p
  | pause h wait =>
    have hb : Along Thread.Stays p (p.begin h wait).2 :=
      (tends_begin p h wait).imp fun _ _ h => h.toStays
    simp only [perform]
    split <;> rename_i hw <;> rw [hw] at hb
    · exact hb
    · exact hb.trans .trans (.updateMailbox .refl fun _ _ => ⟨⟨rfl, rfl, rfl, rfl, rfl⟩, rfl, rfl⟩)

theorem sameRoll_performAll (p : Project) (exchanges : List Exchange) :
    SameRoll p (p.performAll exchanges) := by
  induction exchanges generalizing p with
  | nil => exact ⟨rfl, rfl⟩
  | cons e exchanges ih => exact (sameRoll_perform p e).trans (ih _)

theorem sameRoll_readiness (p : Project) (id : Nat) : SameRoll p (p.readiness id).2 := by
  obtain ⟨change, hr, hc⟩ := readiness_eq_updateThread p id
  rw [hr]
  exact sameRoll_updateThread fun t => (hc t).1.id

theorem sameRoll_turnStart (p : Project) (id : Nat) : SameRoll p (p.turnStart id) := by
  unfold turnStart
  cases (p.readiness id).2.thread? id with
  | none => exact ⟨rfl, rfl⟩
  | some t =>
    refine (sameRoll_readiness p id).trans ?_
    have hs : SameRoll (p.readiness id).2
        ((p.readiness id).2.updateThread t.id fun t => { t with state := .runnable }) :=
      sameRoll_updateThread fun _ => rfl
    simp only [Option.elim_some, woken, wake]
    split
    · exact hs
    · dsimp only
      split
      · exact hs.trans (sameRoll_updateThread fun _ => rfl)
      · exact hs

theorem ids_endThread (p : Project) (id : Nat) :
    ((p.endThread id).threads.map (·.id)).Sublist (p.threads.map (·.id)) := by
  rw [threads_endThread]
  exact List.filter_sublist.map _

theorem ids_leave (p : Project) (t : Thread) (r : Resumption) :
    ((p.leave t r).threads.map (·.id)).Sublist (p.threads.map (·.id)) := by
  cases r with
  | finished => exact ids_endThread p t.id
  | failed failure => exact ids_endThread (p.reportFailure t failure) t.id
  | suspended suspension body =>
    simp only [leave]
    split
    · exact ids_endThread p t.id
    · refine SameRoll.sublist (sameRoll_updateThread fun _ => ?_)
      rfl

theorem spawns_leave (p : Project) (t : Thread) (r : Resumption) :
    (p.leave t r).world.spawns = p.world.spawns := by
  obtain ⟨groups, questions, errors, hw⟩ := world_leave p t r
  rw [hw]

-- What the turn of a thread launches: the starts that it queued, unless it stopped everything.
structure TurnDelivers (p : Project) (queue : List Spawn) (last q : Project) : Prop where
  stopped : last.world.stopRequested = true → q.threads = []
  launches : last.world.stopRequested = false → Launches p queue q

theorem delivers_of_turn? (hp : p.world.Quiet) (h : p.turn? laps id = some (resumed, q)) :
    TurnDelivers p (gather Exchange.queue (p.turnExchanges laps id) (p.turnStart id))
      ((p.turnStart id).performAll (p.turnExchanges laps id)) q := by
  have hread := sameRoll_readiness p id
  have hnone : ∀ {last : Project}, last.world = p.world → last.world.stopRequested = true →
      q.threads = [] := fun hw hs => by
    rw [hw, hp.stopRequested] at hs
    cases hs
  cases ran_of_turn? h with
  | passed hd =>
    rw [turnExchanges_of_not_due hd]
    exact ⟨hnone (world_turnStart p id), fun _ => hread.launches⟩
  | orphaned hd =>
    rw [turnExchanges_of_not_due (by simp [hd])]
    refine ⟨hnone (world_turnStart p id), fun _ => ⟨⟨_, ?_, (List.append_nil _).symm⟩, ?_⟩⟩
    · exact hread.ids ▸ ids_endThread _ id
    · exact (lastThread_endThread _ id).trans hread.lastThread
  | resumed ht he =>
    rename_i t r
    let last := (p.turnStart id).performAll (p.turnExchanges laps id)
    have hroll : SameRoll p last := (sameRoll_turnStart p id).trans (sameRoll_performAll _ _)
    have hstop := stopRequested_leave last t r
    refine ⟨fun hs => ?_, fun hs => ?_⟩
    · rw [settle, if_pos (hstop.trans hs)]
      rfl
    · have hqueue : (last.leave t r).world.spawns =
          gather Exchange.queue (p.turnExchanges laps id) (p.turnStart id) := by
        rw [spawns_leave, spawns_performAll, world_turnStart, hp.spawns, List.nil_append]
      rw [← hqueue]
      refine (launches_settle (hstop.trans hs)).weaken ?_ ?_
      · exact hroll.ids ▸ ids_leave last t r
      · exact (lastThread_leave last t r).trans hroll.lastThread

end Turns

end Project

namespace World

variable {w : World}

theorem member_of_spriteAt? {place : Point} {owner : Nat} (h : w.spriteAt? place = some owner) :
    ∃ i a, w.member owner = .ok (i, a) := by
  obtain ⟨b, -, hb⟩ := List.exists_of_findSome?_eq_some h
  have hshown := List.find?_some hb
  cases hm : w.member owner with
  | ok found => exact ⟨found.1, found.2, rfl⟩
  | error e =>
    have hbox : w.box? owner = none := by
      unfold box?
      rw [hm]
    unfold shownBox? at hshown
    rw [hbox] at hshown
    split at hshown
    · split at hshown <;> cases hshown
    · cases hshown

-- How orders reach those they are meant for.
structure Dispatches (w : World) : Prop where
  addressed : w.Addressed
  queues : ∀ o : Order, w.Queues (o.starts w) (o.apply w)
  owners : ∀ (o : Order), ∀ s ∈ o.starts w,
    (o.apply w).Owns s.owner s.actor ∧ s.owner ≤ (o.apply w).lastInstance
  cloned : ∀ {source : CloneSource} {id : Nat} {w' : World}, w.createClone source = .ok (id, w') →
    ∃ i a, w'.member id = .ok (i, a) ∧
      Enumerates (· < ·) (StartOf a id .startAsClone) ((Order.clone source).starts w)
  clicked : ∀ {place : Point} {owner : Nat}, w.spriteAt? place = some owner →
    ∃ i a, w.member owner = .ok (i, a) ∧
      Enumerates (· < ·) (StartOf a owner .spriteClicked) ((Order.click place).starts w)

theorem Dispatches.of_registered (hw : w.Registered)
    (hc : ∀ a ∈ w.actors, ∃ c : ActorClass, c.name = a.name ∧ c.kind = a.kind ∧
      ∀ trigger, a.handlersFor trigger = c.declared trigger) : w.Dispatches where
  addressed := .of_registered hw hc
  queues o := o.queues w
  owners o _ hs := hw.owner_order o hs
  cloned {source id w'} h := by
    have hw' := hw.order (.clone source)
    simp only [Order.apply, h] at hw'
    simp only [Order.starts, h]
    obtain ⟨parent, i, a, -, -, rfl, -, rfl⟩ := createClone_eq_ok h
    have hmade : i.cloned (w.lastInstance + 1) ∈
        ((w.place i a).dispatchTo .startAsClone (w.lastInstance + 1)).2.instances := by
      rw [dispatchTo, instances_queueGroup]
      exact List.mem_append_right _ (List.mem_singleton_self _)
    obtain ⟨b, -, hm, -⟩ := hw'.member_of_mem hmade
    exact ⟨_, b, hm, enumerates_startsOf _ hm⟩
  clicked {place owner} h := by
    obtain ⟨i, a, hm⟩ := member_of_spriteAt? h
    refine ⟨i, a, hm, ?_⟩
    simp only [Order.starts, h]
    exact enumerates_startsOf _ hm

end World

namespace Project

variable {p q r : Project}

-- Identities are given out upwards, and none twice.
structure Issued (p q : Project) : Prop where
  threads : ∀ t ∈ p.threads, t.id ≤ q.lastThread ∧ t.group ≤ q.world.lastGroup
  spawns : ∀ s ∈ p.world.spawns, s.group ≤ q.world.lastGroup
  groups : ∀ g ∈ p.world.groups, g.id ≤ q.world.lastGroup
  instances : ∀ i ∈ q.world.instances, i.id ≤ p.world.lastInstance →
    ∃ j ∈ p.world.instances, j.id = i.id ∧ j.actor = i.actor

theorem Issued.of_changes {κ : Conduct} (hp : p.Ranked) (ha : p.Accounted)
    (h : Changes (.under κ) p q) : p.Issued q := by
  have hgroup : ∀ {g : Nat}, 0 < p.members g → g ≤ q.world.lastGroup := fun {g} hg => by
    obtain ⟨e, he, rfl⟩ := (ha.present g).2 hg
    exact Nat.le_trans (ha.allocated e he) h.lastGroup_le
  refine ⟨fun t ht => ⟨?_, hgroup (members_pos_of_thread ht)⟩,
    fun s hs => hgroup (members_pos_of_spawn hs), fun g hg => ?_, fun i hi hle => ?_⟩
  · exact Nat.le_trans (hp.bounded t ht) h.lastThread_le
  · exact Nat.le_trans (ha.allocated g hg) h.lastGroup_le
  · obtain ⟨j, hj, hid, hact, -⟩ := h.precedes.survivors i hi hle
    exact ⟨j, hj, hid, hact⟩

end Project

namespace Moment

variable {κ : Conduct} {m m' : Moment} {p q : Project}

-- What any handlers may do covers what those of one conduct do.
theorem Start.any (h : Start κ p) : Start .any p := by
  cases h with
  | new h bus hl => exact .new h bus fun _ _ _ => trivial
  | script h hl hj => exact .script h (fun _ _ _ => trivial) fun _ _ => trivial

theorem Step.any (h : Step κ m m') : Step .any m m' := by
  cases h with
  | operate h =>
    refine .operate ?_
    rename_i p op
    cases op with
    | register c kind => exact fun _ _ _ => trivial
    | _ => trivial
  | frame => exact .frame
  | turn h => exact .turn h

theorem Reachable.any (h : Reachable κ m) : Reachable .any m :=
  let ⟨p, hp, hm⟩ := h
  ⟨p, hp.any, Relation.ReflTransGen.mono (fun _ _ hs => hs.any) _ _ hm⟩

-- What becomes threads in each step, and what is queued in the midst of a turn.
structure Recruits (m : Moment) : Prop where
  operation : m.turns = [] → ∀ op : Operation,
    Changes (.under .any) m.project (op.base m.project) ∧
      Launches (op.base m.project) (Order.queueAll op.orders (op.base m.project).world)
        (op.apply m.project)
  frame : m.turns = [] →
    Launches m.project
      (Order.queueAll (inputs m.project.polled.world) (m.project.noting []).world) m.project.prepare
  noting : ∀ orders : List Order, Changes (.under .any) m.project (m.project.noting orders)
  midst : ∀ (id : Nat) (exchanges : List Exchange),
    Changes (.under .any) m.project ((m.project.turnStart id).performAll exchanges)
  turn : ∀ {laps id : Nat} {resumed : Bool} {q : Project},
    m.project.turn? laps id = some (resumed, q) →
      TurnDelivers m.project
        (gather Exchange.queue (m.project.turnExchanges laps id) (m.project.turnStart id))
        ((m.project.turnStart id).performAll (m.project.turnExchanges laps id)) q

theorem changes_turnStart (p : Project) (id : Nat) :
    Changes (.under .any) p (p.turnStart id) := by
  unfold turnStart
  cases (p.readiness id).2.thread? id with
  | none => exact .refl
  | some t => exact (changes_readiness trivial).trans (changes_woken trivial)

theorem changes_base (p : Project) (op : Operation) : Changes (.under .any) p (op.base p) := by
  cases op with
  | greenFlag | redStop => exact changes_stopEverything (fun _ => trivial) p
  | _ => exact .refl

theorem changes_order (p : Project) (o : Order) :
    Changes (.under .any) p (p.updateWorld o.apply) := by
  cases o with
  | send trigger => exact .single (.dispatched trigger)
  | click place => exact changes_click p place
  | clone source =>
    simp only [updateWorld, Order.apply]
    cases hc : p.world.createClone source with
    | error e => exact .refl
    | ok made =>
      obtain ⟨id, w'⟩ := made
      obtain ⟨parent, i, a, hr, hm, -, -, rfl⟩ := World.createClone_eq_ok hc
      exact .tail (.single (.placed hr hm)) (.dispatchedTo _ _)

theorem changes_noting (p : Project) (orders : List Order) :
    Changes (.under .any) p (p.noting orders) := by
  have hnone : Changes (.under .any) p (p.noting []) := by
    have hcounted : Changes (.under .any) p { p with frame := p.frame + 1 } :=
      Changes.aside ⟨rfl, rfl, rfl, .refl _⟩
    have hpoll : Changes (.under .any) p p.polled := hcounted.trans (changes_poll trivial _)
    exact hpoll.tail (.aside
      ⟨rfl, rfl, rfl, rfl, rfl, rfl, rfl, rfl, rfl, rfl, rfl, rfl, rfl, rfl⟩)
  have hfold : ∀ q : Project, Changes (.under .any) q
      { q with world := orders.foldl (fun w o => o.apply w) q.world } := by
    induction orders with
    | nil => exact fun _ => .refl
    | cons o orders ih => exact fun q => (changes_order q o).trans (ih _)
  exact hnone.trans (hfold _)

theorem Reachable.recruits (hm : Reachable κ m) : m.Recruits where
  operation _ op := ⟨changes_base m.project op, op.launches_apply hm.quiet.spawns⟩
  frame _ := launches_prepare hm.quiet.spawns
  noting orders := changes_noting m.project orders
  midst id exchanges := (changes_turnStart m.project id).trans (changes_performAll _ exchanges)
  turn h := delivers_of_turn? hm.quiet h

-- A trigger reaches each handler of each live instance once, and nothing else makes a thread.
theorem Reachable.dispatched_once (hm : Reachable κ m) :
    m.Recruits ∧ (∀ {p : Project}, Start κ p → p.threads = []) ∧
      ∀ {q : Project}, Changes (.under .any) m.project q →
        q.world.Dispatches ∧ Closed .any q ∧
          ∀ {r : Project}, Changes (.under .any) q r → q.Issued r := by
  refine ⟨hm.recruits, fun h => h.empty, fun hq => ⟨?_, hm.any.closed hq, fun hr => ?_⟩⟩
  · exact .of_registered (hm.any.registered_indexed hq).1 fun a ha => hm.any.declared_of_changes hq ha
  · exact .of_changes (hm.any.obeys_of_changes hq).toRanked (hm.any.accounted hq) hr

theorem haunted_dispatched :
    let p := (haunted "boo" fun _ => .finish).prepare
    let q := p.turned 1
    let queue := gather Exchange.queue (p.turnExchanges 1 1) (p.turnStart 1)
    queue.map Spawn.post = [(2, 0, 2, "vanish")] ∧ q.threads.map (·.id) = [2] ∧
      Launches p queue q ∧ q.world.Dispatches := by
  intro p q queue
  have hm : Reachable .any ⟨p, [1]⟩ :=
    (reachable_haunted (fun _ => trivial) (fun _ _ _ => trivial) "boo").step .frame
  have hturn : p.turn? 1 1 = some (true, q) := Project.turn?_turned rfl
  have hq : Changes (.under .any) p q := hm.changes_of_step (.turn hturn)
  have h := Reachable.dispatched_once hm
  have hlaunches : Launches p queue q := (h.1.turn hturn).launches (by decide +kernel)
  exact ⟨by decide +kernel, by decide +kernel, hlaunches, (h.2.2 hq).1⟩

end Moment

end SpriteStage

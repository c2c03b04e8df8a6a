import SpriteStage.Proofs.Requesting

namespace SpriteStage

open Project

namespace World

variable {w w' w'' : World}

-- What a thread cannot write, whatever it does.
structure SameFixture (w w' : World) : Prop where
  config : w'.config = w.config
  importLoops : w'.importLoops = w.importLoops
  keyboard : w'.keyboard = w.keyboard
  pointer : w'.pointer = w.pointer

theorem SameFixture.refl (w : World) : w.SameFixture w := ⟨rfl, rfl, rfl, rfl⟩

theorem SameFixture.trans (h : w.SameFixture w') (h' : w'.SameFixture w'') : w.SameFixture w'' :=
  ⟨h'.config.trans h.config, h'.importLoops.trans h.importLoops, h'.keyboard.trans h.keyboard,
    h'.pointer.trans h.pointer⟩

theorem sameFixture_queueGroup (w : World) (starts : List Start) :
    w.SameFixture (w.queueGroup starts).2 := by
  obtain ⟨lastGroup, groups, spawns, hw, -⟩ := world_queueGroup w starts
  rw [hw]
  exact ⟨rfl, rfl, rfl, rfl⟩

theorem sameFixture_deleteInstance (w : World) (id : Nat) :
    w.SameFixture (w.deleteInstance id).2 := by
  rcases w.deleteInstance_cases id with he | ⟨i, -, -, he⟩
  · rw [he]
    exact .refl w
  · rw [he]
    exact ⟨rfl, rfl, rfl, rfl⟩

theorem sameFixture_answer {id : Nat} {r : Request} {reply : r.Reply}
    (h : w.answer id r = .ok (reply, w')) : w.SameFixture w' := by
  cases grants_of_answer h with
  | sends => exact sameFixture_queueGroup w _
  | clones hr hm =>
    rename_i source parent i a
    have hp : w.SameFixture (w.place i a) := ⟨rfl, rfl, rfl, rfl⟩
    exact hp.trans (sameFixture_queueGroup _ _)
  | _ => exact ⟨rfl, rfl, rfl, rfl⟩

end World

namespace Project

open World

variable {p q : Project} {laps id : Nat}

theorem sameFixture_begin (p : Project) (h : Handle) (wait : Wait) :
    p.world.SameFixture (p.begin h wait).2.world := by
  have ho := p.opens_begin h wait
  generalize (p.begin h wait).2.world = w at ho
  cases ho with
  | sends => exact sameFixture_queueGroup _ _
  | deletes => exact sameFixture_deleteInstance _ _
  | _ => exact ⟨rfl, rfl, rfl, rfl⟩

theorem sameFixture_call (p : Project) (c : Call) : p.world.SameFixture (p.answer c).2.world := by
  cases c with
  | request h r =>
    rw [world_request]
    split
    · rename_i ha
      exact sameFixture_answer ha
    · exact .refl _
  | start h wait =>
    rw [world_start]
    exact sameFixture_begin p h wait
  | _ => exact ⟨rfl, rfl, rfl, rfl⟩

theorem sameFixture_perform (p : Project) (e : Exchange) :
    p.world.SameFixture (p.perform e).world := by
  cases e with
  | call c => exact sameFixture_call p c
  | pause h wait =>
    rw [world_pause]
    exact sameFixture_begin p h wait

theorem sameFixture_stopEverything (p : Project) :
    p.world.SameFixture p.stopEverything.world := by
  have hremoved : p.world.SameFixture p.world.removeClones :=
    foldl_carries .refl .trans (fun w (i : Instance) => w.sameFixture_deleteInstance i.id) _ _
  exact hremoved.trans ⟨rfl, rfl, rfl, rfl⟩

theorem sameFixture_settle (p : Project) : p.world.SameFixture p.settle.world := by
  rcases settle_cases p with hstop | ⟨groups, questions, hw⟩
  · rw [hstop]
    exact sameFixture_stopEverything p
  · rw [hw]
    exact ⟨rfl, rfl, rfl, rfl⟩

theorem sameFixture_leave (p : Project) (t : Thread) (r : Resumption) :
    p.world.SameFixture (p.leave t r).world := by
  obtain ⟨groups, questions, errors, hw⟩ := world_leave p t r
  rw [hw]
  exact ⟨rfl, rfl, rfl, rfl⟩

theorem sameFixture_turn {resumed : Bool} (h : p.turn? laps id = some (resumed, q)) :
    p.world.SameFixture q.world := by
  cases ran_of_turn? h with
  | passed hd =>
    rw [world_readiness]
    exact .refl _
  | orphaned hd =>
    obtain ⟨groups, questions, hw, -⟩ := world_endThread (p.readiness id).2 id
    rw [hw, world_readiness]
    exact ⟨rfl, rfl, rfl, rfl⟩
  | resumed ht he =>
    have hran : (p.turnStart id).world.SameFixture
        ((p.turnStart id).performAll (p.turnExchanges laps id)).world :=
      foldl_carries (r := fun p q : Project => p.world.SameFixture q.world) (fun _ => .refl _)
        .trans sameFixture_perform _ _
    rw [world_turnStart] at hran
    exact (hran.trans (sameFixture_leave _ _ _)).trans (sameFixture_settle _)

theorem sameFixture_launchAll (p : Project) : p.world.SameFixture p.launchAll.world := by
  obtain ⟨groups, hw⟩ := world_launchAll p
  rw [hw]
  exact ⟨rfl, rfl, rfl, rfl⟩

theorem sameFixture_dispatched (p : Project) (trigger : Trigger) : p.world.SameFixture
    (p.updateWorld fun w => (w.dispatch trigger).2).launchAll.world :=
  (sameFixture_queueGroup p.world (p.world.starts trigger)).trans
    (sameFixture_launchAll (p.updateWorld fun w => (w.dispatch trigger).2))

theorem sameFixture_register (p : Project) (c : ActorClass) (kind : ActorKind) :
    p.world.SameFixture (p.register c kind).2.world := by
  obtain ⟨actors, instances, last, journal, hq⟩ := register_writes p c kind
  rw [hq]
  exact ⟨rfl, rfl, rfl, rfl⟩

theorem sameFixture_poll (p : Project) : p.world.SameFixture p.poll.world := by
  rw [poll_eq]
  exact ⟨rfl, rfl, rfl, rfl⟩

theorem new_eq_ok {config : Config} {p : Project} (h : Project.new config = .ok p) :
    p = { world := { config := config } } := by
  unfold Project.new at h
  cases hc : config.check with
  | error e =>
    rw [hc] at h
    cases h
  | ok _ =>
    rw [hc] at h
    cases h
    rfl

section Devices

theorem sameFixture_order (o : Order) (w : World) : w.SameFixture (o.apply w) := by
  cases o with
  | send trigger => exact sameFixture_queueGroup w _
  | click place =>
    simp only [Order.apply, click]
    split <;> exact sameFixture_queueGroup w _
  | clone source =>
    simp only [Order.apply]
    cases hc : w.createClone source with
    | error e => exact .refl w
    | ok made =>
      obtain ⟨id, w'⟩ := made
      obtain ⟨parent, i, a, -, -, -, -, rfl⟩ := createClone_eq_ok hc
      have hp : w.SameFixture (w.place i a) := ⟨rfl, rfl, rfl, rfl⟩
      exact hp.trans (sameFixture_queueGroup _ _)

-- A frame takes what has come in on the devices, and writes on nothing else of that.
theorem sameFixture_prepare (p : Project) : SameFixture
    { p.world with keyboard := p.world.keyboard.drained, pointer := p.world.pointer.drained }
    p.prepare.world := by
  have hpoll : p.world.SameFixture p.polled.world :=
    sameFixture_poll { p with frame := p.frame + 1 }
  have horders : (p.noting []).world.SameFixture (p.noting (inputs p.polled.world)).world :=
    foldl_carries .refl .trans (fun w o => sameFixture_order o w) _ _
  have hdrained : SameFixture
      { p.world with keyboard := p.world.keyboard.drained, pointer := p.world.pointer.drained }
      (p.noting []).world :=
    ⟨hpoll.config, hpoll.importLoops, congrArg Keyboard.drained hpoll.keyboard,
      congrArg Pointer.drained hpoll.pointer⟩
  rw [prepare_eq_launchAll]
  exact (hdrained.trans horders).trans (sameFixture_launchAll _)

end Devices

end Project

-- The operations by which a host writes on them.
def Operation.fixes : Operation → Bool
  | .press _ | .release _ | .click _ | .limitLoops _ | .countLoop => true
  | _ => false

theorem Operation.sameFixture {op : Operation} (ho : op.fixes = false) (p : Project) :
    p.world.SameFixture (op.apply p).world := by
  cases op with
  | register c kind => exact sameFixture_register p c kind
  | broadcast message => exact sameFixture_dispatched p (.message message)
  | greenFlag =>
    exact (sameFixture_stopEverything p).trans (sameFixture_dispatched p.stopEverything .greenFlag)
  | redStop => exact sameFixture_stopEverything p
  | answer text =>
    simp only [apply, answerQuestion]
    split <;> exact ⟨rfl, rfl, rfl, rfl⟩
  | loadAssets loader =>
    simp only [apply, loadAssets_eq, poll_eq]
    exact ⟨rfl, rfl, rfl, rfl⟩
  | poll => exact sameFixture_poll p
  | press | release | click | limitLoops | countLoop => cases ho
  | _ => exact ⟨rfl, rfl, rfl, rfl⟩

namespace Moment

variable {κ : Conduct} {m n : Moment} {e : Event} {p : Project}

-- What happens with an event, as far as it can happen.
inductive Does : Moment → Event → Moment → Prop where
  | operate {p : Project} (op : Operation) : Does ⟨p, []⟩ (.operate op) ⟨op.apply p, []⟩
  | frame {p : Project} : Does ⟨p, []⟩ .frame ⟨p.prepare, p.prepare.threads.map (·.id)⟩
  | turn {laps id : Nat} {ids : List Nat} {resumed : Bool} {p q : Project}
      (h : p.turn? laps id = some (resumed, q)) : Does ⟨p, id :: ids⟩ (.turn laps) ⟨q, ids⟩

theorem does_of_act? (h : m.act? e = some n) : Does m e n := by
  obtain ⟨p, ids⟩ := m
  cases e with
  | operate op =>
    cases ids with
    | cons id ids => cases h
    | nil =>
      cases h
      exact .operate op
  | frame =>
    cases ids with
    | cons id ids => cases h
    | nil =>
      cases h
      exact .frame
  | turn laps =>
    cases ids with
    | nil => cases h
    | cons id ids =>
      obtain ⟨⟨resumed, q⟩, hq, rfl⟩ := Option.map_eq_some_iff.1 h
      exact .turn hq

theorem Reachable.acts? {events : List Event} (hm : Reachable .any m)
    (h : m.acts? events = some n) : Reachable .any n := by
  induction events generalizing m with
  | nil =>
    cases h
    exact hm
  | cons e events ih =>
    obtain ⟨mid, hmid, hn⟩ := Option.bind_eq_some_iff.1 h
    refine ih (hm.step ?_) hn
    cases does_of_act? hmid with
    | operate op =>
      refine .operate ?_
      cases op with
      | register c kind => exact fun _ _ _ => trivial
      | _ => trivial
    | frame => exact .frame
    | turn ht => exact .turn ht

end Moment

end SpriteStage

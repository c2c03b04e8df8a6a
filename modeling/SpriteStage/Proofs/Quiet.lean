import SpriteStage.Proofs.Ownership

namespace SpriteStage

open Project

structure World.Quiet (w : World) : Prop where
  spawns : w.spawns = []
  deleted : w.deleted = []
  stopRequested : w.stopRequested = false

theorem World.Quiet.enlists {w w' : World} (hw : w.Quiet) (h : Enlists w w')
    (hs : w'.spawns = []) : w'.Quiet := by
  obtain ⟨_, _, _, _, _, rfl⟩ := h
  exact ⟨hs, hw.deleted, hw.stopRequested⟩

namespace Project

variable {p q : Project}

theorem spawns_launchAll (p : Project) : p.launchAll.world.spawns = [] := by
  obtain ⟨groups, hw⟩ := world_launchAll p
  rw [hw]

theorem quiet_stopEverything (p : Project) : p.stopEverything.world.Quiet := ⟨rfl, rfl, rfl⟩

theorem quiet_settle (p : Project) : p.settle.world.Quiet := by
  by_cases hs : p.world.stopRequested
  · unfold settle
    rw [if_pos hs]
    exact quiet_stopEverything p
  · have hs : p.world.stopRequested = false := by simpa using hs
    obtain ⟨groups, questions, hw⟩ := world_settle hs
    rw [hw]
    exact ⟨rfl, rfl, hs⟩

theorem quiet_dispatched (hp : p.world.Quiet) (trigger : Trigger) :
    (p.updateWorld fun w => (w.dispatch trigger).2).launchAll.world.Quiet :=
  hp.enlists ((enlists_queueGroup p.world _).trans (enlists_launchAll _)) (spawns_launchAll _)

theorem quiet_register (hp : p.world.Quiet) (c : ActorClass) (kind : ActorKind) :
    (p.register c kind).2.world.Quiet := by
  obtain ⟨actors, instances, last, journal, hq⟩ := register_writes p c kind
  rw [hq]
  exact ⟨hp.spawns, hp.deleted, hp.stopRequested⟩

theorem quiet_poll (hp : p.world.Quiet) : p.poll.world.Quiet := by
  rw [poll_eq]
  exact ⟨hp.spawns, hp.deleted, hp.stopRequested⟩

theorem quiet_loadAssets (hp : p.world.Quiet) (loader : Loader) :
    (p.loadAssets loader).world.Quiet := by
  rw [loadAssets_eq]
  exact quiet_poll ⟨hp.spawns, hp.deleted, hp.stopRequested⟩

theorem quiet_prepare (hp : p.world.Quiet) : p.prepare.world.Quiet := by
  have hpolled : ({ p with frame := p.frame + 1 } : Project).poll.world.Quiet :=
    quiet_poll (p := { p with frame := p.frame + 1 }) hp
  exact hpolled.enlists (enlists_launchInput _) (spawns_launchAll _)

theorem quiet_apply (hp : p.world.Quiet) (op : Operation) : (op.apply p).world.Quiet := by
  cases op with
  | register c kind => exact quiet_register hp c kind
  | broadcast message => exact quiet_dispatched hp (.message message)
  | greenFlag => exact quiet_dispatched (quiet_stopEverything p) .greenFlag
  | redStop => exact quiet_stopEverything p
  | answer text =>
    simp only [Operation.apply, answerQuestion]
    split
    · exact hp
    · exact ⟨hp.spawns, hp.deleted, hp.stopRequested⟩
  | loadAssets loader => exact quiet_loadAssets hp loader
  | poll => exact quiet_poll hp
  | countLoop => exact ⟨hp.spawns, hp.deleted, hp.stopRequested⟩
  | _ => exact ⟨hp.spawns, hp.deleted, hp.stopRequested⟩

theorem quiet_turn {κ : Conduct} {t : Thread} {resumed : Bool} (hp : p.world.Quiet)
    (h : Turn κ p t resumed q) : q.world.Quiet := by
  have hr : (p.readiness t.id).2.world.Quiet := by
    rw [world_readiness]
    exact hp
  cases h with
  | waits _ => exact hr
  | orphaned _ =>
    obtain ⟨groups, questions, hw, -⟩ := world_endThread (p.readiness t.id).2 t.id
    rw [hw]
    exact ⟨hr.spawns, hr.deleted, hr.stopRequested⟩
  | resumes _ _ _ hs =>
    cases hs with
    | mk hd hc => exact quiet_settle _

end Project

namespace Moment

variable {κ : Conduct} {m : Moment}

theorem Step.quiet {m' : Moment} (h : Step κ m m') (ho : m.project.Obeys κ)
    (hm : m.project.world.Quiet) : m'.project.world.Quiet := by
  cases h with
  | operate h => exact quiet_apply hm _
  | frame => exact quiet_prepare hm
  | turn h =>
    rename_i laps id ids resumed p q
    cases ht : p.thread? id with
    | none =>
      rw [turn?_of_gone ht] at h
      cases h
      exact hm
    | some t =>
      obtain rfl := id_of_thread? ht
      exact quiet_turn hm (turn_of_turn? ho (List.mem_of_find?_eq_some ht) h)

theorem Start.quiet {p : Project} (h : Start κ p) : p.world.Quiet := by
  have hb : ∀ {p : Project}, p.Blank → p.world.Quiet := fun hp =>
    ⟨hp.world.spawns, hp.world.deleted, hp.world.stopRequested⟩
  cases h with
  | new h bus hl =>
    have hq := hb (blank_of_new h)
    exact ⟨hq.spawns, hq.deleted, hq.stopRequested⟩
  | script h hl hj =>
    exact load_invariant (I := fun p => p.world.Quiet) (fun p _ hp _ => hb hp)
      (fun p c kind _ hp => quiet_register hp c kind) h

theorem Reachable.quiet (h : Reachable κ m) : m.project.world.Quiet :=
  h.induction (motive := fun m => m.project.world.Quiet) (fun h => h.quiet) fun hm hs ih =>
    hs.quiet hm.obeys ih

theorem Reachable.owns (h : Reachable κ m) {t : Thread} (ht : t ∈ m.project.threads) :
    m.project.world.Owns t.owner t.actor := by
  refine ((h.owned .refl).threads t ht).resolve_left ?_
  rw [h.quiet.deleted]
  exact List.not_mem_nil

end Moment

end SpriteStage

import SpriteStage.Proofs.Kinship
import SpriteStage.Proofs.Runaway

namespace SpriteStage

open Project

-- All that requests make of the figure of an instance of an actor.
inductive Actor.Alters (a : Actor) : (Figure → Figure) → Prop where
  | sets (name : String) (value : Value) : a.Alters (·.setAttribute name value)
  | moves {motion : Motion} (hs : a.isSprite = true) (hc : motion.check = .ok ()) :
      a.Alters motion.apply
  | wears {name : String} {index : Nat} (hi : a.costumeIndex? name = some index) :
      a.Alters fun f => { f with look := { f.look with costume := index } }

namespace World

variable {P : Actor → Figure → Prop} {w w' : World}

-- All that becomes of instances as long as no class is registered.
inductive Recast (w : World) : World → Prop where
  | same {w' : World} (h : w.SameFolk w') : Recast w w'
  | altered {id : Nat} {i : Instance} {a : Actor} {change : Figure → Figure}
      (hm : w.member id = .ok (i, a)) (hc : a.Alters change) : Recast w (w.reshape id change)
  | placed {source : CloneSource} {parent : Nat} {i : Instance} {a : Actor}
      (hr : w.resolve source = .ok parent) (hm : w.member parent = .ok (i, a)) :
      Recast w (w.place i a)
  | removed (id : Nat) : Recast w (w.deleteInstance id).2

abbrev Recasts : World → World → Prop := Relation.ReflTransGen Recast

theorem SameFolk.recasts (h : w.SameFolk w') : w.Recasts w' := .single (.same h)

theorem putOn_alters {id : Nat} {dress : Dress} {name : String} {u : Unit}
    (h : w.putOn id dress name = .ok (u, w')) : w.Recast w' := by
  unfold putOn at h
  split at h
  · cases h
  · rename_i hm
    split at h
    · cases h
    · rename_i hi
      cases h
      exact .altered hm (.wears hi)

theorem recasts_answer {id : Nat} {r : Request} {reply : r.Reply}
    (h : w.answer id r = .ok (reply, w')) : w.Recasts w' := by
  cases r with
  | set name value =>
    simp only [answer, setAttribute] at h
    split at h
    · cases h
    · rename_i hm
      cases h
      exact .single (.altered hm (.sets name value))
  | move motion =>
    simp only [answer, move] at h
    split at h
    · cases h
    · cases h
    · rename_i hc hm
      split at h
      · rename_i hs
        cases h
        exact .single (.altered hm (.moves hs hc))
      · cases h
  | wear dress name =>
    simp only [answer, wear] at h
    split at h
    · cases h
    · cases h
    · exact .single (putOn_alters h)
  | broadcast message =>
    cases h
    exact (sameFolk_queueGroup w _).recasts
  | createClone source =>
    obtain ⟨parent, i, a, hr, hm, -, -, rfl⟩ := createClone_eq_ok h
    exact .head (.placed hr hm) (sameFolk_queueGroup _ _).recasts
  | instancesOf className =>
    simp only [answer] at h
    split at h <;> cases h
    exact .refl
  | showVariable name label position =>
    simp only [answer, showVariable] at h
    split at h <;> cases h
    exact SameFolk.recasts ⟨rfl, rfl, rfl⟩
  | startSound name =>
    simp only [answer] at h
    cases hp : w.play id name with
    | error e =>
      rw [hp] at h
      cases h
    | ok played =>
      obtain ⟨bus, journal, hworld⟩ := play_eq_ok hp
      rw [hp] at h
      cases h
      rw [hworld]
      exact SameFolk.recasts ⟨rfl, rfl, rfl⟩
  | hideVariable name | setVolume gain | stopAllSounds =>
    cases h
    exact SameFolk.recasts ⟨rfl, rfl, rfl⟩
  | boundingBox | volume =>
    cases h
    exact .refl
  | _ => rw [tells_eq_ok h]

-- What holds of the figure of every live instance, given its actor.
def Poses (P : Actor → Figure → Prop) (w : World) : Prop :=
  ∀ i ∈ w.instances, ∀ a, w.actors[i.actor]? = some a → P a i.figure

end World

-- What requests keep, and what does not hang on the other instances of the actor.
structure Actor.Keeps (P : Actor → Figure → Prop) : Prop where
  roster : ∀ {a f} ids, P a f → P { a with instances := ids } f
  alters : ∀ {a f change}, a.Alters change → P a f → P a (change f)

namespace World

variable {P : Actor → Figure → Prop} {w w' : World}

theorem Recast.registered (hw : w.Registered) (h : w.Recast w') : w'.Registered := by
  cases h with
  | same h => exact hw.same h
  | altered hm hc => exact hw.reshape _ _
  | placed hr hm => exact hw.place hr hm
  | removed id =>
    rcases w.deleteInstance_cases id with he | ⟨i, hi, hc, he⟩
    · rwa [he]
    · rw [he]
      obtain ⟨-, rfl⟩ := mem_of_instance? hi
      exact hw.remove hi hc

theorem poses_roster (hP : Actor.Keeps P) {id k : Nat} {ids : Actor → List Nat} {a : Actor}
    {f : Figure} (hf : ∀ b, w.actors[k]? = some b → P b f)
    (ha : (w.updateActor id fun b => { b with instances := ids b }).actors[k]? = some a) :
    P a f := by
  rw [updateActor, List.getElem?_map] at ha
  obtain ⟨b, hb, rfl⟩ := Option.map_eq_some_iff.1 ha
  split
  · exact hP.roster _ (hf b hb)
  · exact hf b hb

theorem Recast.poses (hP : Actor.Keeps P) (hw : w.Registered) (hp : w.Poses P)
    (h : w.Recast w') : w'.Poses P := by
  cases h with
  | same h =>
    unfold Poses
    rw [h.instances, h.actors]
    exact hp
  | altered hm hc =>
    rename_i id i a change
    intro j hj b hb
    obtain ⟨k, hk, rfl⟩ := List.mem_map.1 hj
    obtain ⟨hi, hid, -, -⟩ := hw.mem_of_member hm
    by_cases hkid : k.id = id
    · rw [if_pos hkid] at hb ⊢
      obtain rfl := hw.eq_of_id hi hk (hkid.trans hid.symm)
      obtain rfl := Option.some.inj (hb.symm.trans (member_eq_ok hm).2)
      exact hP.alters hc (hp k hk b hb)
    · rw [if_neg hkid] at hb ⊢
      exact hp k hk b hb
  | placed hr hm =>
    intro j hj b hb
    obtain ⟨hmem, -, -, -⟩ := hw.mem_of_member hm
    refine poses_roster hP (fun c hc => ?_) hb
    rcases List.mem_append.1 hj with hj | hj
    · exact hp j hj c hc
    · obtain rfl := List.mem_singleton.1 hj
      exact hp _ hmem c hc
  | removed id =>
    rcases w.deleteInstance_cases id with he | ⟨i, hi, hc, he⟩
    · rwa [he]
    · rw [he]
      exact fun j hj b hb => poses_roster hP (hp j (List.mem_of_mem_filter hj)) hb

theorem Recasts.poses (hP : Actor.Keeps P) (hw : w.Registered) (hp : w.Poses P)
    (h : w.Recasts w') : w'.Poses P := by
  suffices hboth : w'.Registered ∧ w'.Poses P from hboth.2
  induction h with
  | refl => exact ⟨hw, hp⟩
  | tail _ h ih => exact ⟨h.registered ih.1, h.poses hP ih.1 ih.2⟩

theorem poses_enrol {c : ActorClass} {groups : List HandlerGroup} {figure : Figure}
    (hw : w.Registered) (hp : w.Poses P)
    (hf : P (actorOf c groups w.actors.length (w.lastInstance + 1)) figure) :
    (w.enrol c groups figure).Poses P := by
  intro j hj b hb
  rcases List.mem_append.1 hj with hj | hj
  · rw [enrol, List.getElem?_append_left (hw.inRange j hj)] at hb
    exact hp j hj b hb
  · obtain rfl := List.mem_singleton.1 hj
    rw [enrol, List.getElem?_append_right (Nat.le_refl _), Nat.sub_self] at hb
    cases hb
    exact hf

end World

namespace Project

variable {P : Actor → Figure → Prop} {p q : Project}

theorem recasts_begin (p : Project) (h : Handle) (wait : Wait) :
    p.world.Recasts (p.begin h wait).2.world := by
  have ho := p.opens_begin h wait
  generalize (p.begin h wait).2.world = w at ho
  cases ho with
  | keeps => exact .refl
  | sends => exact (World.sameFolk_queueGroup _ _).recasts
  | deletes => exact .single (.removed _)
  | _ => exact World.SameFolk.recasts ⟨rfl, rfl, rfl⟩

theorem recasts_perform (p : Project) (e : Exchange) : p.world.Recasts (p.perform e).world := by
  cases e with
  | pause h wait =>
    rw [world_pause]
    exact recasts_begin p h wait
  | call c =>
    cases c with
    | request h r =>
      rw [perform, world_request]
      split
      · rename_i ha
        exact World.recasts_answer ha
      · exact .refl
    | start h wait =>
      rw [perform, world_start]
      exact recasts_begin p h wait
    | _ => exact World.SameFolk.recasts ⟨rfl, rfl, rfl⟩

theorem recasts_performAll (p : Project) (exchanges : List Exchange) :
    p.world.Recasts (p.performAll exchanges).world :=
  foldl_carries (r := fun p q : Project => p.world.Recasts q.world) (fun _ => .refl) .trans
    recasts_perform exchanges p

theorem recasts_stopEverything (p : Project) : p.world.Recasts p.stopEverything.world := by
  have hlast : p.world.removeClones.SameFolk p.stopEverything.world := ⟨rfl, rfl, rfl⟩
  have hremoved : p.world.Recasts p.world.removeClones :=
    foldl_carries (fun _ => .refl) .trans
      (fun w (i : Instance) => .single (World.Recast.removed (w := w) i.id)) _ _
  exact hremoved.trans hlast.recasts

theorem recasts_settle (p : Project) : p.world.Recasts p.settle.world := by
  rcases settle_cases p with hstop | ⟨groups, questions, hw⟩
  · rw [hstop]
    exact recasts_stopEverything p
  · rw [hw]
    exact World.SameFolk.recasts ⟨rfl, rfl, rfl⟩

theorem recasts_turn? {laps id : Nat} {resumed : Bool} (ht : p.turn? laps id = some (resumed, q)) :
    p.world.Recasts q.world := by
  cases ran_of_turn? ht with
  | resumed hthread he =>
    have hrun := recasts_performAll (p.turnStart id) (p.turnExchanges laps id)
    rw [world_turnStart] at hrun
    exact (hrun.trans (sameFolk_leave _ _ _).recasts).trans (recasts_settle _)
  | passed hd => rw [world_readiness]
  | orphaned hd =>
    rw [← world_readiness p id]
    exact (sameFolk_endThread _ _).recasts

theorem recasts_apply {op : Operation} (ho : ∀ c kind, op ≠ .register c kind) (p : Project) :
    p.world.Recasts (op.apply p).world := by
  have sends (p : Project) (trigger : Trigger) : p.world.SameFolk
      (p.updateWorld fun w => (w.dispatch trigger).2).launchAll.world :=
    ((enlists_queueGroup p.world _).trans (enlists_launchAll _)).sameFolk
  cases op with
  | register c kind => exact absurd rfl (ho c kind)
  | broadcast message => exact (sends p (.message message)).recasts
  | greenFlag =>
    exact (recasts_stopEverything p).trans (sends p.stopEverything .greenFlag).recasts
  | redStop => exact recasts_stopEverything p
  | answer text =>
    simp only [Operation.apply, answerQuestion]
    split <;> exact World.SameFolk.recasts ⟨rfl, rfl, rfl⟩
  | loadAssets loader =>
    simp only [Operation.apply, loadAssets_eq, poll_eq]
    exact World.SameFolk.recasts ⟨rfl, rfl, rfl⟩
  | poll =>
    simp only [Operation.apply, poll_eq]
    exact World.SameFolk.recasts ⟨rfl, rfl, rfl⟩
  | _ => exact World.SameFolk.recasts ⟨rfl, rfl, rfl⟩

-- The figure that a class starts with has to do.
theorem poses_register {c : ActorClass} {kind : ActorKind} (hw : p.world.Registered)
    (hp : p.world.Poses P) (hf : ∀ {groups id founder figure},
      (c.init {}).2 = .ok figure → P (actorOf c groups id founder) figure) :
    (p.register c kind).2.world.Poses P := by
  unfold register
  split
  · exact hp
  · dsimp only
    split
    · exact hp
    · simp only [updateWorld, foldl_record_look]
      split
      · exact hp
      · rename_i hc
        exact World.poses_enrol (w := { p.world with journal := _ }) (hw.same ⟨rfl, rfl, rfl⟩) hp
          (hf hc)

end Project

namespace Moment

variable {P : Actor → Figure → Prop} {m : Moment}

-- The states of a project that is loaded from a script and gets no class from elsewhere.
inductive Scripted : Moment → Prop where
  | load {source : String} {config : Config} {p : Project}
      (h : Project.load source config = (.ok (), p)) : Scripted ⟨p, []⟩
  | operate {p : Project} {op : Operation} (hp : Scripted ⟨p, []⟩)
      (ho : ∀ c kind, op ≠ .register c kind) : Scripted ⟨op.apply p, []⟩
  | frame {p : Project} (hp : Scripted ⟨p, []⟩) :
      Scripted ⟨p.prepare, p.prepare.threads.map (·.id)⟩
  | turn {laps id : Nat} {ids : List Nat} {resumed : Bool} {p q : Project}
      (hp : Scripted ⟨p, id :: ids⟩) (ht : p.turn? laps id = some (resumed, q)) :
      Scripted ⟨q, ids⟩

theorem Scripted.reachable (hm : Scripted m) : Reachable .any m := by
  induction hm with
  | load h => exact (reachable_loyal h).any
  | operate hp ho ih =>
    refine ih.step (.operate ?_)
    rename_i op
    cases op with
    | register c kind => exact absurd rfl (ho c kind)
    | _ => trivial
  | frame hp ih => exact ih.step .frame
  | turn hp ht ih => exact ih.step (.turn ht)

theorem Scripted.registered (hm : Scripted m) : m.project.world.Registered :=
  (hm.reachable.registered_indexed .refl).1

theorem Scripted.poses (hP : Actor.Keeps P)
    (hf : ∀ {c kind groups id founder figure}, Written c kind → (c.init {}).2 = .ok figure →
      P (actorOf c groups id founder) figure) (hm : Scripted m) : m.project.world.Poses P := by
  induction hm with
  | load h =>
    suffices hboth : ∀ {p}, Project.load _ _ = (.ok (), p) →
        p.world.Registered ∧ p.world.Poses P from (hboth h).2
    refine load_written (J := Project.Blank) (I := fun p => p.world.Registered ∧ p.world.Poses P)
      (fun _ => blank_of_new) Script.Loading.blank_answer (fun p setting hp => ?_)
      fun p c kind hc hp => ?_
    · refine ⟨.of_blank hp.world, fun i hi => ?_⟩
      rw [hp.world.instances] at hi
      cases hi
    · have hchanges : Changes (.under .any) p (p.register c kind).2 :=
        changes_register p c kind fun _ _ _ => trivial
      exact ⟨hchanges.registered hp.1, poses_register hp.1 hp.2 (hf hc)⟩
  | operate hp ho ih => exact (recasts_apply ho _).poses hP hp.registered ih
  | frame hp ih => exact (sameFolk_prepare _).recasts.poses hP hp.registered ih
  | turn hp ht ih => exact (recasts_turn? ht).poses hP hp.registered ih

end Moment

section Costumes

-- An actor that has costumes is wearing one of them.
def Actor.Fits (a : Actor) (f : Figure) : Prop :=
  a.costumes ≠ [] → f.look.costume < a.costumes.length

theorem Actor.keeps_fits : Actor.Keeps Actor.Fits where
  roster _ h := h
  alters hc h ha := by
    cases hc with
    | sets name value => exact h ha
    | moves hs hc =>
      rw [Motion.apply, Motion.onLook_costume]
      exact h ha
    | wears hi => exact (List.findIdx?_eq_some_iff_getElem.1 hi).1

-- Neither attributes nor motions are about the costume, so the first one is worn.
theorem costume_init {d : Declaration Value} {figure : Figure} (h : (d.init {}).2 = .ok figure) :
    figure.look.costume = 0 := by
  cases h
  refine (foldl_keeps (fun f : Figure => f.look.costume)
    (fun f (m : Motion) => m.onLook_costume f.look) _ _).trans ?_
  refine foldl_keeps (fun f : Figure => f.look.costume) ?_ d.attributes {}
  exact fun _ _ => rfl

theorem Project.Written.fits {c : ActorClass} {kind : ActorKind} {groups : List HandlerGroup}
    {id founder : Nat} {figure : Figure} (hc : Written c kind)
    (hf : (c.init {}).2 = .ok figure) : (actorOf c groups id founder).Fits figure := by
  cases hc with
  | mk h =>
    unfold Declaration.actorClass at h
    split at h
    · cases h
    · cases h
      intro hn
      rw [costume_init hf]
      exact List.length_pos_iff.2 hn

theorem Moment.Scripted.dressed {m : Moment} (hm : Scripted m) :
    m.project.world.Poses Actor.Fits :=
  hm.poses Actor.keeps_fits Written.fits

end Costumes

end SpriteStage

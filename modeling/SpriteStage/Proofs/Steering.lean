import SpriteStage.Proofs.Heading
import SpriteStage.Proofs.Scenery

namespace SpriteStage

open Project

-- The direction after a motion, by the direction before it.
def Motion.steered : Motion → Float → Float
  | .turn degrees, d => heading (d + degrees)
  | .point degrees, _ => heading degrees
  | _, d => d

-- The degrees that a motion turns or points by.
def Motion.degrees? : Motion → Option Float
  | .turn degrees | .point degrees => some degrees
  | _ => none

theorem Motion.onLook_direction (motion : Motion) (l : Look) :
    (motion.onLook l).direction = motion.steered l.direction := by
  cases motion <;> rfl

def Exchange.degrees? : Exchange → Option Float
  | .call (.request _ (.move motion)) => motion.degrees?
  | _ => none

def Exchange.Heeds (ok : Float → Prop) (e : Exchange) : Prop := ∀ x ∈ e.degrees?, ok x

-- What holds of the first direction, and of every direction that accepted degrees lead to.
structure Steers (ok J : Float → Prop) : Prop where
  start : J 90.0
  point : ∀ x, ok x → J (heading x)
  turn : ∀ d x, J d → ok x → J (heading (d + x))

theorem Steers.steered {ok J : Float → Prop} (hJ : Steers ok J) {motion : Motion} {d : Float}
    (hd : J d) (ho : ∀ x ∈ motion.degrees?, ok x) : J (motion.steered d) := by
  cases motion with
  | turn degrees => exact hJ.turn d degrees hd (ho degrees rfl)
  | point degrees => exact hJ.point degrees (ho degrees rfl)
  | _ => exact hd

namespace World

def directions (w : World) : List Float := w.instances.map (·.figure.look.direction)

def Faces (J : Float → Prop) (w : World) : Prop := ∀ d ∈ w.directions, J d

variable {w w' : World} {id : Nat}

theorem mem_directions {d : Float} :
    d ∈ w.directions ↔ ∃ i ∈ w.instances, i.figure.look.direction = d := List.mem_map

theorem SameFolk.directions (h : w.SameFolk w') : w'.directions ⊆ w.directions := by
  unfold World.directions
  rw [h.instances]
  exact List.Subset.refl _

theorem directions_place {parent : Nat} {i : Instance} {a : Actor}
    (h : w.member parent = .ok (i, a)) : (w.place i a).directions ⊆ w.directions := by
  intro d hd
  obtain ⟨j, hj, rfl⟩ := mem_directions.1 hd
  rcases List.mem_append.1 hj with hj | hj
  · exact mem_directions.2 ⟨j, hj, rfl⟩
  · obtain rfl := List.mem_singleton.1 hj
    exact mem_directions.2 ⟨i, (mem_of_instance? (member_eq_ok h).1).1, rfl⟩

theorem directions_deleteInstance (w : World) (id : Nat) :
    (w.deleteInstance id).2.directions ⊆ w.directions := by
  rcases w.deleteInstance_cases id with he | ⟨i, -, -, he⟩
  · rw [he]
    exact List.Subset.refl _
  · rw [he]
    exact List.map_subset _ (List.filter_subset_self _)

theorem directions_reshape {change : Figure → Figure} {steered : Float → Float}
    (h : ∀ f, (change f).look.direction = steered f.look.direction) {d : Float}
    (hd : d ∈ (w.reshape id change).directions) :
    d ∈ w.directions ∨ ∃ d' ∈ w.directions, d = steered d' := by
  obtain ⟨j, hj, rfl⟩ := mem_directions.1 hd
  obtain ⟨i, hi, rfl⟩ := List.mem_map.1 hj
  have hmem : i.figure.look.direction ∈ w.directions := mem_directions.2 ⟨i, hi, rfl⟩
  split
  · exact .inr ⟨_, hmem, h _⟩
  · exact .inl hmem

theorem directions_dressed {change : Figure → Figure}
    (h : ∀ f, (change f).look.direction = f.look.direction) :
    (w.reshape id change).directions ⊆ w.directions := by
  intro d hd
  rcases @directions_reshape w id change (fun d => d) h d hd with hd | ⟨d, hd, rfl⟩
  · exact hd
  · exact hd

-- Only a motion changes a direction; a clone looks where the instance looks that it is made of.
theorem directions_answer {r : Request} {reply : r.Reply} (h : w.answer id r = .ok (reply, w')) :
    w'.directions ⊆ w.directions ∨ ∃ motion, r = .move motion ∧
      ∀ d ∈ w'.directions, d ∈ w.directions ∨ ∃ d' ∈ w.directions, d = motion.steered d' := by
  cases r with
  | set name value =>
    simp only [answer, setAttribute] at h
    split at h <;> cases h
    exact .inl (directions_dressed fun _ => rfl)
  | move motion =>
    simp only [answer, move] at h
    split at h
    · cases h
    · cases h
    · split at h <;> cases h
      refine .inr ⟨motion, rfl, fun d hd => ?_⟩
      exact directions_reshape (fun f => motion.onLook_direction f.look) hd
  | wear dress name =>
    simp only [answer, wear, putOn] at h
    split at h
    · cases h
    · cases h
    · split at h
      · cases h
      · split at h <;> cases h
        exact .inl (directions_dressed fun _ => rfl)
  | broadcast message =>
    cases h
    exact .inl (sameFolk_queueGroup w _).directions
  | createClone source =>
    obtain ⟨parent, i, a, -, hm, -, -, rfl⟩ := createClone_eq_ok h
    exact .inl (List.Subset.trans (sameFolk_queueGroup _ _).directions (directions_place hm))
  | instancesOf className =>
    simp only [answer] at h
    split at h <;> cases h
    exact .inl (List.Subset.refl _)
  | showVariable name label position =>
    simp only [answer, showVariable] at h
    split at h <;> cases h
    exact .inl (List.Subset.refl _)
  | startSound name =>
    simp only [answer] at h
    cases hp : w.play id name with
    | error e =>
      rw [hp] at h
      cases h
    | ok played =>
      obtain ⟨bus, journal, hworld⟩ := play_eq_ok hp
      rw [hp] at h
      cases h
      rw [hworld]
      exact .inl (List.Subset.refl _)
  | hideVariable name | setVolume gain | stopAllSounds | boundingBox | volume =>
    cases h
    exact .inl (List.Subset.refl _)
  | _ =>
    rw [tells_eq_ok h]
    exact .inl (List.Subset.refl _)

end World

namespace Project

variable {p q : Project}

theorem directions_begin (p : Project) (h : Handle) (wait : Wait) :
    (p.begin h wait).2.world.directions ⊆ p.world.directions := by
  have ho := p.opens_begin h wait
  generalize (p.begin h wait).2.world = w at ho
  cases ho with
  | sends => exact (World.sameFolk_queueGroup _ _).directions
  | deletes => exact World.directions_deleteInstance _ _
  | _ => exact List.Subset.refl _

theorem directions_stopEverything (p : Project) :
    p.stopEverything.world.directions ⊆ p.world.directions := by
  have hlast : p.world.removeClones.SameFolk p.stopEverything.world := ⟨rfl, rfl, rfl⟩
  have hremoved : p.world.removeClones.directions ⊆ p.world.directions :=
    foldl_carries (r := fun w w' : World => w'.directions ⊆ w.directions)
      (fun _ => List.Subset.refl _) (fun h h' => List.Subset.trans h' h)
      (fun w (i : Instance) => w.directions_deleteInstance i.id) _ _
  exact List.Subset.trans hlast.directions hremoved

theorem directions_settle (p : Project) : p.settle.world.directions ⊆ p.world.directions := by
  rcases settle_cases p with hstop | ⟨groups, questions, hw⟩
  · rw [hstop]
    exact directions_stopEverything p
  · rw [hw]
    exact List.Subset.refl _

theorem directions_apply {op : Operation} (ho : ∀ c kind, op ≠ .register c kind) (p : Project) :
    (op.apply p).world.directions ⊆ p.world.directions := by
  have sends (p : Project) (trigger : Trigger) :
      (p.updateWorld fun w => (w.dispatch trigger).2).launchAll.world.directions ⊆
        p.world.directions :=
    ((enlists_queueGroup p.world _).trans (enlists_launchAll _)).sameFolk.directions
  cases op with
  | register c kind => exact absurd rfl (ho c kind)
  | broadcast message => exact sends p (.message message)
  | greenFlag => exact List.Subset.trans (sends _ .greenFlag) (directions_stopEverything p)
  | redStop => exact directions_stopEverything p
  | answer text =>
    simp only [Operation.apply, answerQuestion]
    split <;> exact List.Subset.refl _
  | loadAssets loader =>
    simp only [Operation.apply, loadAssets_eq, poll_eq]
    exact List.Subset.refl _
  | poll =>
    simp only [Operation.apply, poll_eq]
    exact List.Subset.refl _
  | _ => exact List.Subset.refl _

-- Instances of a script's classes look to the right at first.
theorem directions_register {c : ActorClass} {kind : ActorKind} (hc : Written c kind)
    (p : Project) :
    ∀ d ∈ (p.register c kind).2.world.directions, d ∈ p.world.directions ∨ d = 90.0 := by
  intro d hd
  unfold register at hd
  split at hd
  · exact .inl hd
  · dsimp only at hd
    split at hd
    · exact .inl hd
    · simp only [updateWorld, foldl_record_look] at hd
      split at hd
      · exact .inl hd
      · rename_i hi
        obtain ⟨j, hj, rfl⟩ := World.mem_directions.1 hd
        rcases List.mem_append.1 hj with hj | hj
        · exact .inl (World.mem_directions.2 ⟨j, hj, rfl⟩)
        · obtain rfl := List.mem_singleton.1 hj
          cases hc with
          | mk h =>
            unfold Declaration.actorClass at h
            split at h
            · cases h
            · cases h
              exact .inr (Declaration.sets_init hi).direction

section Steers

variable {ok J : Float → Prop} (hJ : Steers ok J)
include hJ

theorem steers_perform {e : Exchange} (he : e.Heeds ok) (hp : p.world.Faces J) :
    (p.perform e).world.Faces J := by
  cases e with
  | pause h wait =>
    rw [world_pause]
    exact fun d hd => hp d (directions_begin p h wait hd)
  | call c =>
    cases c with
    | request h r =>
      rw [perform, world_request]
      split
      · rename_i ha
        rcases World.directions_answer ha with hsub | ⟨motion, rfl, hmotion⟩
        · exact fun d hd => hp d (hsub hd)
        · intro d hd
          rcases hmotion d hd with hd | ⟨d', hd', rfl⟩
          · exact hp d hd
          · exact hJ.steered (hp d' hd') he
      · exact hp
    | start h wait =>
      rw [perform, world_start]
      exact fun d hd => hp d (directions_begin p h wait hd)
    | _ => exact hp

theorem steers_performAll {exchanges : List Exchange} (he : ∀ e ∈ exchanges, e.Heeds ok)
    (hp : p.world.Faces J) : (p.performAll exchanges).world.Faces J := by
  induction exchanges generalizing p with
  | nil => exact hp
  | cons e exchanges ih =>
    exact ih (fun e he' => he e (List.mem_cons_of_mem _ he'))
      (steers_perform hJ (he e List.mem_cons_self) hp)

theorem steers_turn? {laps id : Nat} {resumed : Bool} (ht : p.turn? laps id = some (resumed, q))
    (he : ∀ e ∈ p.turnExchanges laps id, e.Heeds ok) (hp : p.world.Faces J) : q.world.Faces J := by
  cases ran_of_turn? ht with
  | resumed hthread hend =>
    have hrun := steers_performAll (p := p.turnStart id) hJ he (by rwa [world_turnStart])
    intro d hd
    exact hrun d ((sameFolk_leave _ _ _).directions (directions_settle _ hd))
  | passed hd => rwa [world_readiness]
  | orphaned hd =>
    intro d hd
    have := (sameFolk_endThread _ _).directions hd
    rw [world_readiness] at this
    exact hp d this

end Steers

end Project

namespace Moment

variable {ok J : Float → Prop} {m : Moment} {p q : Project}

-- The states of a project that is loaded from a script, gets no class from elsewhere, and has been
-- turned and pointed by accepted degrees only.
inductive Steered (ok : Float → Prop) : Moment → Prop where
  | load {source : String} {config : Config} {p : Project}
      (h : Project.load source config = (.ok (), p)) : Steered ok ⟨p, []⟩
  | operate {p : Project} {op : Operation} (hp : Steered ok ⟨p, []⟩)
      (ho : ∀ c kind, op ≠ .register c kind) : Steered ok ⟨op.apply p, []⟩
  | frame {p : Project} (hp : Steered ok ⟨p, []⟩) :
      Steered ok ⟨p.prepare, p.prepare.threads.map (·.id)⟩
  | turn {laps id : Nat} {ids : List Nat} {resumed : Bool} {p q : Project}
      (hp : Steered ok ⟨p, id :: ids⟩) (ht : p.turn? laps id = some (resumed, q))
      (he : ∀ e ∈ p.turnExchanges laps id, e.Heeds ok) : Steered ok ⟨q, ids⟩

theorem Steered.faces (hJ : Steers ok J) (hm : Steered ok m) : m.project.world.Faces J := by
  induction hm with
  | load h =>
    refine load_written (J := Project.Blank) (I := fun p => p.world.Faces J)
      (fun _ => blank_of_new) Script.Loading.blank_answer (fun p setting hp => ?_)
      (fun p c kind hc hp d hd => ?_) h
    · unfold World.Faces World.directions
      rw [show ({ p with library := _ } : Project).world.instances = [] from hp.world.instances]
      nofun
    · rcases directions_register hc p d hd with hd | rfl
      · exact hp d hd
      · exact hJ.start
  | operate hp ho ih => exact fun d hd => ih d (directions_apply ho _ hd)
  | frame hp ih => exact fun d hd => ih d ((sameFolk_prepare _).directions hd)
  | turn hp ht he ih => exact steers_turn? hJ ht he ih

-- Without a choice of degrees these are all the states of a scripted project.
theorem Scripted.steered (hm : Scripted m) : Steered (fun _ => True) m := by
  induction hm with
  | load h => exact .load h
  | operate hp ho ih => exact .operate ih ho
  | frame hp ih => exact .frame ih
  | turn hp ht ih => exact .turn ih ht fun _ _ _ _ => trivial

end Moment

section Normalised

variable {ok : Float → Prop} {d : Float} {motion : Motion}

theorem normalised_start : Normalised 90.0 := by
  obtain ⟨-, -, -, h90⟩ := worth?_degrees
  exact (normalised_iff h90).2 (by norm_num)

theorem heading_cases (x : Float) : Normalised (heading x) ∨ (heading x).isNaN = true := by
  cases hx : x.isFinite with
  | true => exact .inl (heading_normalised hx)
  | false => exact .inr (heading_isNaN hx)

theorem steers_always : Steers ok fun d => Normalised d ∨ d.isNaN = true :=
  ⟨.inl normalised_start, fun x _ => heading_cases x, fun d x _ _ => heading_cases (d + x)⟩

theorem steers_finite (h : ∀ x, ok x → x.isFinite = true) : Steers ok Normalised :=
  ⟨normalised_start, fun x hx => heading_normalised (h x hx),
    fun _ x hd hx => heading_normalised (hd.isFinite_add (h x hx))⟩

-- Degrees that are no number spoil a direction for good, until a number is pointed to.
theorem normalised_steered_iff (hd : Normalised d ∨ d.isNaN = true) :
    Normalised (motion.steered d) ↔
      (∀ x ∈ motion.degrees?, x.isFinite = true) ∧ (Normalised d ∨ ∃ x, motion = .point x) := by
  cases motion with
  | point x =>
    simp only [Motion.steered, normalised_heading_iff, Motion.degrees?, Option.mem_some_iff,
      forall_eq', Motion.point.injEq, exists_eq', or_true, and_true]
  | turn x =>
    have hsum : (d + x).isFinite = true ↔ x.isFinite = true ∧ Normalised d := by
      refine ⟨fun h => ?_, fun ⟨hx, hd⟩ => hd.isFinite_add hx⟩
      have hparts : d.isFinite = true ∧ x.isFinite = true := by
        by_contra hn
        rw [not_and_or, Bool.not_eq_true, Bool.not_eq_true] at hn
        rw [isFinite_add hn] at h
        cases h
      refine ⟨hparts.2, hd.resolve_right fun hnan => ?_⟩
      obtain ⟨v, hv⟩ := isFinite_iff.1 hparts.1
      rw [isNaN_of_worth? hv] at hnan
      cases hnan
    simp only [Motion.steered, normalised_heading_iff, hsum, Motion.degrees?, Option.mem_some_iff,
      forall_eq', reduceCtorEq, exists_false, or_false]
  | _ => simp [Motion.steered, Motion.degrees?]

end Normalised

-- How the instances of a project look about, and what becomes of it when one of them is turned.
structure Project.Directed (ok : Float → Prop) (p : Project) : Prop where
  numbers : ∀ d ∈ p.world.directions, Normalised d ∨ d.isNaN = true
  finite : (∀ x, ok x → x.isFinite = true) → ∀ d ∈ p.world.directions, Normalised d
  turned : ∀ {h : Handle} {motion : Motion} {reply : Unit} {q : Project},
    p.answer (.request h (.move motion)) = (.ok reply, q) →
      ∀ i ∈ p.world.instances, i.id = h.owner → ∃ j ∈ q.world.instances, j.id = i.id ∧
        (Normalised j.figure.look.direction ↔ (∀ x ∈ motion.degrees?, x.isFinite = true) ∧
          (Normalised i.figure.look.direction ∨ ∃ x, motion = .point x))

theorem Project.directed_of_faces {ok : Float → Prop} {p : Project}
    (h : ∀ {J : Float → Prop}, Steers ok J → p.world.Faces J) : p.Directed ok where
  numbers := h steers_always
  finite hok := h (steers_finite hok)
  turned := by
    intro handle motion reply q ha i hi hid
    simp only [answer, World.answer, World.move] at ha
    split at ha
    · rename_i hmoved
      split at hmoved
      · cases hmoved
      · cases hmoved
      · split at hmoved <;> cases hmoved
        cases ha
        have hmem := List.mem_map_of_mem (f := fun i : Instance =>
          if i.id = handle.owner then { i with figure := motion.apply i.figure } else i) hi
        rw [if_pos hid] at hmem
        refine ⟨_, hmem, rfl, ?_⟩
        dsimp only [Motion.apply]
        rw [motion.onLook_direction]
        exact normalised_steered_iff (h steers_always _ (World.mem_directions.2 ⟨i, hi, rfl⟩))
    · cases ha

namespace Moment

variable {ok : Float → Prop} {m : Moment}

theorem Steered.directed (hm : Steered ok m) (id : Nat) {exchanges : List Exchange}
    (he : ∀ e ∈ exchanges, e.Heeds ok) :
    m.project.Directed ok ∧ ((m.project.turnStart id).performAll exchanges).Directed ok := by
  refine ⟨Project.directed_of_faces fun hJ => hm.faces hJ, Project.directed_of_faces fun hJ => ?_⟩
  refine steers_performAll hJ he ?_
  rw [world_turnStart]
  exact hm.faces hJ

section Top

-- It spins on its own axis, and then looks to the left.
def top : String :=
  "fn start() \x7b this.turn_degrees(100.0); this.turn_degrees(1e300); this.turn_degrees(-45); " ++
    "this.point_in_direction(-180.0) \x7d " ++
    "register(sprite(\"Top\").when(\"green-flag\", \"start\"));"

def wound : Project := (Project.load top {}).2.greenFlag.prepare

def spun : Project := ((wound.turn? 2 1).map Prod.snd).getD {}

theorem top_spins : (Project.load top {}).1.isOk = true ∧ wound.threads.map (·.id) = [1] ∧
    (wound.turn? 2 1).map Prod.fst = some true ∧
      (((wound.turnExchanges 2 1).filterMap Exchange.degrees?).all Float.isFinite) = true ∧
        spun.world.directions.map Float.toBits = [(180.0 : Float).toBits] := by
  decide +kernel

-- A project whose script turns by finite numbers.
theorem steered_spun : Steered (fun x => x.isFinite = true) ⟨spun, []⟩ := by
  obtain ⟨hok, hids, hturn, hfinite, -⟩ := top_spins
  have hflag : Steered (fun x => x.isFinite = true)
      ⟨Operation.greenFlag.apply (Project.load top {}).2, []⟩ :=
    .operate (.load (load_of_isOk hok)) nofun
  have hstart : Steered (fun x => x.isFinite = true) ⟨wound, wound.threads.map (·.id)⟩ :=
    .frame hflag
  rw [hids] at hstart
  obtain ⟨⟨resumed, q⟩, hq, -⟩ := Option.map_eq_some_iff.1 hturn
  have hspun : spun = q := by rw [spun, hq]; rfl
  rw [hspun]
  refine .turn hstart hq fun e he x hx => ?_
  exact List.all_eq_true.1 hfinite x (List.mem_filterMap.2 ⟨e, he, hx⟩)

theorem spun_directed : ∃ q, Steered (fun x => x.isFinite = true) ⟨q, []⟩ ∧
    q.world.directions.map Float.toBits = [(180.0 : Float).toBits] ∧
      (∀ d ∈ q.world.directions, Normalised d) ∧ q.Directed fun x => x.isFinite = true := by
  obtain ⟨-, -, -, -, hlast⟩ := top_spins
  have hnone : ∀ e ∈ ([] : List Exchange), e.Heeds fun x => x.isFinite = true := nofun
  obtain ⟨hboundary, -⟩ := steered_spun.directed 1 hnone
  exact ⟨spun, steered_spun, hlast, hboundary.finite fun _ h => h, hboundary⟩

end Top

section Dizzy

-- Nothing divided by nothing.
def dizzy : String :=
  "fn start() \x7b this.point_in_direction(0.0/0.0); \x7d " ++
    "register(sprite(\"A\").when(\"green-flag\", \"start\"));"

def bewildered (p : Project) : Bool :=
  p.world.instances.any fun i =>
    i.figure.look.direction.isNaN && !decide (Normalised i.figure.look.direction)

theorem bewilders_dizzy : ((Project.load dizzy {}).1.isOk &&
    ((Project.load dizzy {}).2.greenFlag.frames? 2 1).any bewildered) = true := by
  decide +kernel

theorem dizzy_bewildered : ∃ p q, Project.load dizzy {} = (.ok (), p) ∧
    Relation.ReflTransGen (Step .loyal) ⟨p, []⟩ ⟨q, []⟩ ∧ ∃ i ∈ q.world.instances,
      i.figure.look.direction.isNaN = true ∧ ¬ Normalised i.figure.look.direction := by
  obtain ⟨hload, hframes⟩ := Bool.and_eq_true_iff.1 bewilders_dizzy
  obtain ⟨q, hq, hlost⟩ := (Option.any_eq_true _ _).1 hframes
  obtain ⟨i, hi, hboth⟩ := List.any_eq_true.1 hlost
  obtain ⟨hnan, hout⟩ := Bool.and_eq_true_iff.1 hboth
  have hflag : ∀ p : Project, Step .loyal ⟨p, []⟩ ⟨Operation.greenFlag.apply p, []⟩ := fun _ =>
    .operate trivial
  refine ⟨_, q, load_of_isOk hload, .head (hflag _) (steps_frames hq), i, hi, hnan, ?_⟩
  simpa using hout

end Dizzy

end Moment

end SpriteStage

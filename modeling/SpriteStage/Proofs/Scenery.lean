import SpriteStage.Proofs.Overrun
import SpriteStage.Proofs.Registration
import SpriteStage.Proofs.Staging

namespace SpriteStage

open Project Script

namespace Script

def Query.declaration? : Query → Option (Declaration Value)
  | .declare d => some d
  | _ => none

theorem declared_answer (query : Query) (l : Loading) :
    (Loading.answer query l).2.declared = l.declared ++ query.declaration?.toList := by
  cases query with
  | declare d => rfl
  | countLoop =>
    simp only [Loading.answer]
    split <;> exact (List.append_nil _).symm
  | _ => exact (List.append_nil _).symm

theorem declared_run {α : Type} (d : Inquiry α) (l : Loading) :
    (d.run Loading.answer l).2.declared =
      l.declared ++ (d.asked Loading.answer l).filterMap Query.declaration? := by
  induction d generalizing l with
  | done result => exact (List.append_nil _).symm
  | ask query next ih =>
    have hrun := ih (Loading.answer query l).1 (Loading.answer query l).2
    rw [declared_answer, List.append_assoc] at hrun
    refine hrun.trans ?_
    rw [Dialogue.asked, List.filterMap_cons]
    cases query.declaration? <;> rfl

end Script

-- The looks that a declaration asks for, and what nothing in a declaration is about.
structure Declaration.Sets (d : Declaration Value) (f : Figure) : Prop where
  x : f.look.x = (d.position.map Prod.fst).getD 0.0
  y : f.look.y = (d.position.map Prod.snd).getD 0.0
  size : f.look.size = d.size.getD 1.0
  direction : f.look.direction = 90.0
  shown : f.look.shown = !d.hidden
  speech : f.speech = none

def Declaration.motions (d : Declaration Value) : List Motion :=
  (d.position.map fun (x, y) => Motion.goTo x y).toList ++ (d.size.map Motion.setSize).toList ++
    if d.hidden then [.hide] else []

-- Attributes come first, and leave the looks alone.
theorem Declaration.sets_init {d : Declaration Value} {figure : Figure}
    (h : (d.init {}).2 = .ok figure) : d.Sets figure := by
  have hstart : ∃ f : Figure, f.look = {} ∧ f.speech = none ∧
      figure = d.motions.foldl (fun f motion => motion.apply f) f := by
    cases h
    refine ⟨_, ?_, ?_, rfl⟩
    · refine foldl_keeps (fun f : Figure => f.look) ?_ d.attributes {}
      exact fun _ _ => rfl
    · refine foldl_keeps (fun f : Figure => f.speech) ?_ d.attributes {}
      exact fun _ _ => rfl
  obtain ⟨f, hlook, hspeech, rfl⟩ := hstart
  obtain ⟨attributes, look, speech⟩ := f
  cases hlook
  cases hspeech
  cases hp : d.position <;> cases hs : d.size <;> cases hh : d.hidden <;>
    constructor <;> simp [Declaration.motions, hp, hs, hh, Motion.apply, Motion.onLook, Motion.onSpeech]

-- An actor with the figure of one of its instances, by the declaration that it was registered for.
-- What a declaration asks of a sprite holds only until the sprite moves.
structure Declaration.Describes (d : Declaration Value) (a : Actor) (f : Figure) : Prop where
  name : a.name = d.name
  kind : a.kind = d.kind
  costumes : a.costumes = d.costumes
  fits : a.Fits f
  stands : a.isSprite = false → d.Sets f

def Actor.Follows (ds : List (Declaration Value)) (a : Actor) (f : Figure) : Prop :=
  ∀ d, ds[a.id]? = some d → d.Describes a f

theorem Actor.keeps_follows (ds : List (Declaration Value)) :
    Actor.Keeps (Actor.Follows ds) where
  roster _ h d hd := { h d hd with }
  alters hc h d hd := by
    obtain ⟨hn, hk, hcs, hf, hs⟩ := h d hd
    refine ⟨hn, hk, hcs, Actor.keeps_fits.alters hc hf, fun ha => ?_⟩
    cases hc with
    | sets name value => exact { hs ha with }
    | moves hsprite hcheck =>
      rw [ha] at hsprite
      cases hsprite
    | wears hi => exact { hs ha with }

theorem Declaration.describes_init {d : Declaration Value} {program : Program} {c : ActorClass}
    {figure : Figure} (hc : d.actorClass program = .ok c) (hi : (c.init {}).2 = .ok figure)
    (groups : List HandlerGroup) (id founder : Nat) :
    d.Describes (actorOf c groups id founder) figure := by
  have hfits : (actorOf c groups id founder).Fits figure := Written.fits (.mk hc) hi
  unfold Declaration.actorClass at hc
  split at hc
  · cases hc
  · cases hc
    exact ⟨rfl, rfl, rfl, hfits, fun _ => Declaration.sets_init hi⟩

namespace Project

variable {p q : Project} {c : ActorClass} {kind : ActorKind}

theorem Settles.follows {ds : List (Declaration Value)} {result : Except ProjectError Nat}
    (h : Settles p c kind (result, q)) (hw : p.world.Registered)
    (hp : p.world.Poses (Actor.Follows ds))
    (hf : ∀ {d figure}, ds[p.world.actors.length]? = some d → (c.init {}).2 = .ok figure →
      ∀ groups founder, d.Describes (actorOf c groups p.world.actors.length founder) figure) :
    q.world.Poses (Actor.Follows ds) := by
  cases h with
  | enrols ha hg hi =>
    exact World.poses_enrol (w := { p.world with journal := p.seen c }) (hw.same ⟨rfl, rfl, rfl⟩) hp
      fun d hd => hf hd hi _ _
  | _ => exact hp

-- Classes from elsewhere come behind those of the script.
theorem follows_register {ds : List (Declaration Value)} (hw : p.world.Registered)
    (hp : p.world.Poses (Actor.Follows ds)) (hl : ds.length ≤ p.world.actors.length) :
    (p.register c kind).2.world.Poses (Actor.Follows ds) := by
  refine (settles_register hw c kind).follows hw hp fun hd _ => ?_
  rw [List.getElem?_eq_none hl] at hd
  cases hd

theorem follows_registerAll {program : Program} {ds front back : List (Declaration Value)}
    (hds : ds = front ++ back) (hw : p.world.Registered) (hp : p.world.Poses (Actor.Follows ds))
    (hl : p.world.actors.length = front.length) (h : registerAll program back p = (.ok (), q)) :
    q.world.Registered ∧ q.world.Poses (Actor.Follows ds) ∧ q.world.actors.length = ds.length := by
  induction back generalizing p front with
  | nil =>
    cases h
    rw [List.append_nil] at hds
    exact ⟨hw, hp, hds ▸ hl⟩
  | cons d back ih =>
    simp only [registerAll] at h
    split at h
    · cases h
    · rename_i c hc
      have hs := settles_register hw c d.kind
      have hchanges : Changes (.under .any) p (p.register c d.kind).2 :=
        changes_register p c d.kind fun _ _ _ => trivial
      have hr := hchanges.registered hw
      split at h
      · cases h
      · rename_i id p' heq
        rw [heq] at hs hr
        have happend : ds = (front ++ [d]) ++ back := by rw [hds, List.append_assoc, List.singleton_append]
        refine ih happend hr ?_ ?_ h
        · refine hs.follows hw hp fun {d' figure} hd hi groups founder => ?_
          rw [hl, hds, List.getElem?_append_right (Nat.le_refl _), Nat.sub_self] at hd
          cases hd
          exact Declaration.describes_init hc hi groups _ founder
        · cases hs with
          | enrols ha hg hi =>
            simp only [updateWorld, List.length_append, List.length_singleton, hl]

-- What the top level of a script has registered, in this order.
def declared (source : String) (config : Config) : List (Declaration Value) :=
  (asked source config).filterMap Query.declaration?

theorem declared_asked {source : String} {config : Config} {p : Project} {program : Program}
    (hp : Project.new config = .ok p) (h : Program.ofText? source = some program) :
    ((Program.runBody ⟨program, true, config.maxScriptOperations⟩).run Loading.answer
      { project := p }).2.declared = declared source config := by
  have hfirst : Loading.declared { project := p } = [] := rfl
  unfold declared asked
  rw [hp, h, declared_run, hfirst, List.nil_append]

theorem registers_declared {source : String} {config : Config}
    (h : load source config = (.ok (), p)) : ∃ program p₀, p₀.Blank ∧
      registerAll program (declared source config) p₀ = (.ok (), p) := by
  have hkept (setting : Setting) {p : Project} (hp : p.Blank) :
      ((Program.runBody setting).run Loading.answer { project := p }).2.project.Blank :=
    Dialogue.run_invariant (I := fun l : Loading => l.project.Blank) Loading.blank_answer _ hp
  have hdeclared := @declared_asked source config
  unfold load at h
  -- These three stay closed: on an unknown script the kernel would go on evaluating them.
  obtain ⟨made, hmade⟩ : ∃ made, Project.new config = made := ⟨_, rfl⟩
  obtain ⟨parsed, hparsed⟩ : ∃ parsed, Program.ofText? source = parsed := ⟨_, rfl⟩
  obtain ⟨run, hrun⟩ : ∃ run, Dialogue.run Loading.answer = run := ⟨_, rfl⟩
  rw [hmade, hparsed, hrun] at h hdeclared
  rw [hrun] at hkept
  cases made with
  | error e => cases h
  | ok p' =>
    cases parsed with
    | none => cases h
    | some program =>
      have hlast := hkept ⟨program, true, config.maxScriptOperations⟩ (blank_of_new hmade)
      rw [← hdeclared rfl rfl]
      dsimp only at h
      split at h
      · cases h
      · cases h
      · refine ⟨program, _, ?_, h⟩
        exact ⟨hlast.threads, hlast.world⟩

theorem follows_load {source : String} {config : Config} (h : load source config = (.ok (), p)) :
    p.world.Registered ∧ p.world.Poses (Actor.Follows (declared source config)) ∧
      p.world.actors.length = (declared source config).length := by
  obtain ⟨program, p₀, hb, hr⟩ := registers_declared h
  refine follows_registerAll (List.nil_append _).symm (.of_blank hb.world) (fun i hi => ?_) ?_ hr
  · rw [hb.world.instances] at hi
    cases hi
  · rw [hb.world.actors]
    rfl

end Project

namespace Moment

variable {m n : Moment} {p q : Project} {source : String} {config : Config}

theorem Step.follows {ds : List (Declaration Value)} (hs : Step .any m n) (hm : Reachable .any m)
    (hl : ds.length ≤ m.project.world.actors.length)
    (hp : m.project.world.Poses (Actor.Follows ds)) : n.project.world.Poses (Actor.Follows ds) := by
  have hw := (hm.registered_indexed .refl).1
  cases hs with
  | operate h =>
    rename_i p op
    by_cases hop : ∃ c kind, op = .register c kind
    · obtain ⟨c, kind, rfl⟩ := hop
      exact follows_register hw hp hl
    · exact (recasts_apply (fun c kind he => hop ⟨c, kind, he⟩) p).poses (Actor.keeps_follows ds) hw hp
  | frame => exact (sameFolk_prepare _).recasts.poses (Actor.keeps_follows ds) hw hp
  | turn h => exact (recasts_turn? h).poses (Actor.keeps_follows ds) hw hp

theorem follows_of_load (h : Project.load source config = (.ok (), p))
    (hs : Relation.ReflTransGen (Step .any) ⟨p, []⟩ m) : Reachable .any m ∧
      m.project.world.Poses (Actor.Follows (declared source config)) ∧
      (declared source config).length ≤ m.project.world.actors.length := by
  obtain ⟨-, hp, hl⟩ := follows_load h
  have hstart : Reachable .any ⟨p, []⟩ := (reachable_loyal h).any
  have hlength : ∀ {m : Moment}, Relation.ReflTransGen (Step .any) ⟨p, []⟩ m →
      (declared source config).length ≤ m.project.world.actors.length := fun hs =>
    hl ▸ (hstart.changes_of_steps hs).precedes.actors
  refine ⟨hstart.steps hs, ?_, hlength hs⟩
  induction hs with
  | refl => exact hp
  | tail hpr hq ih => exact hq.follows (hstart.steps hpr) (hlength hpr) ih

end Moment

def Motion.refusal (motion : Motion) : CallError :=
  match motion.check with
  | .error e => e
  | .ok _ => .spriteOnly motion.name

-- A stage that stands as it was declared, whatever is asked of it.
structure Declaration.Stages (d : Declaration Value) (p : Project) (a : Actor) (i : Instance) :
    Prop where
  name : a.name = d.name
  costumes : a.costumes = d.costumes
  alone : a.instances = [i.id]
  sets : d.Sets i.figure
  refuses : ∀ h motion, h.owner = i.id →
    p.answer (.request h (.move motion)) = (.error motion.refusal, p)
  drawn : d.costumes ≠ [] → ∃ costume, d.costumes[i.figure.look.costume]? = some costume ∧
    p.world.drawings.filter (·.owner == i.id) =
      if d.hidden then [] else
        [.image i.id (-p.world.config.stage.halfWidth) p.world.config.stage.halfHeight 1.0 0.0
          costume.locator]

namespace World

variable {w : World} {a : Actor} {i : Instance}

theorem Registered.stage_drawn (hw : w.Registered) (hi : i ∈ w.instances)
    (ha : w.actors[i.actor]? = some a) (hs : a.isSprite = false) {costume : Costume}
    (hc : a.costumes[i.figure.look.costume]? = some costume) :
    w.drawings.filter (·.owner == i.id) = if i.figure.look.shown then
      [.image i.id (-w.config.stage.halfWidth) w.config.stage.halfHeight 1.0 0.0 costume.locator]
    else [] := by
  have hportrait : w.portrait? a i.id = if i.figure.look.shown then some (i, a, costume) else none := by
    rw [portrait?, hw.instance?_of_mem hi, Option.bind_some, costume?, hc, Option.map_some]
  rw [drawings_eq_lineup, List.filter_append, hw.filter_filterMap hi ha fun h => (of_picture? h).2,
    hw.filter_filterMap hi ha fun h => (of_speech? h).2, picture?, speech?, hportrait]
  split
  · simp only [Option.map_some, Option.bind_some, imageOf, bubbleOf?, hs, Bool.false_eq_true, if_false]
    rfl
  · rfl

theorem move_refused (hi : w.instance? i.id = some i) (ha : w.actors[i.actor]? = some a)
    (hs : a.isSprite = false) (motion : Motion) :
    w.answer i.id (.move motion) = .error motion.refusal := by
  have hm : w.member i.id = .ok (i, a) := by
    unfold member
    rw [hi]
    dsimp only
    rw [ha]
  simp only [answer, move, Motion.refusal, hm]
  cases motion.check with
  | error e => rfl
  | ok _ => exact if_neg (Bool.eq_false_iff.1 hs)

theorem Recast.length_actors {w' : World} (h : w.Recast w') :
    w'.actors.length = w.actors.length := by
  cases h with
  | same h => rw [h.actors]
  | altered hm hc => rfl
  | placed hr hm => exact List.length_map _
  | removed id =>
    rcases w.deleteInstance_cases id with he | ⟨i, -, -, he⟩
    · rw [he]
    · rw [he]
      exact List.length_map _

theorem Recasts.registered (hw : w.Registered) {w' : World} (h : w.Recasts w') :
    w'.Registered ∧ w'.actors.length = w.actors.length := by
  induction h with
  | refl => exact ⟨hw, rfl⟩
  | tail _ h ih => exact ⟨h.registered ih.1, h.length_actors.trans ih.2⟩

end World

namespace Project

variable {p : Project} {ds : List (Declaration Value)} {d : Declaration Value} {k : Nat}

theorem stages_of_follows (hw : p.world.Registered) (hp : p.world.Poses (Actor.Follows ds))
    (hl : ds.length ≤ p.world.actors.length) (hd : ds[k]? = some d) (hk : d.kind = .stage) :
    ∃ a i, p.world.actors[k]? = some a ∧ i ∈ p.world.instances ∧ i.actor = k ∧ d.Stages p a i := by
  have hlt : k < p.world.actors.length :=
    Nat.lt_of_lt_of_le (List.getElem?_eq_some_iff.1 hd).1 hl
  obtain ⟨a, ha⟩ : ∃ a, p.world.actors[k]? = some a := ⟨_, List.getElem?_eq_getElem hlt⟩
  have hmem := List.mem_of_getElem? ha
  have hpos := hw.positions ha
  obtain ⟨i, hi, hid, hact⟩ := (hw.members a hmem _).1 (hw.founders a hmem)
  rw [hpos] at hact
  have hai : p.world.actors[i.actor]? = some a := hact.symm ▸ ha
  obtain ⟨hn, hkind, hcs, hfits, hsets⟩ := hp i hi a hai d (hpos.symm ▸ hd)
  have hstage : a.isSprite = false := by
    rw [Actor.isSprite, hkind, hk]
    rfl
  have halone := hw.stages a hmem (hkind.trans hk)
  refine ⟨a, i, ha, hi, hact, hn, hcs, hid ▸ halone, hsets hstage, fun h motion ho => ?_, fun hne => ?_⟩
  · simp only [answer, ho, World.move_refused (hw.instance?_of_mem hi) hai hstage]
  · rw [← hcs] at hne ⊢
    have hcostume := List.getElem?_eq_getElem (hfits hne)
    refine ⟨_, hcostume, ?_⟩
    rw [hw.stage_drawn hi hai hstage hcostume, (hsets hstage).shown]
    cases d.hidden <;> rfl

end Project

namespace Moment

variable {m : Moment} {p : Project} {source : String} {config : Config}

theorem stage_as_declared (h : Project.load source config = (.ok (), p))
    (hs : Relation.ReflTransGen (Step .any) ⟨p, []⟩ m) (id : Nat) (exchanges : List Exchange) {k : Nat}
    {d : Declaration Value} (hd : (declared source config)[k]? = some d) (hk : d.kind = .stage) :
    ∃ a i, ((m.project.turnStart id).performAll exchanges).world.actors[k]? = some a ∧
      i ∈ ((m.project.turnStart id).performAll exchanges).world.instances ∧ i.actor = k ∧
      d.Stages ((m.project.turnStart id).performAll exchanges) a i := by
  obtain ⟨hm, hp, hl⟩ := follows_of_load h hs
  have hw := (hm.registered_indexed .refl).1
  have hrun := recasts_performAll (m.project.turnStart id) exchanges
  rw [world_turnStart] at hrun
  obtain ⟨hreg, hlength⟩ := hrun.registered hw
  exact stages_of_follows hreg (hrun.poses (Actor.keeps_follows _) hw hp) (hlength ▸ hl) hd hk

def concealed : String := "register(stage(\"S\").backdrop(\"b\", \"p\").hide());"

def curtained : Project := (Project.load concealed {}).2

theorem load_concealed : (Project.load concealed {}).1.isOk = true ∧
    (curtained.world.actors.map fun a => (a.id, a.kind, a.costumes.length)) = [(0, .stage, 1)] ∧
      (curtained.world.instances.map fun i => (i.actor, i.figure.look.shown)) = [(0, false)] ∧
        seen curtained = [] ∧ curtained.threads.isEmpty = true := by
  decide +kernel

-- Its stage has a backdrop, and nothing is drawn.
theorem concealed_undrawn : ∃ p, Project.load concealed {} = (.ok (), p) ∧ Reachable .any ⟨p, []⟩ ∧
    (p.world.actors.map fun a => (a.id, a.kind, a.costumes.length)) = [(0, .stage, 1)] ∧
      (p.world.instances.map fun i => (i.actor, i.figure.look.shown)) = [(0, false)] ∧
        seen p = [] := by
  obtain ⟨hok, hactors, hshown, hseen, -⟩ := load_concealed
  have hload := load_of_isOk hok
  exact ⟨_, hload, (reachable_loyal hload).any, hactors, hshown, hseen⟩

theorem turnStart_of_idle (h : p.threads = []) (id : Nat) : p.turnStart id = p := by
  have hnone : p.thread? id = none := by
    rw [thread?, h]
    rfl
  have hready : p.readiness id = (.gone, p) := by
    unfold readiness
    rw [hnone]
  rw [turnStart, hready, hnone]
  rfl

theorem concealed_declared : ∃ p d, Project.load concealed {} = (.ok (), p) ∧
    (declared concealed {})[0]? = some d ∧ d.kind = .stage ∧ d.hidden = true ∧
      ∃ a i, p.world.actors[0]? = some a ∧ i ∈ p.world.instances ∧ i.actor = 0 ∧ d.Stages p a i := by
  obtain ⟨hok, -, -, -, hthreads⟩ := load_concealed
  have hload := load_of_isOk hok
  have hdeclared : ((declared concealed {})[0]?.any fun d => d.kind = .stage && d.hidden) = true := by
    decide +kernel
  obtain ⟨d, hd, hboth⟩ := (Option.any_eq_true _ _).1 hdeclared
  obtain ⟨hk, hh⟩ := Bool.and_eq_true_iff.1 hboth
  have hk : d.kind = .stage := of_decide_eq_true hk
  have hidle : (Project.load concealed {}).2.threads = [] := List.isEmpty_iff.1 hthreads
  have hstage := stage_as_declared hload .refl 0 [] hd hk
  rw [turnStart_of_idle hidle] at hstage
  exact ⟨_, d, hload, hd, hk, hh, hstage⟩

end Moment

end SpriteStage

import SpriteStage.Proofs.Lineage
import SpriteStage.Proofs.Restart

namespace SpriteStage

open Project

section Faults

variable {kind expected : ActorKind} {c : ActorClass} {d : HandlerDeclaration} {w : World}
  {e : RegistrationError}

-- The event is well described, and an actor of the kind may have handlers for it.
def HandlerDeclaration.Fits (kind : ActorKind) (d : HandlerDeclaration) : Prop :=
  ∃ trigger, d.trigger = .ok trigger ∧ trigger.allowedOn kind = true

inductive HandlerDeclaration.Spoils (kind : ActorKind) (d : HandlerDeclaration) :
    RegistrationError → Prop where
  | descriptor {e : RegistrationError} (h : d.trigger = .error e) : Spoils kind d e
  | trigger {trigger : Trigger} (h : d.trigger = .ok trigger)
      (hn : trigger.allowedOn kind = false) :
      Spoils kind d (.triggerNotAllowed trigger.eventType kind.name)

-- The first handler, in the order of their declaration, that spoils its class.
inductive ActorClass.Spoiled (c : ActorClass) : RegistrationError → Prop where
  | mk {front back : List HandlerDeclaration} {d : HandlerDeclaration} {e : RegistrationError}
      (hd : c.handlers = front ++ d :: back) (hf : ∀ d ∈ front, d.Fits c.kind)
      (he : d.Spoils c.kind e) : Spoiled c e

structure World.Welcomes (w : World) (c : ActorClass) (expected : ActorKind) : Prop where
  kind : c.kind = expected
  name : ∀ a ∈ w.actors, a.name ≠ c.name
  stage : expected = .stage → ∀ a ∈ w.actors, a.kind ≠ .stage

inductive World.Refuses (w : World) (c : ActorClass) (expected : ActorKind) :
    RegistrationError → Prop where
  | kind (hk : c.kind ≠ expected) :
      Refuses w c expected (.wrongKind c.name c.kind.name expected.name)
  | name {a : Actor} (hk : c.kind = expected) (ha : a ∈ w.actors) (hn : a.name = c.name) :
      Refuses w c expected (.duplicateClassName c.name)
  | stage {a : Actor} (hk : c.kind = expected) (hn : ∀ a ∈ w.actors, a.name ≠ c.name)
      (hs : expected = .stage) (ha : a ∈ w.actors) (has : a.kind = .stage) :
      Refuses w c expected (.secondStage a.name)

structure World.Admits (w : World) (c : ActorClass) (expected : ActorKind) : Prop
    extends w.Welcomes c expected where
  handlers : ∀ d ∈ c.handlers, d.Fits c.kind
  constructs : ∃ figure, (c.init {}).2 = .ok figure

-- The first check that a class fails: itself, then its handlers, then its constructor.
inductive World.FirstFault (w : World) (c : ActorClass) (expected : ActorKind) :
    RegistrationError → Prop where
  | refused {e : RegistrationError} (h : w.Refuses c expected e) : FirstFault w c expected e
  | spoiled {e : RegistrationError} (hw : w.Welcomes c expected) (h : c.Spoiled e) :
      FirstFault w c expected e
  | fails {failure : Failure} (hw : w.Welcomes c expected)
      (hf : ∀ d ∈ c.handlers, d.Fits c.kind) (h : (c.init {}).2 = .error failure) :
      FirstFault w c expected (.constructor c.name failure.headline)

theorem refusal?_eq_none : refusal? w c expected = none ↔ w.Welcomes c expected := by
  constructor
  · intro hr
    obtain ⟨hname, hstage⟩ := World.Registered.accepted_of_refusal hr
    have hk : c.kind = expected := by
      by_contra hk
      simp [refusal?, hk] at hr
    exact ⟨hk, hname, fun hs => hstage (hk.trans hs)⟩
  · rintro ⟨rfl, hname, hstage⟩
    have hn : w.actorNamed? c.name = none :=
      List.find?_eq_none.2 fun a ha => by simpa using hname a ha
    have hs : c.kind = .stage → w.stage? = none := fun hk =>
      List.find?_eq_none.2 fun a ha => by simpa using hstage hk a ha
    simp only [refusal?, ne_eq, not_true, if_false, hn, Option.isSome_none, Bool.false_eq_true]
    split
    · rename_i hk
      rw [hs hk]
      rfl
    · rfl

theorem refusal?_eq_some (hw : w.Registered) :
    refusal? w c expected = some e ↔ w.Refuses c expected e := by
  unfold refusal?
  constructor
  · intro hr
    split at hr
    · rename_i hk
      cases hr
      exact .kind hk
    · rename_i hk
      have hk : c.kind = expected := by simpa using hk
      split at hr
      · rename_i hn
        cases hr
        obtain ⟨a, ha⟩ := Option.isSome_iff_exists.1 hn
        exact .name hk (List.mem_of_find?_eq_some ha) (by simpa using List.find?_some ha)
      · rename_i hn
        have hn : w.actorNamed? c.name = none := by simpa using hn
        split at hr
        · rename_i hs
          obtain ⟨a, ha, rfl⟩ := Option.map_eq_some_iff.1 hr
          exact .stage hk (fun b hb => by simpa using List.find?_eq_none.1 hn b hb) hs
            (List.mem_of_find?_eq_some ha) (by simpa using List.find?_some ha)
        · cases hr
  · rintro (hk | ⟨rfl, ha, hn⟩ | ⟨rfl, hn, hs, ha, has⟩)
    · exact if_pos hk
    · rename_i a
      have hfound : (w.actorNamed? c.name).isSome = true := by
        simpa [World.actorNamed?] using ⟨a, ha, hn⟩
      rw [if_neg (by simp), if_pos hfound]
    · rename_i a
      have hnone : w.actorNamed? c.name = none :=
        List.find?_eq_none.2 fun b hb => by simpa using hn b hb
      -- There is one stage at most, so it is the one that is found.
      have hstage : w.stage? = some a := by
        cases hb : w.stage? with
        | none => simpa [has] using List.find?_eq_none.1 hb a ha
        | some b =>
          have hbs : b.kind = .stage := by simpa using List.find?_some hb
          rw [hw.oneStage a ha b (List.mem_of_find?_eq_some hb) has hbs]
      rw [if_neg (by simp), hnone, if_neg (by simp), if_pos hs, hstage]
      rfl

namespace ActorClass

variable {ds front : List HandlerDeclaration} {groups : List HandlerGroup}

theorem triggerOf_eq_error : triggerOf kind d = .error e ↔ d.Spoils kind e := by
  unfold triggerOf
  constructor
  · intro h
    split at h
    · rename_i hd
      cases h
      exact .descriptor hd
    · rename_i hd
      split at h
      · cases h
      · rename_i hn
        cases h
        exact .trigger hd (by simpa using hn)
  · rintro (hd | ⟨hd, hn⟩)
    · rw [hd]
    · rw [hd]
      simp [hn]

theorem triggerOf_eq_ok : (∃ trigger, triggerOf kind d = .ok trigger) ↔ d.Fits kind := by
  unfold triggerOf
  constructor
  · rintro ⟨trigger, h⟩
    split at h
    · cases h
    · rename_i hd
      split at h
      · rename_i ha
        cases h
        exact ⟨_, hd, ha⟩
      · cases h
  · rintro ⟨trigger, hd, ha⟩
    exact ⟨trigger, by simp [hd, ha]⟩

theorem groupAll_append (ds : List HandlerDeclaration) (groups : List HandlerGroup)
    (hf : ∀ d ∈ front, d.Fits kind) :
    ∃ groups', groupAll kind (front ++ ds) groups = groupAll kind ds groups' := by
  induction front generalizing groups with
  | nil => exact ⟨groups, rfl⟩
  | cons d front ih =>
    obtain ⟨trigger, ht⟩ := triggerOf_eq_ok.2 (hf d List.mem_cons_self)
    obtain ⟨groups', hg⟩ := ih (HandlerGroup.add trigger d.handler groups)
      fun d hd => hf d (List.mem_cons_of_mem _ hd)
    refine ⟨groups', ?_⟩
    simp only [List.cons_append, groupAll, ht]
    exact hg

theorem fits_of_groupAll {result : List HandlerGroup} (h : groupAll kind ds groups = .ok result) :
    ∀ d ∈ ds, d.Fits kind := by
  induction ds generalizing groups with
  | nil => nofun
  | cons d ds ih =>
    simp only [groupAll] at h
    split at h
    · cases h
    · rename_i trigger ht
      rintro d' (_ | ⟨_, hd'⟩)
      · exact triggerOf_eq_ok.1 ⟨trigger, ht⟩
      · exact ih h d' hd'

theorem spoils_of_groupAll (h : groupAll kind ds groups = .error e) :
    ∃ front d back, ds = front ++ d :: back ∧ (∀ d ∈ front, d.Fits kind) ∧ d.Spoils kind e := by
  induction ds generalizing groups with
  | nil => cases h
  | cons d ds ih =>
    simp only [groupAll] at h
    split at h
    · rename_i ht
      cases h
      exact ⟨[], d, ds, rfl, fun _ hd => absurd hd List.not_mem_nil, triggerOf_eq_error.1 ht⟩
    · rename_i trigger ht
      obtain ⟨front, d', back, rfl, hf, he⟩ := ih h
      refine ⟨d :: front, d', back, rfl, ?_, he⟩
      rintro d'' (_ | ⟨_, hd⟩)
      · exact triggerOf_eq_ok.1 ⟨trigger, ht⟩
      · exact hf d'' hd

theorem groups_eq_error : c.groups = .error e ↔ c.Spoiled e := by
  constructor
  · intro h
    obtain ⟨front, d, back, hd, hf, he⟩ := spoils_of_groupAll h
    exact .mk hd hf he
  · rintro ⟨hd, hf, he⟩
    rename_i front back d
    obtain ⟨groups', hg⟩ := groupAll_append (d :: back) [] hf
    rw [groups, hd, hg, groupAll, triggerOf_eq_error.2 he]

theorem groups_eq_ok : (∃ groups, c.groups = .ok groups) ↔ ∀ d ∈ c.handlers, d.Fits c.kind := by
  constructor
  · rintro ⟨groups, h⟩
    exact fits_of_groupAll h
  · intro hf
    obtain ⟨groups', hg⟩ := groupAll_append [] [] hf
    rw [List.append_nil] at hg
    exact ⟨groups', hg⟩

end ActorClass

end Faults

namespace Project

variable {p q : Project} {c : ActorClass} {expected : ActorKind} {groups : List HandlerGroup}
  {figure : Figure}

-- What the constructor let be seen goes to the journal, whether it succeeds or not.
def seen (p : Project) (c : ActorClass) : List Entry :=
  ((c.init {}).1.map Entry.look).reverse ++ p.world.journal

-- How a registration goes: one of three ways to be turned down, or the whole of it.
inductive Settles (p : Project) (c : ActorClass) (expected : ActorKind) :
    Except ProjectError Nat × Project → Prop where
  | refused {e : RegistrationError} (h : p.world.Refuses c expected e) :
      Settles p c expected (.error (.registration e), p)
  | spoiled {e : RegistrationError} (hw : p.world.Welcomes c expected) (h : c.Spoiled e) :
      Settles p c expected (.error (.registration e),
        p.updateWorld fun w => { w with lastInstance := w.lastInstance + 1 })
  | fails {failure : Failure} (hw : p.world.Welcomes c expected)
      (hf : ∀ d ∈ c.handlers, d.Fits c.kind) (h : (c.init {}).2 = .error failure) :
      Settles p c expected (.error (.registration (.constructor c.name failure.headline)),
        p.updateWorld fun w => { w with lastInstance := w.lastInstance + 1, journal := p.seen c })
  | enrols {groups : List HandlerGroup} {figure : Figure} (ha : p.world.Admits c expected)
      (hg : c.groups = .ok groups) (h : (c.init {}).2 = .ok figure) :
      Settles p c expected (.ok p.world.actors.length, p.updateWorld fun w => { w with
        lastInstance := w.lastInstance + 1
        actors := w.actors ++ [actorOf c groups w.actors.length (w.lastInstance + 1)]
        instances := w.instances ++ [⟨w.lastInstance + 1, w.actors.length, none, figure⟩]
        journal := p.seen c })

theorem settles_register (hw : p.world.Registered) (c : ActorClass) (expected : ActorKind) :
    Settles p c expected (p.register c expected) := by
  unfold register
  cases hr : refusal? p.world c expected with
  | some e => exact .refused ((refusal?_eq_some hw).1 hr)
  | none =>
    have hwelcome := refusal?_eq_none.1 hr
    simp only [updateWorld, foldl_record_look]
    cases hg : c.groups with
    | error e => exact .spoiled hwelcome (ActorClass.groups_eq_error.1 hg)
    | ok groups =>
      have hfits := ActorClass.groups_eq_ok.1 ⟨groups, hg⟩
      dsimp only
      cases hi : (c.init {}).2 with
      | error failure => exact .fails hwelcome hfits hi
      | ok figure => exact .enrols ⟨hwelcome, hfits, figure, hi⟩ hg hi

theorem register_eq_ok (hw : p.world.Registered) {id : Nat} :
    (p.register c expected).1 = .ok id ↔
      p.world.Admits c expected ∧ id = p.world.actors.length := by
  have hs := settles_register hw c expected
  constructor
  · intro h
    generalize p.register c expected = result at h hs
    cases hs with
    | enrols ha hg hf =>
      cases h
      exact ⟨ha, rfl⟩
    | _ => cases h
  · rintro ⟨⟨hwelcome, hfits, figure, hi⟩, rfl⟩
    obtain ⟨groups, hg⟩ := ActorClass.groups_eq_ok.2 hfits
    unfold register
    simp only [refusal?_eq_none.2 hwelcome, hg, hi]
    simp only [updateWorld, foldl_record_look]

theorem register_eq_error (hw : p.world.Registered) {e : ProjectError} :
    (p.register c expected).1 = .error e ↔
      ∃ fault, e = .registration fault ∧ p.world.FirstFault c expected fault := by
  have hs := settles_register hw c expected
  constructor
  · intro h
    generalize p.register c expected = result at h hs
    cases hs with
    | enrols ha hg hf => cases h
    | refused hr =>
      cases h
      exact ⟨_, rfl, .refused hr⟩
    | spoiled hwelcome hd =>
      cases h
      exact ⟨_, rfl, .spoiled hwelcome hd⟩
    | fails hwelcome hf hi =>
      cases h
      exact ⟨_, rfl, .fails hwelcome hf hi⟩
  · rintro ⟨fault, rfl, hr | ⟨hwelcome, hd⟩ | ⟨hwelcome, hf, hi⟩⟩
    · simp only [register, (refusal?_eq_some hw).2 hr]
    · simp only [register, refusal?_eq_none.2 hwelcome, ActorClass.groups_eq_error.2 hd]
    · obtain ⟨groups, hg⟩ := ActorClass.groups_eq_ok.2 hf
      simp only [register, refusal?_eq_none.2 hwelcome, hg, hi]

section Lookups

variable {w : World} {name : String}

theorem actorNamed?_enrol (w : World) (c : ActorClass) (groups : List HandlerGroup)
    (figure : Figure) (name : String) : (w.enrol c groups figure).actorNamed? name =
      (w.actorNamed? name).or
        (if c.name = name then some (actorOf c groups w.actors.length (w.lastInstance + 1))
          else none) := by
  simp only [World.actorNamed?, World.enrol, List.find?_append]
  congr 1
  by_cases hn : c.name = name <;> simp [actorOf, hn]

theorem instance?_enrol (w : World) (c : ActorClass) (groups : List HandlerGroup)
    (figure : Figure) {id : Nat} (hid : id ≤ w.lastInstance) :
    (w.enrol c groups figure).instance? id = w.instance? id := by
  have hne : (w.lastInstance + 1 == id) = false := by
    simp only [beq_eq_false_iff_ne]
    omega
  simp only [World.instance?, World.enrol, List.find?_append, List.find?_singleton, hne]
  exact Option.or_none

theorem instance?_founder (hw : w.Registered) (c : ActorClass) (groups : List HandlerGroup)
    (figure : Figure) : (w.enrol c groups figure).instance? (w.lastInstance + 1) =
      some ⟨w.lastInstance + 1, w.actors.length, none, figure⟩ := by
  have hnone : w.instances.find? (·.id == w.lastInstance + 1) = none := by
    refine List.find?_eq_none.2 fun i hi hid => ?_
    have hle := hw.allocated i hi
    rw [beq_iff_eq.1 hid] at hle
    exact Nat.not_succ_le_self _ hle
  simp [World.instance?, World.enrol, hnone]

-- What there is under a name.
def listing (w : World) (name : String) : Option (Actor × List Instance) :=
  (w.actorNamed? name).map fun a => (a, a.instances.filterMap w.instance?)

theorem actor_eq_listing (p : Project) (name : String) : p.actor name =
    (listing p.world name).elim (.error (.unknownActor name)) fun found => .ok found.1 := by
  unfold actor listing
  cases p.world.actorNamed? name <;> rfl

theorem instancesOf_eq_listing (p : Project) (name : String) : p.instancesOf name =
    (listing p.world name).elim (.error (.unknownActor name)) fun found => .ok found.2 := by
  unfold instancesOf actor listing
  cases p.world.actorNamed? name <;> rfl

theorem listing_enrol_of_ne (hw : w.Registered) (hn : name ≠ c.name) :
    listing (w.enrol c groups figure) name = listing w name := by
  unfold listing
  rw [actorNamed?_enrol, if_neg (Ne.symm hn), Option.or_none]
  cases ha : w.actorNamed? name with
  | none => rfl
  | some a =>
    have hold : ∀ id ∈ a.instances,
        (w.enrol c groups figure).instance? id = w.instance? id := fun id hid => by
      obtain ⟨i, hi, rfl, -⟩ := (hw.members a (List.mem_of_find?_eq_some ha) id).1 hid
      exact instance?_enrol w c groups figure (hw.allocated i hi)
    rw [Option.map_some, Option.map_some, List.filterMap_congr hold]

theorem listing_enrol (hw : w.Registered) (hn : ∀ a ∈ w.actors, a.name ≠ c.name) :
    listing (w.enrol c groups figure) c.name =
      some (actorOf c groups w.actors.length (w.lastInstance + 1),
        [⟨w.lastInstance + 1, w.actors.length, none, figure⟩]) := by
  have hnone : w.actorNamed? c.name = none :=
    List.find?_eq_none.2 fun a ha => by simpa using hn a ha
  unfold listing
  rw [actorNamed?_enrol, hnone, if_pos rfl, Option.none_or, Option.map_some]
  simp only [actorOf, List.filterMap_cons, instance?_founder hw, List.filterMap_nil]

end Lookups

-- What comes of a registration as a whole: who is turned down and why, what is written, which
-- identity is given out, and what is found under each name afterwards.
structure Registers (κ : Conduct) (p : Project) (c : ActorClass) (expected : ActorKind)
    (result : Except ProjectError Nat) (q : Project) : Prop where
  accepts : ∀ {id : Nat}, result = .ok id ↔
    p.world.Admits c expected ∧ id = p.world.actors.length
  rejects : ∀ {e : ProjectError}, result = .error e ↔
    ∃ fault, e = .registration fault ∧ p.world.FirstFault c expected fault
  settles : Settles p c expected (result, q)
  unused : ∀ {m : Moment} {r : Project}, Moment.Reachable κ m → Changes (.under κ) m.project r →
    Changes (.under κ) r p → ∀ i ∈ r.world.instances, i.id < p.world.lastInstance + 1
  found : ∀ {id : Nat}, result = .ok id → ∃ a i, q.actor c.name = .ok a ∧
    q.instancesOf c.name = .ok [i] ∧ a.id = id ∧ a.instances = [a.founder] ∧
      a.founder = p.world.lastInstance + 1 ∧ i.id = a.founder ∧
        ∀ trigger, a.handlersFor trigger = c.declared trigger
  others : ∀ name, ((∃ id, result = .ok id) → name ≠ c.name) →
    q.actor name = p.actor name ∧ q.instancesOf name = p.instancesOf name

theorem Settles.found {result : Except ProjectError Nat} (hw : p.world.Registered)
    (h : Settles p c expected (result, q)) {id : Nat} (hr : result = .ok id) :
    ∃ a i, q.actor c.name = .ok a ∧ q.instancesOf c.name = .ok [i] ∧ a.id = id ∧
      a.instances = [a.founder] ∧ a.founder = p.world.lastInstance + 1 ∧ i.id = a.founder ∧
        ∀ trigger, a.handlersFor trigger = c.declared trigger := by
  cases h with
  | enrols ha hg hf =>
    rename_i groups figure
    cases hr
    let a := actorOf c groups p.world.actors.length (p.world.lastInstance + 1)
    have hl : listing (p.world.enrol c groups figure) c.name = _ := listing_enrol hw ha.name
    refine ⟨a, ⟨p.world.lastInstance + 1, p.world.actors.length, none, figure⟩, ?_, ?_, rfl, rfl,
      rfl, rfl, Actor.handlersFor_of_groups (a := a) hg⟩
    · rw [actor_eq_listing]
      exact congrArg (Option.elim · _ _) hl
    · rw [instancesOf_eq_listing]
      exact congrArg (Option.elim · _ _) hl
  | _ => cases hr

theorem Settles.others {result : Except ProjectError Nat} (hw : p.world.Registered)
    (h : Settles p c expected (result, q)) (name : String)
    (hn : (∃ id, result = .ok id) → name ≠ c.name) :
    q.actor name = p.actor name ∧ q.instancesOf name = p.instancesOf name := by
  have hl : listing q.world name = listing p.world name := by
    cases h with
    | enrols ha hg hf => exact listing_enrol_of_ne hw (hn ⟨_, rfl⟩)
    | _ => rfl
  simp only [actor_eq_listing, instancesOf_eq_listing, hl, and_self]

end Project

namespace Moment

variable {κ : Conduct} {m : Moment} {p : Project}

theorem Reachable.registration_whole (hm : Reachable κ m) (hq : Changes (.under κ) m.project p)
    (c : ActorClass) (expected : ActorKind) :
    Registers κ p c expected (p.register c expected).1 (p.register c expected).2 := by
  have hw := (hm.registered_indexed hq).1
  have hs := settles_register hw c expected
  refine ⟨register_eq_ok hw, register_eq_error hw, hs, fun hr hchanges hlast i hi => ?_, hs.found hw,
    hs.others hw⟩
  have hallocated := (hr.registered_indexed hchanges).1.allocated i hi
  have hle := hlast.precedes.lastInstance
  omega

-- The stage of a project that has a sprite is registered; a second ghost is turned down.
theorem haunted_registers :
    let p := haunted "boo" fun _ => .finish
    let stage : ActorClass := { name := "Stage", kind := .stage }
    (p.register stage .stage).1 = .ok 1 ∧
      Registers .any p stage .stage (p.register stage .stage).1 (p.register stage .stage).2 ∧
      Registers .any p (ghost fun _ => .finish) .sprite
        (.error (.registration (.duplicateClassName "Ghost"))) p := by
  intro p stage
  have hm : Reachable .any ⟨p, []⟩ :=
    reachable_haunted (fun _ => trivial) (fun _ _ _ => trivial) "boo"
  exact ⟨rfl, Reachable.registration_whole hm .refl stage .stage,
    Reachable.registration_whole hm .refl (ghost fun _ => .finish) .sprite⟩

end Moment

end SpriteStage

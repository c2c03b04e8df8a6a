import SpriteStage.Proofs.Stopping

namespace SpriteStage

section Declared

def HandlerDeclaration.on (trigger : Trigger) (d : HandlerDeclaration) : Option Handler :=
  match d.trigger with
  | .ok t => if t = trigger then some d.handler else none
  | .error _ => none

def ActorClass.declared (c : ActorClass) (trigger : Trigger) : List Handler :=
  c.handlers.filterMap (·.on trigger)

def HandlerGroup.under (trigger : Trigger) (groups : List HandlerGroup) : List Handler :=
  ((groups.find? fun g => g.trigger = trigger).map (·.handlers)).getD []

theorem HandlerGroup.under_add {trigger t : Trigger} {handler : Handler}
    {groups : List HandlerGroup} :
    under t (add trigger handler groups) =
      under t groups ++ if trigger = t then [handler] else [] := by
  induction groups with
  | nil =>
    by_cases ht : trigger = t
    · simp [add, under, ht]
    · simp [add, under, ht]
  | cons g rest ih =>
    unfold under at ih ⊢
    by_cases hg : g.trigger = trigger
    · by_cases ht : trigger = t
      · simp [add, hg, ht]
      · simp [add, hg, ht]
    · by_cases ht : g.trigger = t
      · have hne : trigger ≠ t := fun he => hg (ht.trans he.symm)
        simp [add, ht, hne, Ne.symm hne]
      · simp only [add, hg, if_false, List.find?_cons, decide_eq_false ht]
        exact ih

theorem ActorClass.under_groupAll {kind : ActorKind} {ds : List HandlerDeclaration}
    {groups result : List HandlerGroup} (h : groupAll kind ds groups = .ok result)
    (trigger : Trigger) :
    HandlerGroup.under trigger result =
      HandlerGroup.under trigger groups ++ ds.filterMap (·.on trigger) := by
  induction ds generalizing groups with
  | nil =>
    cases h
    exact (List.append_nil _).symm
  | cons d ds ih =>
    simp only [groupAll] at h
    split at h
    · cases h
    · rename_i t ht
      have hd : d.trigger = .ok t := by
        unfold triggerOf at ht
        split at ht
        · cases ht
        · rename_i t' hd
          split at ht
          · cases ht
            exact hd
          · cases ht
      rw [ih h, HandlerGroup.under_add, List.append_assoc, List.filterMap_cons]
      by_cases he : t = trigger
      · simp [HandlerDeclaration.on, hd, he]
      · simp [HandlerDeclaration.on, hd, he]

theorem Actor.handlersFor_of_groups {a : Actor} {c : ActorClass} (h : c.groups = .ok a.groups)
    (trigger : Trigger) : a.handlersFor trigger = c.declared trigger := by
  have hu := ActorClass.under_groupAll h trigger
  unfold handlersFor
  unfold HandlerGroup.under at hu
  cases hf : a.groups.find? fun g => g.trigger = trigger with
  | none =>
    rw [hf] at hu
    exact hu
  | some g =>
    rw [hf] at hu
    exact hu

end Declared

section Cast

theorem World.still_updateActor {id : Nat} {change : Actor → Actor} (w : World)
    (hc : ∀ a, (change a).still = a.still) :
    (w.updateActor id change).actors.map Actor.still = w.actors.map Actor.still := by
  rw [updateActor, List.map_map]
  refine List.map_congr_left fun a _ => ?_
  simp only [Function.comp]
  split
  · exact hc a
  · rfl

-- The cast only grows, by actors whose table is made from what their class declares.
theorem Project.Change.still {σ : Scope} {p q : Project} (h : Change σ p q) :
    ∃ news, q.world.actors.map Actor.still = p.world.actors.map Actor.still ++ news ∧
      ∀ a ∈ news, ∃ c : ActorClass, c.name = a.name ∧ c.kind = a.kind ∧
        c.groups = .ok a.groups := by
  have hsame : q.world.actors.map Actor.still = p.world.actors.map Actor.still →
      ∃ news, q.world.actors.map Actor.still = p.world.actors.map Actor.still ++ news ∧
        ∀ a ∈ news, ∃ c : ActorClass, c.name = a.name ∧ c.kind = a.kind ∧
          c.groups = .ok a.groups := fun he => by
    refine ⟨[], by rw [he, List.append_nil], fun a ha => ?_⟩
    cases ha
  cases h with
  | enrolled figure hr hg hc =>
    rename_i c kind groups
    refine ⟨[Project.actorOf c groups p.world.actors.length (p.world.lastInstance + 1)], ?_, ?_⟩
    · simp only [updateWorld, World.enrol, List.map_append]
      rfl
    · intro a ha
      obtain rfl := List.mem_singleton.1 ha
      exact ⟨c, rfl, rfl, hg⟩
  | placed hr hm =>
    rename_i source parent i a
    refine hsame ?_
    simp only [updateWorld, World.actors_place]
    exact World.still_updateActor _ fun _ => rfl
  | removed h =>
    rename_i id
    refine hsame ?_
    rcases World.deleteInstance_cases p.world id with he | ⟨i, hi, hc, he⟩
    · rw [updateWorld, he]
    · simp only [updateWorld, he, World.actors_remove]
      exact World.still_updateActor _ fun _ => rfl
  | aside h => exact hsame (congrArg _ h.world.actors)
  | dispatched trigger => exact hsame (congrArg _ (World.sameFolk_queueGroup _ _).actors)
  | dispatchedTo trigger owner => exact hsame (congrArg _ (World.sameFolk_queueGroup _ _).actors)
  | ended id => exact hsame (congrArg _ (sameFolk_endThread p id).actors)
  | launched h => exact hsame (congrArg _ (sameFolk_launch (p.updateWorld _) _).actors)
  | _ => exact hsame rfl

theorem Project.Changes.still {σ : Scope} {p q : Project} (h : Changes σ p q) :
    ∃ news, q.world.actors.map Actor.still = p.world.actors.map Actor.still ++ news ∧
      ∀ a ∈ news, ∃ c : ActorClass, c.name = a.name ∧ c.kind = a.kind ∧
        c.groups = .ok a.groups := by
  induction h with
  | refl => exact ⟨[], (List.append_nil _).symm, fun a ha => by cases ha⟩
  | tail _ hq ih =>
    obtain ⟨news, hn, hc⟩ := ih
    obtain ⟨more, hm, hd⟩ := hq.still
    refine ⟨news ++ more, by rw [hm, hn, List.append_assoc], fun a ha => ?_⟩
    exact (List.mem_append.1 ha).elim (hc a) (hd a)

end Cast

namespace World

variable {w w' : World}

-- What the green flag starts, each on the original of its actor.
def flagStarts (w : World) : List Start :=
  w.actors.flatMap fun a =>
    (a.handlersFor .greenFlag).map fun handler => ⟨a.id, a.founder, handler⟩

theorem flagStarts_congr (h : w'.actors.map Actor.still = w.actors.map Actor.still) :
    w'.flagStarts = w.flagStarts := by
  have hstill : ∀ w : World, w.flagStarts = (w.actors.map Actor.still).flatMap fun a =>
      (a.handlersFor .greenFlag).map fun handler => ⟨a.id, a.founder, handler⟩ := fun w => by
    rw [List.flatMap_map]
    rfl
  rw [hstill, hstill, h]

theorem starts_still (w : World) : w.still.starts .greenFlag = w.flagStarts := by
  unfold starts flagStarts still
  rw [List.flatMap_map]
  refine List.flatMap_congr fun a _ => ?_
  exact List.map_eq_flatMap.symm

end World

def World.Start.thread (s : World.Start) (rate group id : Nat) : Thread where
  id := id
  group := group
  actor := s.actor
  owner := s.owner
  label := s.handler.label
  mailbox := { rates := .new rate }
  body := .start (s.handler.body ⟨id, s.owner⟩)

namespace Project

variable {p q : Project}

theorem foldl_launch_of_live {starts : List World.Start} {group : Nat}
    (hl : ∀ s ∈ starts, p.world.isLive s.owner) :
    (starts.map fun s => (⟨group, s.actor, s.owner, s.handler⟩ : Spawn)).foldl launch p =
      { p with
        lastThread := p.lastThread + starts.length
        threads := p.threads ++ starts.mapIdx fun k s =>
          s.thread p.world.config.defaultLoopIterationsPerFrame group (p.lastThread + k + 1) } := by
  induction starts generalizing p with
  | nil => simp
  | cons s starts ih =>
    rw [List.map_cons, List.foldl_cons, launch_of_live (hl s List.mem_cons_self), ih]
    · simp only [List.mapIdx_cons, List.length_cons, List.append_assoc, List.singleton_append,
        Nat.add_zero, Nat.add_right_comm _ 1]
      rfl
    · exact fun s' hs' => hl s' (List.mem_cons_of_mem _ hs')

-- What the green flag leaves behind, by the counters from which it takes fresh identities.
def raised (p : Project) (thread group : Nat) : Project :=
  { p with
    lastThread := thread + p.world.flagStarts.length
    threads := p.world.flagStarts.mapIdx fun k s =>
      s.thread p.world.config.defaultLoopIterationsPerFrame (group + 1) (thread + k + 1)
    world := { p.world.still with
      lastGroup := if p.world.flagStarts.isEmpty then group else group + 1
      groups := if p.world.flagStarts.isEmpty then []
        else [⟨group + 1, p.world.flagStarts.length⟩] } }

theorem isLive_founder (hw : p.world.Registered) {s : World.Start} (hs : s ∈ p.world.flagStarts) :
    p.stilled.world.isLive s.owner := by
  obtain ⟨a, ha, hs⟩ := List.mem_flatMap.1 hs
  obtain ⟨k, -, rfl⟩ := List.mem_map.1 hs
  obtain ⟨i, hi, hid, hc⟩ := original_of_actor hw ha
  exact List.any_eq_true.2 ⟨i, mem_stilled hi hc, by simpa using hid⟩

theorem greenFlag_eq_raised (hw : p.world.Registered) :
    p.greenFlag = p.raised p.lastThread p.world.lastGroup := by
  unfold greenFlag launchAll World.dispatch raised
  rw [stopEverything_eq_stilled hw]
  simp only [updateWorld, stilled, World.starts_still, World.queueGroup]
  by_cases he : p.world.flagStarts = []
  · simp only [he, List.isEmpty_nil, if_true]
    rfl
  · have hne : p.world.flagStarts.isEmpty = false := by simpa using he
    have hspawns : p.world.still.spawns = [] := rfl
    simp only [hne, Bool.false_eq_true, if_false]
    rw [hspawns, List.nil_append]
    exact foldl_launch_of_live fun s hs => isLive_founder hw hs

theorem flagStarts_raised (p : Project) (thread group : Nat) :
    (p.raised thread group).world.flagStarts = p.world.flagStarts := by
  refine World.flagStarts_congr ?_
  simp only [raised, World.still, List.map_map]
  rfl

theorem still_raised (p : Project) (thread group : Nat) :
    (p.raised thread group).world.still =
      { (p.world.record (.bus .stop)).still with
        lastGroup := (p.raised thread group).world.lastGroup } := by
  have hclones : p.world.still.clones = [] := by simp [World.clones, World.still]
  have hactors : p.world.still.actors.map Actor.still = p.world.still.actors := by
    rw [World.still, List.map_map]
    rfl
  have hinstances : p.world.still.instances.filter (fun i => !i.isClone) =
      p.world.still.instances := by simp [World.still]
  have hall : ∀ {α : Type} (as : List α), as.filter (fun _ => true) = as := by simp
  calc
    (p.raised thread group).world.still
    _ = { p.world.still with
          actors := p.world.still.actors.map Actor.still
          instances := p.world.still.instances.filter fun i => !i.isClone
          watchers := p.world.still.watchers.filter fun k =>
            p.world.still.clones.all (·.id ≠ k.owner)
          gains := p.world.still.gains.filter fun g =>
            p.world.still.clones.all ((p.raised thread group).world.busOf ·.id ≠ g.1)
          lastGroup := (p.raised thread group).world.lastGroup
          journal := .bus .stop :: p.world.still.journal } := rfl
    _ = { (p.world.record (.bus .stop)).still with
          lastGroup := (p.raised thread group).world.lastGroup } := by
      simp only [hclones, hactors, hinstances, List.all_nil, hall]
      rfl

-- Nothing but the mix bus can tell a flag after a flag from a flag.
theorem raised_raised (p : Project) (thread group thread' group' : Nat) :
    (p.raised thread group).raised thread' group' =
      (p.updateWorld (·.record (.bus .stop))).raised thread' group' := by
  conv_lhs => rw [raised, still_raised, flagStarts_raised]
  rfl

theorem greenFlag_greenFlag (hw : p.world.Registered) :
    p.greenFlag.greenFlag = (p.updateWorld (·.record (.bus .stop))).raised
      p.greenFlag.lastThread p.greenFlag.world.lastGroup := by
  have hflag : p.greenFlag.world.Registered :=
    (changes_greenFlag (σ := .under .any) (fun _ => trivial) p).registered hw
  rw [greenFlag_eq_raised hflag]
  conv_lhs => rw [greenFlag_eq_raised hw]
  rw [raised_raised, ← greenFlag_eq_raised hw]

theorem flagStarts_register {c : ActorClass} {kind : ActorKind} {id : Nat}
    (h : p.register c kind = (.ok id, q)) :
    q.world.flagStarts = p.world.flagStarts ++
      (c.declared .greenFlag).map fun handler => ⟨id, p.world.lastInstance + 1, handler⟩ := by
  unfold register at h
  split at h
  · cases h
  · dsimp only at h
    split at h
    · cases h
    · rename_i groups hg
      simp only [updateWorld, foldl_record_look] at h
      split at h
      · cases h
      · rename_i figure hf
        cases h
        have htable : (actorOf c groups p.world.actors.length (p.world.lastInstance + 1)).handlersFor
            .greenFlag = c.declared .greenFlag := Actor.handlersFor_of_groups hg _
        simp only [World.flagStarts, List.flatMap_append, List.flatMap_singleton, htable]
        rfl

section Rate

theorem config_register (p : Project) (c : ActorClass) (kind : ActorKind) :
    (p.register c kind).2.world.config = p.world.config := by
  obtain ⟨actors, instances, last, journal, hq⟩ := register_writes p c kind
  rw [hq]

theorem config_loadAssets (p : Project) (loader : Loader) :
    (p.loadAssets loader).world.config = p.world.config := by
  rw [loadAssets_eq, poll_eq]

theorem config_dispatched (p : Project) (trigger : Trigger) :
    (p.updateWorld fun w => (w.dispatch trigger).2).launchAll.world.config = p.world.config :=
  ((enlists_queueGroup p.world _).trans (enlists_launchAll _)).sameTerms.config

theorem config_stopEverything (p : Project) : p.stopEverything.world.config = p.world.config :=
  (sameTerms_removeClones p.world).config

theorem rate_apply (op : Operation) (p : Project) :
    (op.apply p).world.config.defaultLoopIterationsPerFrame =
      p.world.config.defaultLoopIterationsPerFrame := by
  cases op with
  | register c kind => exact congrArg _ (config_register p c kind)
  | broadcast message => exact congrArg _ (config_dispatched p _)
  | greenFlag => exact congrArg _ ((config_dispatched _ _).trans (config_stopEverything p))
  | redStop => exact congrArg _ (config_stopEverything p)
  | answer text =>
    simp only [Operation.apply, answerQuestion]
    split <;> rfl
  | loadAssets loader => exact congrArg _ (config_loadAssets p loader)
  | poll => exact congrArg _ (sameTerms_poll p).config
  | _ => rfl

end Rate

end Project

namespace Moment

open Project

variable {κ : Conduct} {m m' : Moment} {p q : Project}

theorem Reachable.rate_of_steps (hm : Reachable κ m) (hs : Relation.ReflTransGen (Step κ) m m') :
    m'.project.world.config.defaultLoopIterationsPerFrame =
      m.project.world.config.defaultLoopIterationsPerFrame := by
  induction hs with
  | refl => rfl
  | tail hpr hq ih =>
    refine Eq.trans ?_ ih
    cases hq with
    | operate h => exact rate_apply _ _
    | frame => exact congrArg _ (sameTerms_prepare _).config
    | turn h => exact congrArg _ ((hm.steps hpr).passes h).config

theorem Reachable.declared_of_changes (hm : Reachable κ m) (hq : Changes (.under κ) m.project q)
    {a : Actor} (ha : a ∈ q.world.actors) :
    ∃ c : ActorClass, c.name = a.name ∧ c.kind = a.kind ∧
      ∀ trigger, a.handlersFor trigger = c.declared trigger := by
  obtain ⟨p₀, hb, -, hc⟩ := hm.origin
  obtain ⟨news, hn, hnews⟩ := Changes.still (hc.trans hq)
  rw [hb.world.actors] at hn
  have hmem : a.still ∈ news := by
    have hstill := List.mem_map_of_mem (f := Actor.still) ha
    rwa [hn] at hstill
  obtain ⟨c, hname, hkind, hgroups⟩ := hnews _ hmem
  exact ⟨c, hname, hkind, Actor.handlersFor_of_groups (a := a) hgroups⟩

theorem Reachable.declared (hm : Reachable κ m) {a : Actor} (ha : a ∈ m.project.world.actors) :
    ∃ c : ActorClass, c.name = a.name ∧ c.kind = a.kind ∧
      ∀ trigger, a.handlersFor trigger = c.declared trigger :=
  hm.declared_of_changes .refl ha

theorem Reachable.flagStarts_of_steps (hm : Reachable κ m)
    (hs : Relation.ReflTransGen (Step κ) m m')
    (hl : m'.project.world.actors.length = m.project.world.actors.length) :
    m'.project.world.flagStarts = m.project.world.flagStarts := by
  obtain ⟨news, hn, -⟩ := (hm.changes_of_steps hs).still
  have hlen := congrArg List.length hn
  rw [List.length_append, List.length_map, List.length_map, hl] at hlen
  have hnil : news = [] := List.length_eq_zero_iff.1 (by omega)
  rw [hnil, List.append_nil] at hn
  exact World.flagStarts_congr hn

structure Quiesces (κ : Conduct) (p : Project) : Prop where
  redStop : p.stopEverything = p.stilled ∧ Stilled p p.stilled
  anyOrder : ∀ {is : List Instance}, is.Perm p.world.clones → p.stopIn is = p.stopEverything
  frame : ∀ {laps id : Nat} {before after earlier : List Nat} {r last : Project},
    p.prepare.threads.map (·.id) = before ++ id :: after →
      pass? laps before p.prepare = some (earlier, r) → Stops laps r id last →
        p.frame? laps = some (earlier ++ [id], last.stilled) ∧ Stilled last last.stilled ∧
          ∀ {is : List Instance}, is.Perm last.world.clones → last.stopIn is = last.stilled
  greenFlag : p.greenFlag = p.raised p.lastThread p.world.lastGroup
  declared : ∀ a ∈ p.world.actors, ∃ c : ActorClass, c.name = a.name ∧ c.kind = a.kind ∧
    ∀ trigger, a.handlersFor trigger = c.declared trigger
  registered : ∀ {c : ActorClass} {kind : ActorKind} {id : Nat} {q : Project},
    p.register c kind = (.ok id, q) → q.world.flagStarts = p.world.flagStarts ++
      (c.declared .greenFlag).map fun handler => ⟨id, p.world.lastInstance + 1, handler⟩
  again : p.greenFlag.greenFlag = (p.updateWorld (·.record (.bus .stop))).raised
    p.greenFlag.lastThread p.greenFlag.world.lastGroup
  whenever : ∀ {q : Project}, Relation.ReflTransGen (Step κ) ⟨p, []⟩ ⟨q, []⟩ →
    q.world.actors.length = p.world.actors.length →
      q.greenFlag.threads = (p.raised q.lastThread q.world.lastGroup).threads ∧
        q.greenFlag.world.groups = (p.raised q.lastThread q.world.lastGroup).world.groups

theorem Reachable.stop_quiesces (hm : Reachable κ ⟨p, []⟩) : Quiesces κ p where
  redStop := ⟨stopEverything_eq_stilled hm.registered, stilled_stilled hm.registered⟩
  anyOrder h := by
    rw [stopIn_eq_stilled hm.registered h, stopEverything_eq_stilled hm.registered]
  frame hids hb hs := by
    obtain ⟨hframe, hlast⟩ := hm.frame_of_stops hids hb hs
    exact ⟨hframe, stilled_stilled hlast, stopIn_eq_stilled hlast⟩
  greenFlag := greenFlag_eq_raised hm.registered
  declared a ha := hm.declared ha
  registered h := flagStarts_register h
  again := greenFlag_greenFlag hm.registered
  whenever {q} hq hl := by
    have hreg := (hm.steps hq).registered
    have hstarts : q.world.flagStarts = p.world.flagStarts := hm.flagStarts_of_steps hq hl
    have hrate : q.world.config.defaultLoopIterationsPerFrame =
        p.world.config.defaultLoopIterationsPerFrame := hm.rate_of_steps hq
    rw [greenFlag_eq_raised hreg]
    constructor
    · simp only [raised, hstarts, hrate]
    · simp only [raised, hstarts]

-- The clone of the scare stops everything in its first frame, itself included.
theorem haunted_quiesces :
    let p := (haunted "boo" fun _ => .pause .stopAll fun _ => .finish).prepare.turned 1
    ∃ last, p.world.instances.map (·.id) = [1, 2] ∧ p.frame? 1 = some ([2], last.stilled) ∧
      Stilled last last.stilled ∧ last.stilled.world.instances.map (·.id) = [1] ∧
      Quiesces .any p := by
  intro p
  have hstart : Reachable .any ⟨(haunted "boo" fun _ => .pause .stopAll fun _ => .finish).prepare,
      [1]⟩ :=
    (reachable_haunted (fun _ => trivial) (fun _ _ _ => trivial) "boo").step .frame
  have hscare : ((haunted "boo" fun _ => .pause .stopAll fun _ => .finish).prepare.turn? 1 1).map
      (·.1) = some true := rfl
  have hm : Reachable .any ⟨p, []⟩ := hstart.turned hscare
  obtain ⟨last, hstops, hleft⟩ : ∃ last, Stops 1 p.prepare 2 last ∧
      last.stilled.world.instances.map (·.id) = [1] := ⟨_, .mk rfl rfl rfl rfl, rfl⟩
  have hids : p.prepare.threads.map (·.id) = [] ++ 2 :: [] := rfl
  have hall := Reachable.stop_quiesces hm
  obtain ⟨hframe, hstilled, -⟩ := hall.frame hids rfl hstops
  exact ⟨last, rfl, hframe, hstilled, hleft, hall⟩

end Moment

end SpriteStage

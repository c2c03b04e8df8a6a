import SpriteStage.Proofs.Ledger

namespace SpriteStage

open Project

def Load.key (l : Load) : AssetKind × String := (l.kind, l.locator)

namespace Project

variable {p q : Project} {laps id : Nat}

section Stock

theorem Enlists.assets {w w' : World} (h : Enlists w w') : w'.assets = w.assets := by
  obtain ⟨_, _, _, _, _, rfl⟩ := h
  rfl

theorem assets_deleteInstance (w : World) (id : Nat) :
    (w.deleteInstance id).2.assets = w.assets := by
  rcases w.deleteInstance_cases id with he | ⟨i, -, -, he⟩ <;> rw [he]
  rfl

theorem assets_endThread (p : Project) (id : Nat) :
    (p.endThread id).world.assets = p.world.assets := by
  obtain ⟨groups, questions, hw, -⟩ := world_endThread p id
  rw [hw]

theorem assets_stopEverything (p : Project) : p.stopEverything.world.assets = p.world.assets :=
  foldl_keeps World.assets (fun w (i : Instance) => assets_deleteInstance w i.id) _ p.world

theorem assets_settle (p : Project) : p.settle.world.assets = p.world.assets := by
  rcases settle_cases p with hstop | ⟨groups, questions, hw⟩
  · rw [hstop]
    exact assets_stopEverything p
  · rw [hw]

theorem assets_leave (p : Project) (t : Thread) (r : Resumption) :
    (p.leave t r).world.assets = p.world.assets := by
  obtain ⟨groups, questions, errors, hw⟩ := world_leave p t r
  rw [hw]

theorem assets_begin (p : Project) (h : Handle) (wait : Wait) :
    (p.begin h wait).2.world.assets = p.world.assets := by
  have ho := p.opens_begin h wait
  generalize (p.begin h wait).2.world = w at ho
  cases ho with
  | sends => exact (enlists_queueGroup _ _).assets
  | deletes => exact assets_deleteInstance _ _
  | _ => rfl

theorem assets_answer (c : Call) (p : Project) :
    (p.answer c).2.world.assets = p.world.assets := by
  cases c with
  | request h r =>
    rw [world_request]
    split
    · rename_i w ha
      cases World.grants_of_answer ha with
      | sends => exact (enlists_queueGroup _ _).assets
      | clones hr hm => exact (enlists_queueGroup _ _).assets
      | _ => rfl
    · rfl
  | start h wait =>
    rw [world_start]
    exact assets_begin p h wait
  | _ => rfl

theorem assets_perform (p : Project) (e : Exchange) :
    (p.perform e).world.assets = p.world.assets := by
  cases e with
  | call c => exact assets_answer c p
  | pause h wait =>
    rw [world_pause]
    exact assets_begin p h wait

theorem assets_turn {resumed : Bool} (h : p.turn? laps id = some (resumed, q)) :
    q.world.assets = p.world.assets := by
  cases ran_of_turn? h with
  | passed hd => rw [world_readiness]
  | orphaned hd => rw [assets_endThread, world_readiness]
  | resumed ht he =>
    have hran := foldl_keeps (fun p : Project => p.world.assets) assets_perform (p.turnExchanges laps id)
      (p.turnStart id)
    rw [assets_settle, assets_leave]
    exact hran.trans (by rw [world_turnStart])

theorem assets_register (p : Project) (c : ActorClass) (kind : ActorKind) :
    (p.register c kind).2.world.assets = p.world.assets := by
  obtain ⟨actors, instances, last, journal, hq⟩ := register_writes p c kind
  rw [hq]

theorem assets_dispatched (p : Project) (trigger : Trigger) :
    (p.updateWorld fun w => (w.dispatch trigger).2).launchAll.world.assets = p.world.assets :=
  ((enlists_queueGroup p.world _).trans (enlists_launchAll _)).assets

end Stock

section Wanting

def Declares (p : Project) (key : AssetKind × String) : Prop :=
  ∃ a ∈ p.world.actors, (∃ c ∈ a.costumes, key = (.image, c.locator)) ∨
    ∃ s ∈ a.sounds, key = (.sound, s.locator)

theorem nodup_eraseDups {α : Type} [BEq α] [LawfulBEq α] (as : List α) : as.eraseDups.Nodup := by
  match as with
  | [] => exact List.nodup_nil
  | a :: as =>
    rw [List.eraseDups_cons]
    refine List.nodup_cons.2 ⟨fun ha => ?_, nodup_eraseDups _⟩
    rw [List.mem_eraseDups] at ha
    simpa using (List.mem_filter.1 ha).2
termination_by as.length
decreasing_by exact Nat.lt_succ_of_le (List.length_filter_le _ _)

theorem nodup_wanted (p : Project) : p.wanted.Nodup := nodup_eraseDups _

theorem mem_wanted {key : AssetKind × String} :
    key ∈ p.wanted ↔ p.Declares key ∧ p.world.assets.lookup key = none := by
  have hkey {α : Type} (f : α → AssetKind × String) (as : List α) :
      key ∈ as.map f ↔ ∃ a ∈ as, key = f a := by
    simp only [List.mem_map, eq_comm]
  simp only [wanted, List.mem_eraseDups, List.mem_filter, List.mem_flatMap, List.mem_append, hkey,
    Option.isNone_iff_eq_none, Declares]

-- Nothing has been asked for, so nothing has come.
structure Bare (p : Project) : Prop where
  loads : p.loads = []
  assets : p.world.assets = []

end Wanting

end Project

namespace Event

-- The loads that loaders give for what an event asks them for.
def asks : Event → Project → List Load
  | .operate (.loadAssets loader), p => p.wanted.map fun key => loader key.1 key.2
  | _, _ => []

-- The loads that have come to an end when an event looks at them.
def settles (e : Event) (p : Project) : List Load :=
  ((e.looksAt? p).getD []).filter (·.result?.isSome)

end Event

namespace Moment

variable {κ : Conduct} {m n : Moment} {p : Project} {e : Event} {events : List Event}

def collected {α : Type} (f : Event → Project → List α) : List Event → Moment → List α
  | [], _ => []
  | e :: events, m => f e m.project ++ (m.act? e).elim [] (collected f events)

section Steps

theorem keys_onOldest {change : Load → Load} (hc : ∀ l, (change l).key = l.key) (kind : AssetKind)
    (locator : String) (loads : List Load) :
    (onOldest kind locator change loads).map Load.key = loads.map Load.key := by
  induction loads with
  | nil => rfl
  | cons l loads ih =>
    simp only [onOldest]
    split
    · rw [List.map_cons, List.map_cons, hc]
    · rw [List.map_cons, List.map_cons, ih]

theorem keys_answers (e : Event) (loads : List Load) :
    (e.answers loads).map Load.key = loads.map Load.key := by
  have hanswer (outcome : Outcome) (l : Load) : (l.answer outcome).abandon.key = l.key := by
    unfold Load.answer
    split <;> rfl
  cases e with
  | operate op =>
    cases op with
    | completeLoad kind locator outcome => exact keys_onOldest (hanswer outcome) kind locator loads
    | abandonLoad kind locator =>
      have habandon (l : Load) : l.abandon.key = l.key := rfl
      exact keys_onOldest habandon kind locator loads
    | _ => rfl
  | _ => rfl

theorem asks_of_looksAt? {loads : List Load} (h : e.looksAt? p = some loads) :
    loads = p.loads ++ e.asks p := by
  cases e with
  | operate op =>
    cases op with
    | loadAssets loader => exact (Option.some.inj h).symm
    | poll => exact (Option.some.inj h).symm.trans (List.append_nil _).symm
    | _ => cases h
  | frame => exact (Option.some.inj h).symm.trans (List.append_nil _).symm
  | turn laps => cases h

theorem asks_of_not_looksAt? (h : e.looksAt? p = none) : e.asks p = [] := by
  cases e with
  | operate op =>
    cases op with
    | loadAssets loader => cases h
    | _ => rfl
  | _ => rfl

-- Whatever has been asked for is open, or it has come to an end once.
theorem act?_settles (h : m.act? e = some n) :
    ((e.asks m.project ++ m.project.loads).map Load.key).Perm
      ((e.settles m.project ++ n.project.loads).map Load.key) := by
  rw [act?_loads h]
  unfold Event.settles
  cases hl : e.looksAt? m.project with
  | none =>
    rw [asks_of_not_looksAt? hl]
    simp only [Option.getD_none, Option.elim_none, List.filter_nil, List.nil_append]
    rw [keys_answers]
  | some loads =>
    obtain rfl := asks_of_looksAt? hl
    refine List.Perm.map _ (List.perm_append_comm.trans ?_)
    have hparts := List.filter_append_perm (fun l : Load => l.result?.isSome)
      (m.project.loads ++ e.asks m.project)
    simp only [Option.getD_some, Option.elim_some]
    refine hparts.symm.trans (List.Perm.of_eq ?_)
    congr 2
    funext l
    cases l.result? <;> rfl

theorem filterMap_settled {α : Type} {f : Load → Option α} (hf : ∀ l, l.result? = none → f l = none)
    (loads : List Load) :
    (loads.filter (·.result?.isSome)).filterMap f = loads.filterMap f := by
  rw [List.filterMap_filter]
  refine List.filterMap_congr fun l _ => ?_
  cases hl : l.result? with
  | none => exact (hf l hl).symm
  | some outcome => rfl

theorem asset?_of_open {l : Load} (h : l.result? = none) : l.asset? = none := by
  simp only [Load.asset?, h]

theorem report?_of_open {l : Load} (h : l.result? = none) : l.report? = none := by
  simp only [Load.report?, h]

theorem origin_of_report? {l : Load} {r : Report} (h : l.report? = some r) : r.origin = .asset := by
  unfold Load.report? at h
  split at h <;> cases h
  rfl

theorem origin_of_failures {laps id : Nat} {r : Report} (h : r ∈ p.failures laps id) :
    r.origin ≠ .asset := by
  unfold failures at h
  split at h
  · obtain rfl := List.mem_singleton.1 h
    nofun
  · cases h

-- What threads report does not count among the failures of loads, and every failed load does, once.
theorem occurred_assets (e : Event) (m : Moment) :
    (e.occurred m).filter (·.origin = .asset) = (e.settles m.project).filterMap Load.report? := by
  unfold Event.occurred Event.settles
  cases hl : e.looksAt? m.project with
  | some loads =>
    simp only [Option.getD_some]
    rw [filterMap_settled fun _ => report?_of_open]
    refine List.filter_eq_self.2 fun r hr => ?_
    obtain ⟨l, -, hreport⟩ := List.mem_filterMap.1 hr
    exact decide_eq_true (origin_of_report? hreport)
  | none =>
    simp only [Option.getD_none, List.filter_nil, List.filterMap_nil]
    split
    · rename_i heq
      cases heq
    · exact List.filter_eq_nil_iff.2 fun r hr => by simpa using origin_of_failures hr
    · rfl

theorem assets_apply (op : Operation) (p : Project) : (op.apply p).world.assets =
    (((Event.operate op).settles p).filterMap Load.asset?).reverse ++ p.world.assets := by
  cases op with
  | register c kind => exact assets_register p c kind
  | broadcast message => exact assets_dispatched p (.message message)
  | greenFlag =>
    exact (assets_dispatched p.stopEverything .greenFlag).trans (assets_stopEverything p)
  | redStop => exact assets_stopEverything p
  | answer text =>
    simp only [Operation.apply, answerQuestion]
    split <;> rfl
  | loadAssets loader =>
    simp only [Operation.apply, loadAssets_eq, poll_eq, Event.settles, Event.looksAt?,
      Option.getD_some, filterMap_settled fun _ => asset?_of_open]
  | poll =>
    simp only [Operation.apply, poll_eq, Event.settles, Event.looksAt?, Option.getD_some,
      filterMap_settled fun _ => asset?_of_open]
  | _ => rfl

theorem assets_prepare (p : Project) : p.prepare.world.assets =
    ((Event.frame.settles p).filterMap Load.asset?).reverse ++ p.world.assets := by
  refine (enlists_launchInput _).assets.trans ?_
  simp only [poll_eq, Event.settles, Event.looksAt?, Option.getD_some,
    filterMap_settled fun _ => asset?_of_open]

theorem act?_assets (h : m.act? e = some n) : n.project.world.assets =
    ((e.settles m.project).filterMap Load.asset?).reverse ++ m.project.world.assets := by
  obtain ⟨p, ids⟩ := m
  cases e with
  | operate op =>
    cases ids with
    | cons id ids => cases h
    | nil =>
      cases h
      exact assets_apply op p
  | frame =>
    cases ids with
    | cons id ids => cases h
    | nil =>
      cases h
      exact assets_prepare p
  | turn laps =>
    cases ids with
    | nil => cases h
    | cons id ids =>
      obtain ⟨⟨resumed, q⟩, hq, rfl⟩ := Option.map_eq_some_iff.1 h
      exact assets_turn hq

end Steps

section Runs

theorem acts?_settles (h : m.acts? events = some n) :
    ((collected Event.asks events m ++ m.project.loads).map Load.key).Perm
      ((collected Event.settles events m ++ n.project.loads).map Load.key) := by
  induction events generalizing m with
  | nil =>
    cases h
    exact .refl _
  | cons e events ih =>
    obtain ⟨mid, hmid, hn⟩ := Option.bind_eq_some_iff.1 h
    refine List.perm_iff_count.2 fun key => ?_
    have hstep := (act?_settles hmid).count_eq key
    have hrest := (ih hn).count_eq key
    simp only [collected, hmid, Option.elim_some, List.map_append, List.count_append] at hstep hrest ⊢
    omega

theorem acts?_assets (h : m.acts? events = some n) : n.project.world.assets =
    ((collected Event.settles events m).filterMap Load.asset?).reverse ++
      m.project.world.assets := by
  induction events generalizing m with
  | nil =>
    cases h
    rfl
  | cons e events ih =>
    obtain ⟨mid, hmid, hn⟩ := Option.bind_eq_some_iff.1 h
    simp only [collected, hmid, Option.elim_some, List.filterMap_append, List.reverse_append]
    rw [ih hn, act?_assets hmid, List.append_assoc]

theorem gathered_assets (events : List Event) (m : Moment) :
    (gathered Event.occurred events m).filter (·.origin = .asset) =
      (collected Event.settles events m).filterMap Load.report? := by
  induction events generalizing m with
  | nil => rfl
  | cons e events ih =>
    simp only [gathered, collected, List.filter_append, List.filterMap_append, occurred_assets]
    refine congrArg _ ?_
    cases m.act? e with
    | none => rfl
    | some mid => exact ih mid

theorem lookup_reverse_eq_none {key : AssetKind × String}
    (stock : List ((AssetKind × String) × Asset)) :
    stock.reverse.lookup key = none ↔ key ∉ stock.map (·.1) := by
  rw [List.lookup_eq_none_iff, List.mem_map]
  constructor
  · rintro h ⟨entry, hentry, rfl⟩
    simpa using h entry (List.mem_reverse.2 hentry)
  · intro h entry hentry
    exact bne_iff_ne.2 fun hkey => h ⟨entry, List.mem_reverse.1 hentry, hkey.symm⟩

theorem acts?_append {front back : List Event} (h : m.acts? (front ++ back) = some n) :
    ∃ mid, m.acts? front = some mid ∧ mid.acts? back = some n := by
  induction front generalizing m with
  | nil => exact ⟨m, rfl, h⟩
  | cons e front ih =>
    obtain ⟨next, hnext, hn⟩ := Option.bind_eq_some_iff.1 h
    obtain ⟨mid, hfront, hback⟩ := ih hn
    exact ⟨mid, Option.bind_eq_some_iff.2 ⟨next, hnext, hfront⟩, hback⟩

end Runs

theorem bare_of_new {config : Config} (p : Project) (h : Project.new config = .ok p) : p.Bare := by
  unfold Project.new at h
  cases hc : config.check with
  | error e => rw [hc] at h; cases h
  | ok _ =>
    rw [hc] at h
    cases h
    exact ⟨rfl, rfl⟩

theorem bare_answer (query : Script.Query) (l : Script.Loading) (hl : l.project.Bare) :
    (Script.Loading.answer query l).2.project.Bare := by
  cases query with
  | call c awaits =>
    exact ⟨(within_perform l.project (.call c)).loads.trans hl.loads,
      (assets_answer c l.project).trans hl.assets⟩
  | declare d => exact hl
  | limitLoops max => exact ⟨hl.loads, hl.assets⟩
  | countLoop =>
    have hn : l.project.noteImportLoop.2.Bare := ⟨hl.loads, hl.assets⟩
    simp only [Script.Loading.answer]
    split
    · rename_i heq
      rwa [heq] at hn
    · rename_i heq
      rwa [heq] at hn

theorem Start.bare (h : Start κ p) : p.Bare := by
  cases h with
  | new h bus hl =>
    obtain ⟨hloads, hassets⟩ := bare_of_new _ h
    exact ⟨hloads, hassets⟩
  | script h hl hj =>
    refine load_induction (J := Bare) (I := Bare) bare_of_new bare_answer
      (fun _ _ hp => ⟨hp.loads, hp.assets⟩)
      (fun p c kind _ hp => ?_) h
    exact ⟨(within_register p c kind).loads.trans hp.loads,
      (assets_register p c kind).trans hp.assets⟩

-- What a run asks of loaders, and what comes of it: a call asks for what is declared and has not come
-- by then, each once; every load comes to an end once at most; and the reports of loads are one for
-- each that failed.
structure Requests (p : Project) (events : List Event) (n : Moment) : Prop where
  asked : ∀ {front back : List Event} {loader : Loader},
    events = front ++ .operate (.loadAssets loader) :: back →
      ∃ m, acts? front ⟨p, []⟩ = some m ∧ m.project.wanted.Nodup ∧
        ∀ key, key ∈ m.project.wanted ↔ m.project.Declares key ∧
          key ∉ ((collected Event.settles front ⟨p, []⟩).filterMap Load.asset?).map (·.1)
  ended : ((collected Event.asks events ⟨p, []⟩).map Load.key).Perm
    ((collected Event.settles events ⟨p, []⟩ ++ n.project.loads).map Load.key)
  reported : (gathered Event.taken events ⟨p, []⟩ ++ n.project.world.errors).filter
      (·.origin = .asset) =
    (collected Event.settles events ⟨p, []⟩).filterMap Load.report?

theorem Start.requests (hs : Start κ p) (h : acts? events ⟨p, []⟩ = some n) :
    Requests p events n := by
  refine ⟨fun {front back loader} hevents => ?_, ?_, ?_⟩
  · obtain ⟨m, hfront, -⟩ := acts?_append (hevents ▸ h)
    refine ⟨m, hfront, nodup_wanted _, fun key => ?_⟩
    rw [mem_wanted, acts?_assets hfront, hs.bare.assets, List.append_nil, lookup_reverse_eq_none]
  · have hperm := acts?_settles h
    rwa [hs.bare.loads, List.append_nil] at hperm
  · rw [acts?_errors h, hs.errors, List.nil_append, gathered_assets]

def phantom : ActorClass :=
  { name := "Ghost", kind := .sprite, costumes := [⟨"boo", "boo.png", 0.0, 0.0⟩] }

def loadedTwice (loader : Loader) : List Event :=
  [.operate (.register phantom .sprite), .operate (.loadAssets loader), .operate (.loadAssets loader)]

-- There is no image, which is found out at once or later.
def absent : Loader := ({} : Catalogue).loader []

def awaited : Loader := ({} : Catalogue).loader ["boo.png"]

theorem start_empty : Start .any {} := by
  have hnew : Project.new {} = .ok {} := rfl
  exact .new hnew {} fun _ _ _ => trivial

theorem phantom_requests : ∃ n, acts? (loadedTwice absent) ⟨{}, []⟩ = some n ∧
    Requests {} (loadedTwice absent) n :=
  ⟨_, rfl, Start.requests start_empty rfl⟩

theorem phantom_requested_twice :
    let image := (AssetKind.image, "boo.png")
    let failure : Report := ⟨.asset, "could not load image \"boo.png\""⟩
    Start .any {} ∧
      (∃ n, acts? (loadedTwice absent) ⟨{}, []⟩ = some n ∧
        (collected Event.asks (loadedTwice absent) ⟨{}, []⟩).map Load.key = [image, image] ∧
          n.project.world.errors = [failure, failure]) ∧
      ∃ n, acts? (loadedTwice awaited) ⟨{}, []⟩ = some n ∧
        (collected Event.asks (loadedTwice awaited) ⟨{}, []⟩).map Load.key = [image, image] ∧
          n.project.loads.map Load.key = [image, image] :=
  ⟨start_empty, ⟨_, rfl, rfl, rfl⟩, _, rfl, rfl, rfl⟩

end Moment

end SpriteStage

import SpriteStage.Proofs.Fixture
import SpriteStage.Proofs.Pointing

namespace SpriteStage

open Project

namespace Keyboard

variable {k : Keyboard} {name other : String}

theorem isHeld_press_eq (k : Keyboard) (name other : String) :
    (k.press name).isHeld other = if name = other then true else k.isHeld other := by
  unfold press isHeld
  split
  · rename_i hh
    split
    · rename_i he
      rw [← he, hh]
    · rfl
  · rw [List.contains_cons]
    by_cases he : name = other
    · rw [if_pos he, he, beq_self_eq_true, Bool.true_or]
    · rw [if_neg he, beq_eq_false_iff_ne.2 (Ne.symm he), Bool.false_or]

theorem isHeld_release_eq (k : Keyboard) (name other : String) :
    (k.release name).isHeld other = if name = other then false else k.isHeld other := by
  by_cases he : name = other
  · rw [if_pos he, ← he]
    exact k.isHeld_release name
  · rw [if_neg he, release, isHeld, isHeld, Bool.eq_iff_iff, List.contains_iff_mem,
      List.contains_iff_mem, List.mem_filter, decide_eq_true_iff]
    exact and_iff_left (Ne.symm he)

theorem fresh_press (k : Keyboard) (name : String) :
    (k.press name).fresh = k.fresh ++ if k.isHeld name then [] else [name] := by
  unfold press isHeld
  split
  · exact (List.append_nil _).symm
  · rfl

end Keyboard

namespace Event

variable {e : Event}

-- Which way a key goes with an event, if the event is about that key.
def touch? (name : String) : Event → Option Bool
  | .operate (.press other) => if other = name then some true else none
  | .operate (.release other) => if other = name then some false else none
  | _ => none

-- A key is held when what was done to it last was to press it.
def held (events : List Event) (name : String) : Bool :=
  (events.filterMap (touch? name)).getLastD false

def strikes (past : List Event) : Event → List String
  | .operate (.press name) => if held past name then [] else [name]
  | _ => []

-- The keys that go down from up, one after the other, in what follows a past.
def struck : List Event → List Event → List String
  | _, [] => []
  | past, e :: events => e.strikes past ++ struck (past ++ [e]) events

def clicks : Event → List Point
  | .operate (.click place) => [place]
  | _ => []

-- What a frame finds on the devices.
def takesKeys : Event → Project → List String
  | .frame, p => p.world.keyboard.fresh
  | _, _ => []

def takesClicks : Event → Project → List Point
  | .frame, p => p.world.pointer.clicks
  | _, _ => []

theorem takesKeys_of_ne (he : e ≠ .frame) (p : Project) : e.takesKeys p = [] := by
  cases e with
  | frame => exact absurd rfl he
  | _ => rfl

theorem takesClicks_of_ne (he : e ≠ .frame) (p : Project) : e.takesClicks p = [] := by
  cases e with
  | frame => exact absurd rfl he
  | _ => rfl

theorem held_concat (past : List Event) (e : Event) (name : String) :
    held (past ++ [e]) name = (e.touch? name).getD (held past name) := by
  simp only [held, List.filterMap_append, List.getLastD_eq_getLast?, List.getLast?_append,
    List.filterMap_cons, List.filterMap_nil]
  cases e.touch? name <;> rfl

end Event

namespace Moment

open Event

variable {κ : Conduct} {m n : Moment} {e : Event} {past events : List Event} {p q : Project}

section Devices

-- What is held is what the events so far make of it.
def Feels (past : List Event) (m : Moment) : Prop :=
  ∀ name, m.project.world.keyboard.isHeld name = held past name

theorem Feels.kept (hm : Feels past m) (hk : n.project.world.keyboard = m.project.world.keyboard)
    (ht : ∀ name, e.touch? name = none) : Feels (past ++ [e]) n := fun name => by
  rw [held_concat, ht, Option.getD_none, hk, hm]

theorem Feels.act? (hm : Feels past m) (h : m.act? e = some n) : Feels (past ++ [e]) n := by
  cases does_of_act? h with
  | operate op =>
    rename_i p
    cases op with
    | press name =>
      intro other
      rw [held_concat, ← hm, touch?]
      refine (p.world.keyboard.isHeld_press_eq name other).trans ?_
      by_cases he : name = other
      · rw [if_pos he, if_pos he, Option.getD_some]
      · rw [if_neg he, if_neg he, Option.getD_none]
    | release name =>
      intro other
      rw [held_concat, ← hm, touch?]
      refine (p.world.keyboard.isHeld_release_eq name other).trans ?_
      by_cases he : name = other
      · rw [if_pos he, if_pos he, Option.getD_some]
      · rw [if_neg he, if_neg he, Option.getD_none]
    | click | limitLoops | countLoop => exact hm.kept rfl fun _ => rfl
    | _ => exact hm.kept (Operation.sameFixture rfl p).keyboard fun _ => rfl
  | frame =>
    rename_i p
    intro name
    rw [held_concat, ← hm, (sameFixture_prepare p).keyboard]
    rfl
  | turn ht => exact hm.kept (sameFixture_turn ht).keyboard fun _ => rfl

-- Whatever comes in is kept until a frame takes it, which takes all that there is.
theorem act?_fresh (hm : Feels past m) (h : m.act? e = some n) :
    e.takesKeys m.project ++ n.project.world.keyboard.fresh =
      m.project.world.keyboard.fresh ++ e.strikes past := by
  cases does_of_act? h with
  | operate op =>
    rename_i p
    have hkept (hk : (op.apply p).world.keyboard.fresh = p.world.keyboard.fresh) :
        [] ++ (op.apply p).world.keyboard.fresh = p.world.keyboard.fresh ++ [] := by
      rw [hk, List.nil_append, List.append_nil]
    cases op with
    | press name =>
      refine (p.world.keyboard.fresh_press name).trans ?_
      rw [strikes, ← hm]
    | release | click | limitLoops | countLoop => exact hkept rfl
    | _ => exact hkept (congrArg Keyboard.fresh (Operation.sameFixture rfl p).keyboard)
  | frame =>
    rename_i p
    rw [(sameFixture_prepare p).keyboard]
    rfl
  | turn ht =>
    rw [(sameFixture_turn ht).keyboard]
    exact (List.append_nil _).symm

theorem act?_clicks (h : m.act? e = some n) :
    e.takesClicks m.project ++ n.project.world.pointer.clicks =
      m.project.world.pointer.clicks ++ e.clicks := by
  cases does_of_act? h with
  | operate op =>
    rename_i p
    have hkept (hk : (op.apply p).world.pointer = p.world.pointer) :
        [] ++ (op.apply p).world.pointer.clicks = p.world.pointer.clicks ++ [] := by
      rw [hk, List.nil_append, List.append_nil]
    cases op with
    | click place => rfl
    | press | release | limitLoops | countLoop => exact hkept rfl
    | _ => exact hkept (Operation.sameFixture rfl p).pointer
  | frame =>
    rename_i p
    rw [(sameFixture_prepare p).pointer]
    rfl
  | turn ht =>
    rw [(sameFixture_turn ht).pointer]
    exact (List.append_nil _).symm

end Devices

section Runs

theorem acts?_feels (hm : Feels past m) (h : m.acts? events = some n) :
    Feels (past ++ events) n := by
  induction events generalizing m past with
  | nil =>
    cases h
    rwa [List.append_nil]
  | cons e events ih =>
    obtain ⟨mid, hmid, hn⟩ := Option.bind_eq_some_iff.1 h
    rw [← List.singleton_append, ← List.append_assoc]
    exact ih (hm.act? hmid) hn

theorem acts?_fresh (hm : Feels past m) (h : m.acts? events = some n) :
    collected takesKeys events m ++ n.project.world.keyboard.fresh =
      m.project.world.keyboard.fresh ++ struck past events := by
  induction events generalizing m past with
  | nil =>
    cases h
    exact (List.append_nil _).symm
  | cons e events ih =>
    obtain ⟨mid, hmid, hn⟩ := Option.bind_eq_some_iff.1 h
    simp only [collected, hmid, Option.elim_some, struck]
    rw [List.append_assoc, ih (hm.act? hmid) hn, ← List.append_assoc, act?_fresh hm hmid,
      List.append_assoc]

theorem acts?_clicks (h : m.acts? events = some n) :
    collected takesClicks events m ++ n.project.world.pointer.clicks =
      m.project.world.pointer.clicks ++ events.flatMap clicks := by
  induction events generalizing m with
  | nil =>
    cases h
    exact (List.append_nil _).symm
  | cons e events ih =>
    obtain ⟨mid, hmid, hn⟩ := Option.bind_eq_some_iff.1 h
    simp only [collected, hmid, Option.elim_some, List.flatMap_cons]
    rw [List.append_assoc, ih hn, ← List.append_assoc, act?_clicks hmid, List.append_assoc]

theorem collected_of_no_frame {α : Type} {f : Event → Project → List α}
    (hf : ∀ e p, e ≠ .frame → f e p = []) (he : ∀ e ∈ events, e ≠ .frame) (m : Moment) :
    collected f events m = [] := by
  induction events generalizing m with
  | nil => rfl
  | cons e events ih =>
    rw [collected, hf e _ (he e List.mem_cons_self), List.nil_append]
    cases m.act? e with
    | none => rfl
    | some mid => exact ih (fun e' hm => he e' (List.mem_cons_of_mem _ hm)) mid

theorem devices_answer (query : Script.Query) (l : Script.Loading) :
    (Script.Loading.answer query l).2.project.world.keyboard = l.project.world.keyboard ∧
      (Script.Loading.answer query l).2.project.world.pointer = l.project.world.pointer := by
  cases query with
  | call c awaits =>
    have hsame := sameFixture_call l.project c
    exact ⟨hsame.keyboard, hsame.pointer⟩
  | declare d => exact ⟨rfl, rfl⟩
  | limitLoops max => exact ⟨rfl, rfl⟩
  | countLoop =>
    simp only [Script.Loading.answer, noteImportLoop]
    cases (l.project.world.noteImportLoop).1 <;> exact ⟨rfl, rfl⟩

theorem Start.devices (h : Start κ p) : p.world.keyboard = {} ∧ p.world.pointer = {} := by
  cases h with
  | new h bus hl =>
    rw [new_eq_ok h]
    exact ⟨rfl, rfl⟩
  | script h hl hj =>
    have hkept {w w' : World} (hw : w.SameFixture w') (h : w.keyboard = {} ∧ w.pointer = {}) :
        w'.keyboard = {} ∧ w'.pointer = {} := ⟨hw.keyboard.trans h.1, hw.pointer.trans h.2⟩
    refine load_induction (J := fun p => p.world.keyboard = {} ∧ p.world.pointer = {})
      (I := fun p => p.world.keyboard = {} ∧ p.world.pointer = {}) (fun p hp => ?_)
      (fun query l hl => ?_) (fun _ _ hp => hp)
      (fun p c kind _ hp => hkept (sameFixture_register p c kind) hp) h
    · rw [new_eq_ok hp]
      exact ⟨rfl, rfl⟩
    · obtain ⟨hk, hc⟩ := devices_answer query l
      exact ⟨hk.trans hl.1, hc.trans hl.2⟩

-- Right after a frame, as at the start, nothing is in store.
theorem rested {past : List Event} (hs : Start κ p) (h : acts? past ⟨p, []⟩ = some m)
    (hp : past = [] ∨ ∃ earlier, past = earlier ++ [.frame]) :
    m.project.world.keyboard.fresh = [] ∧ m.project.world.pointer.clicks = [] := by
  rcases hp with rfl | ⟨earlier, rfl⟩
  · cases h
    obtain ⟨hk, hc⟩ := hs.devices
    exact ⟨congrArg Keyboard.fresh hk, congrArg Pointer.clicks hc⟩
  · obtain ⟨mid, -, hlast⟩ := acts?_append h
    obtain ⟨_, hframe, hm⟩ := Option.bind_eq_some_iff.1 hlast
    cases hm
    cases does_of_act? hframe with
    | frame =>
      rename_i q
      have hw := sameFixture_prepare q
      exact ⟨congrArg Keyboard.fresh hw.keyboard, congrArg Pointer.clicks hw.pointer⟩

end Runs

end Moment

section Frames

-- The queue that comes of some events: what is to be started for each of them has its own group.
def enqueue : Nat → List (List World.Start) → List Spawn
  | _, [] => []
  | last, starts :: later =>
    starts.map (fun s => ⟨last + 1, s.actor, s.owner, s.handler⟩) ++
      enqueue (if starts = [] then last else last + 1) later

namespace Project

variable {p : Project}

-- A key is for all of its handlers; a click is for the sprite that is seen under it as the frame
-- begins, and only where none is for the stage.
def responses (p : Project) (keys : List String) (places : List Point) : List (List World.Start) :=
  keys.map (fun name => p.world.starts (.keyPressed name)) ++
    places.map fun place => (p.polled.world.frontmost? place).elim (p.world.starts .stageClicked)
      fun d => p.world.startsOf .spriteClicked d.owner

-- A frame starts what the input asks for, and nothing else; then there is no more input.
structure Heeds (p : Project) (keys : List String) (places : List Point) : Prop where
  addressed : p.world.Addressed
  pointed : ∀ place d, p.polled.world.frontmost? place = some d → ∃ i a,
    p.world.member d.owner = .ok (i, a) ∧ a.isSprite = true ∧ i.figure.look.shown = true
  threads : p.prepare.threads = p.threads ++
    (enqueue p.world.lastGroup (p.responses keys places)).mapIdx fun k s =>
      s.thread p.world.config.defaultLoopIterationsPerFrame (p.lastThread + k + 1)
  drained : p.prepare.world.keyboard.fresh = [] ∧ p.prepare.world.pointer.clicks = [] ∧
    p.prepare.world.spawns = []
  snapshot : Moment.act? .frame ⟨p, []⟩ = some ⟨p.prepare, p.prepare.threads.map (·.id)⟩

theorem starts_of_enlists {w w' : World} (h : Enlists w w') {o : Order}
    (ho : ∀ source, o ≠ .clone source) : o.starts w' = o.starts w := by
  cases o with
  | clone source => exact absurd rfl (ho source)
  | send trigger => exact starts_congr h.sameFolk trigger
  | click place =>
    simp only [Order.starts, h.spriteAt?, starts_congr h.sameFolk, World.startsOf_congr h.sameFolk]

theorem enlists_order (w : World) {o : Order} (ho : ∀ source, o ≠ .clone source) :
    Enlists w (o.apply w) := by
  cases o with
  | clone source => exact absurd rfl (ho source)
  | send trigger => exact enlists_queueGroup w _
  | click place => exact enlists_click w place

-- What was launched before does not change who is meant by what comes later.
theorem queueAll_eq_enqueue {w : World} {orders : List Order}
    (ho : ∀ o ∈ orders, ∀ source, o ≠ .clone source) {w' : World} (h : Enlists w w') :
    Order.queueAll orders w' = enqueue w'.lastGroup (orders.map (·.starts w)) := by
  induction orders generalizing w' with
  | nil => rfl
  | cons o orders ih =>
    have hfirst := ho o List.mem_cons_self
    have hstarts := starts_of_enlists h hfirst
    rw [Order.queueAll, List.map_cons, enqueue, Order.queue, hstarts,
      ih (fun o hm => ho o (List.mem_cons_of_mem _ hm)) (h.trans (enlists_order w' hfirst))]
    have hq := o.queues w'
    rw [hstarts] at hq
    split
    · rename_i hn
      rw [(hq.none hn).2]
    · rename_i hn
      rw [(hq.some hn).2]

theorem mem_enqueue {last : Nat} {batches : List (List World.Start)} {s : Spawn}
    (hs : s ∈ enqueue last batches) : ∃ starts ∈ batches, ∃ t ∈ starts, s.owner = t.owner := by
  induction batches generalizing last with
  | nil => cases hs
  | cons starts batches ih =>
    rcases List.mem_append.1 hs with hs | hs
    · obtain ⟨t, ht, rfl⟩ := List.mem_map.1 hs
      exact ⟨starts, List.mem_cons_self, t, ht, rfl⟩
    · obtain ⟨later, hl, ht⟩ := ih hs
      exact ⟨later, List.mem_cons_of_mem _ hl, ht⟩

theorem live_of_responses (hw : p.world.Registered) {keys : List String} {places : List Point}
    {starts : List World.Start} (hs : starts ∈ p.responses keys places) {t : World.Start}
    (ht : t ∈ starts) : p.world.isLive t.owner = true := by
  rcases List.mem_append.1 hs with hs | hs
  · obtain ⟨name, -, rfl⟩ := List.mem_map.1 hs
    exact (hw.owner_starts ht).1.isLive
  · obtain ⟨place, -, rfl⟩ := List.mem_map.1 hs
    cases hf : p.polled.world.frontmost? place with
    | none =>
      rw [hf] at ht
      exact (hw.owner_starts ht).1.isLive
    | some d =>
      rw [hf] at ht
      exact (hw.owner_startsOf ht).1.isLive

theorem sameFolk_polled (p : Project) : p.world.SameFolk p.polled.world := by
  rw [polled, poll_eq]
  exact ⟨rfl, rfl, rfl⟩

theorem starts_inputs (hw : p.world.Registered) :
    (inputs p.polled.world).map (·.starts p.polled.world) =
      p.responses p.world.keyboard.fresh p.world.pointer.clicks := by
  have hsame := sameFolk_polled p
  have hfixed : p.world.SameFixture p.polled.world :=
    sameFixture_poll { p with frame := p.frame + 1 }
  rw [inputs, List.map_append, List.map_map, List.map_map, responses, hfixed.keyboard,
    hfixed.pointer]
  refine congrArg₂ _ (List.map_congr_left fun name _ => ?_) (List.map_congr_left fun place _ => ?_)
  · exact starts_congr hsame _
  · simp only [Function.comp, Order.starts, ← (hw.same hsame).owner_frontmost?]
    cases p.polled.world.frontmost? place with
    | none => exact starts_congr hsame _
    | some d => exact World.startsOf_congr hsame _ _

theorem not_clone_of_inputs {w : World} {o : Order} (ho : o ∈ inputs w) (source : CloneSource) :
    o ≠ .clone source := by
  rcases List.mem_append.1 ho with ho | ho
  · obtain ⟨name, -, rfl⟩ := List.mem_map.1 ho
    exact fun h => by cases h
  · obtain ⟨place, -, rfl⟩ := List.mem_map.1 ho
    exact fun h => by cases h

theorem enlists_drained (p : Project) : Enlists p.polled.world (p.noting []).world :=
  ⟨_, _, _, _, _, rfl⟩

theorem enlists_noting (p : Project) :
    Enlists p.polled.world (p.noting (inputs p.polled.world)).world := by
  refine p.enlists_drained.trans ?_
  exact List.foldlRecOn (motive := fun w => Enlists (p.noting []).world w) _ _ (.refl _)
    fun w hw o ho => hw.trans (enlists_order w (not_clone_of_inputs ho))

theorem spawns_noting (hw : p.world.Registered) (hp : p.world.spawns = []) :
    (p.noting (inputs p.polled.world)).world.spawns =
      enqueue p.world.lastGroup (p.responses p.world.keyboard.fresh p.world.pointer.clicks) := by
  have hfirst : (p.noting []).world.spawns = [] ∧
      (p.noting []).world.lastGroup = p.world.lastGroup := by
    rw [noting, polled, poll_eq]
    exact ⟨hp, rfl⟩
  rw [← starts_inputs hw, ← hfirst.2,
    ← queueAll_eq_enqueue (fun _ ho => not_clone_of_inputs ho) p.enlists_drained]
  refine (spawns_queueAll (inputs p.polled.world) (p.noting []).world).trans ?_
  rw [hfirst.1, List.nil_append]

theorem heeds (hw : p.world.Registered) (ha : p.world.Addressed) (hp : p.world.spawns = []) :
    p.Heeds p.world.keyboard.fresh p.world.pointer.clicks where
  addressed := ha
  pointed place d hd := by
    have hsame := sameFolk_polled p
    obtain ⟨i, a, hm, hseen⟩ := (hw.same hsame).of_frontmost? hd
    simp only [World.member, World.instance?, hsame.instances, hsame.actors] at hm
    exact ⟨i, a, hm, hseen⟩
  threads := by
    let noted := p.noting (inputs p.polled.world)
    have hlaunched := (foldl_launch_eq_launched noted.world.spawns
      (noted.updateWorld fun w => { w with spawns := [] })).1
    have hthreads : noted.threads = p.threads := threads_poll _
    have hlast : noted.lastThread = p.lastThread :=
      (sameRoll_poll { p with frame := p.frame + 1 }).lastThread
    have hconfig : noted.world.config = p.world.config :=
      (enlists_noting p).sameTerms.config.trans
        (sameTerms_poll { p with frame := p.frame + 1 }).config
    have hsame : p.world.SameFolk noted.world :=
      (sameFolk_polled p).trans (enlists_noting p).sameFolk
    have hlive : ∀ s ∈ noted.world.spawns, noted.world.isLive s.owner = true := fun s hs => by
      rw [spawns_noting hw hp] at hs
      obtain ⟨starts, hstarts, t, ht, ho⟩ := mem_enqueue hs
      rw [ho, World.isLive, hsame.instances]
      exact live_of_responses hw hstarts ht
    rw [prepare_eq_launchAll]
    refine hlaunched.trans ?_
    refine congrArg₂ _ hthreads ?_
    rw [← spawns_noting hw hp, ← hlast, ← hconfig]
    exact congrArg (List.mapIdx _) (List.filter_eq_self.2 hlive)
  drained := by
    have hfixed := sameFixture_prepare p
    refine ⟨congrArg Keyboard.fresh hfixed.keyboard, congrArg Pointer.clicks hfixed.pointer, ?_⟩
    rw [prepare_eq_launchAll]
    obtain ⟨groups, hlaunched⟩ := world_launchAll (p.noting (inputs p.polled.world))
    rw [hlaunched]
  snapshot := rfl

end Project

end Frames

namespace Moment

open Event

variable {κ : Conduct} {m : Moment} {events : List Event} {p : Project}

-- Every key that went down and every click is taken by one frame or still there, and what a frame
-- takes is what has come in since the frame before.
theorem Start.input_once (hs : Start κ p) (h : acts? events ⟨p, []⟩ = some m) :
    collected takesKeys events ⟨p, []⟩ ++ m.project.world.keyboard.fresh = struck [] events ∧
    collected takesClicks events ⟨p, []⟩ ++ m.project.world.pointer.clicks =
      events.flatMap clicks ∧
    (∀ name, m.project.world.keyboard.isHeld name = held events name) ∧
    ∀ {past recent : List Event} {q : Project}, events = past ++ recent →
      (past = [] ∨ ∃ earlier, past = earlier ++ [.frame]) → (∀ e ∈ recent, e ≠ .frame) →
      m = ⟨q, []⟩ → q.world.keyboard.fresh = struck past recent ∧
        q.world.pointer.clicks = recent.flatMap clicks ∧
        q.Heeds (struck past recent) (recent.flatMap clicks) := by
  obtain ⟨hk, hc⟩ := hs.devices
  have hfeels : Feels [] ⟨p, []⟩ := fun name => by
    rw [hk]
    rfl
  have hkeys := acts?_fresh hfeels h
  have hclicks := acts?_clicks h
  rw [hk] at hkeys
  rw [hc] at hclicks
  refine ⟨hkeys, hclicks, acts?_feels hfeels h, ?_⟩
  rintro past recent q rfl hpast hrecent rfl
  obtain ⟨mid, hmid, hrest⟩ := acts?_append h
  obtain ⟨hfresh, hpointer⟩ := rested hs hmid hpast
  have hstruck : q.world.keyboard.fresh = struck past recent := by
    have hsum := acts?_fresh (acts?_feels hfeels hmid) hrest
    rwa [hfresh, collected_of_no_frame (fun _ p he => takesKeys_of_ne he p) hrecent] at hsum
  have hclicked : q.world.pointer.clicks = recent.flatMap clicks := by
    have hsum := acts?_clicks hrest
    rwa [hpointer, collected_of_no_frame (fun _ p he => takesClicks_of_ne he p) hrecent] at hsum
  have hq : Reachable .any ⟨q, []⟩ := (Reachable.start hs).any.acts? h
  have hw := (hq.registered_indexed .refl).1
  have hdeclared := World.Addressed.of_registered hw fun a ha => hq.declared_of_changes .refl ha
  have hheeds := heeds hw hdeclared hq.quiet.spawns
  rw [hstruck, hclicked] at hheeds
  exact ⟨hstruck, hclicked, hheeds⟩

def hall : ActorClass := { house with handlers := [⟨.ok .stageClicked, "echo", fun _ => .finish⟩] }

def listener : ActorClass :=
  { cat with handlers := [
    ⟨.ok (.keyPressed "a"), "hop", fun _ => .finish⟩,
    ⟨.ok .spriteClicked, "purr", fun _ => .finish⟩] }

-- A key is pressed twice, but goes down again only once it was let go; one click misses the sprite.
def fumble : List Event :=
  [.operate (.register hall .stage), .operate (.register listener .sprite),
    .operate (.loadAssets (catalogue.loader [])), .operate (.click ⟨99.0, 99.0⟩),
    .operate (.press "a"), .operate (.press "a"), .operate (.release "a"), .operate (.press "a"),
    .operate (.click ⟨1.0, 1.0⟩)]

theorem fumble_heeded : ∃ q, acts? fumble ⟨{}, []⟩ = some ⟨q, []⟩ ∧
    struck [] fumble = ["a", "a"] ∧ q.Heeds (struck [] fumble) (fumble.flatMap clicks) ∧
      q.prepare.threads.map (·.label) = ["hop", "hop", "echo", "purr"] := by
  have hacts : acts? fumble ⟨{}, []⟩ = some ⟨_, []⟩ := rfl
  have hframeless : ∀ e ∈ fumble, e ≠ .frame := by simp [fumble]
  have h := (Start.input_once start_empty hacts).2.2.2 (List.nil_append _).symm (.inl rfl)
    hframeless rfl
  exact ⟨_, hacts, by decide +kernel, h.2.2, by decide +kernel⟩

end Moment

end SpriteStage

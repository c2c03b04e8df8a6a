import Mathlib.Data.List.Forall2
import SpriteStage.Proofs.Exchange
import SpriteStage.Proofs.Restart

namespace SpriteStage

-- The entries of a list have the keys of a predicate: each key once, and in order.
def Enumerates {ι α : Type} (lt : ι → ι → Prop) (P : ι → α → Prop) (entries : List α) : Prop :=
  ∃ keys : List ι, keys.Pairwise lt ∧ List.Forall₂ P keys entries ∧ ∀ key a, P key a → key ∈ keys

section Enumerates

variable {ι α β : Type} {lt : ι → ι → Prop}

theorem enumerates_map (f : β → α) (xs : List β) :
    Enumerates (· < ·) (fun (k : Nat) a => ∃ x, xs[k]? = some x ∧ a = f x) (xs.map f) := by
  induction xs with
  | nil => exact ⟨[], .nil, .nil, fun _ _ ⟨_, hx, _⟩ => nomatch hx⟩
  | cons x xs ih =>
    obtain ⟨keys, hlt, hall, hmem⟩ := ih
    refine ⟨0 :: keys.map (· + 1), ?_, ?_, ?_⟩
    · refine List.pairwise_cons.2 ⟨fun k hk => ?_, ?_⟩
      · obtain ⟨j, -, rfl⟩ := List.mem_map.1 hk
        exact Nat.succ_pos j
      · exact List.pairwise_map.2 (hlt.imp Nat.succ_lt_succ)
    · exact .cons ⟨x, rfl, rfl⟩ (List.forall₂_map_left_iff.2 hall)
    · intro k a ha
      cases k with
      | zero => exact List.mem_cons_self
      | succ k => exact List.mem_cons_of_mem _ (List.mem_map_of_mem (hmem k a ha))

-- Keys come to be pairs: where the outer entry stands, and then the key among its own.
theorem enumerates_flatMap {P : β → ι → α → Prop} {f : β → List α} {xs : List β}
    (h : ∀ x ∈ xs, Enumerates lt (P x) (f x)) :
    Enumerates (Prod.Lex (· < ·) lt) (fun (k : Nat × ι) a => ∃ x, xs[k.1]? = some x ∧ P x k.2 a)
      (xs.flatMap f) := by
  induction xs with
  | nil => exact ⟨[], .nil, .nil, fun _ _ ⟨_, hx, _⟩ => nomatch hx⟩
  | cons x xs ih =>
    obtain ⟨first, hlt, hall, hmem⟩ := h x List.mem_cons_self
    obtain ⟨later, hlt', hall', hmem'⟩ := ih fun y hy => h y (List.mem_cons_of_mem _ hy)
    refine ⟨first.map (0, ·) ++ later.map (Prod.map (· + 1) id), ?_, ?_, ?_⟩
    · refine List.pairwise_append.2 ⟨?_, ?_, fun k hk l hl => ?_⟩
      · exact List.pairwise_map.2 (hlt.imp fun hkl => .right 0 hkl)
      · refine List.pairwise_map.2 (hlt'.imp fun hkl => ?_)
        cases hkl with
        | left _ _ hi => exact .left _ _ (Nat.succ_lt_succ hi)
        | right _ hj => exact .right _ hj
      · obtain ⟨i, -, rfl⟩ := List.mem_map.1 hk
        obtain ⟨j, -, rfl⟩ := List.mem_map.1 hl
        exact .left _ _ (Nat.succ_pos _)
    · rw [List.flatMap_cons]
      refine List.rel_append (List.forall₂_map_left_iff.2 ?_) (List.forall₂_map_left_iff.2 hall')
      exact hall.imp fun i a ha => ⟨x, rfl, ha⟩
    · rintro ⟨k, i⟩ a ⟨y, hy, ha⟩
      cases k with
      | zero =>
        cases hy
        exact List.mem_append_left _ (List.mem_map_of_mem (hmem i a ha))
      | succ k =>
        exact List.mem_append_right _ (List.mem_map.2 ⟨(k, i), hmem' (k, i) a ⟨y, hy, ha⟩, rfl⟩)

end Enumerates

namespace World

variable {w w' : World}

-- The start for an actor, one of its handlers and one of its instances, by where each of them stands.
def StartAt (w : World) (trigger : Trigger) (k : Nat × Nat × Nat) (s : Start) : Prop :=
  ∃ a, w.actors[k.1]? = some a ∧
    ∃ handler, (a.handlersFor trigger)[k.2.1]? = some handler ∧
      ∃ owner, a.instances[k.2.2]? = some owner ∧ s = ⟨a.id, owner, handler⟩

def StartOf (a : Actor) (owner : Nat) (trigger : Trigger) (k : Nat) (s : Start) : Prop :=
  ∃ handler, (a.handlersFor trigger)[k]? = some handler ∧ s = ⟨a.id, owner, handler⟩

-- By actor, then by handler, then by instance.
abbrev Ahead : Nat × Nat × Nat → Nat × Nat × Nat → Prop :=
  Prod.Lex (· < ·) (Prod.Lex (· < ·) (· < ·))

-- Whom an event reaches: every handler that its actor's class declares for it, for every live
-- instance of the actor or for the one that is meant.
structure Addressed (w : World) : Prop where
  declared : ∀ a ∈ w.actors, ∃ c : ActorClass, c.name = a.name ∧ c.kind = a.kind ∧
    ∀ trigger, a.handlersFor trigger = c.declared trigger
  live : ∀ a ∈ w.actors, a.instances.Nodup ∧
    ∀ id, id ∈ a.instances ↔ ∃ i ∈ w.instances, i.id = id ∧ i.actor = a.id
  everyone : ∀ trigger, Enumerates Ahead (w.StartAt trigger) (w.starts trigger)
  one : ∀ trigger {owner : Nat} {i : Instance} {a : Actor}, w.member owner = .ok (i, a) →
    Enumerates (· < ·) (StartOf a owner trigger) (w.startsOf trigger owner)

theorem enumerates_starts (w : World) (trigger : Trigger) :
    Enumerates Ahead (w.StartAt trigger) (w.starts trigger) :=
  enumerates_flatMap fun _ _ => enumerates_flatMap fun _ _ => enumerates_map _ _

theorem enumerates_startsOf (trigger : Trigger) {owner : Nat} {i : Instance} {a : Actor}
    (hm : w.member owner = .ok (i, a)) :
    Enumerates (· < ·) (StartOf a owner trigger) (w.startsOf trigger owner) := by
  unfold startsOf
  rw [hm]
  exact enumerates_map _ _

theorem Addressed.of_registered (hw : w.Registered)
    (hc : ∀ a ∈ w.actors, ∃ c : ActorClass, c.name = a.name ∧ c.kind = a.kind ∧
      ∀ trigger, a.handlersFor trigger = c.declared trigger) : w.Addressed where
  declared := hc
  live a ha := ⟨hw.listed a ha, hw.members a ha⟩
  everyone := w.enumerates_starts
  one trigger _ _ _ hm := enumerates_startsOf trigger hm

theorem startsOf_congr (h : w.SameFolk w') (trigger : Trigger) (owner : Nat) :
    w'.startsOf trigger owner = w.startsOf trigger owner := by
  unfold startsOf member instance?
  rw [h.instances, h.actors]

end World

section Orders

-- A clone is greeted by its own handlers, a click by those of the sprite it meets or of the stage.
def Order.starts : Order → World → List World.Start
  | .send trigger, w => w.starts trigger
  | .clone source, w =>
    match w.createClone source with
    | .ok (id, w) => w.startsOf .startAsClone id
    | .error _ => []
  | .click place, w =>
    match w.spriteAt? place with
    | some owner => w.startsOf .spriteClicked owner
    | none => w.starts .stageClicked

def Order.queue (o : Order) (w : World) : List Spawn :=
  (o.starts w).map fun s => ⟨w.lastGroup + 1, s.actor, s.owner, s.handler⟩

def Order.queueAll : List Order → World → List Spawn
  | [], _ => []
  | o :: later, w => o.queue w ++ queueAll later (o.apply w)

def Exchange.queue (e : Exchange) (p : Project) : List Spawn := e.order?.elim [] (·.queue p.world)

variable {w w' : World} {p q : Project}

-- What an order does: it queues its starts in one new group, or nothing at all.
structure World.Queues (w : World) (starts : List World.Start) (w' : World) : Prop where
  spawns : w'.spawns = w.spawns ++
    starts.map fun s => ⟨w.lastGroup + 1, s.actor, s.owner, s.handler⟩
  none : starts = [] → w'.groups = w.groups ∧ w'.lastGroup = w.lastGroup
  some : starts ≠ [] → w'.groups = w.groups ++ [⟨w.lastGroup + 1, starts.length⟩] ∧
    w'.lastGroup = w.lastGroup + 1

theorem World.queues_queueGroup (w : World) (starts : List World.Start) :
    w.Queues starts (w.queueGroup starts).2 := by
  refine ⟨w.spawns_queueGroup starts, fun h => ?_, fun h => ?_⟩
  · subst h
    exact ⟨rfl, rfl⟩
  · have he : starts.isEmpty = false := List.isEmpty_eq_false_iff.2 h
    rw [queueGroup, he]
    exact ⟨rfl, rfl⟩

theorem Order.queues (o : Order) (w : World) : w.Queues (o.starts w) (o.apply w) := by
  cases o with
  | send trigger => exact w.queues_queueGroup _
  | click place =>
    simp only [starts, apply, Project.click]
    cases w.spriteAt? place with
    | none => exact w.queues_queueGroup _
    | some owner => exact w.queues_queueGroup _
  | clone source =>
    simp only [starts, apply]
    cases hc : w.createClone source with
    | error e => exact ⟨(List.append_nil _).symm, fun _ => ⟨rfl, rfl⟩, fun h => absurd rfl h⟩
    | ok made =>
      obtain ⟨id, w'⟩ := made
      obtain ⟨parent, i, a, -, -, rfl, -, rfl⟩ := World.createClone_eq_ok hc
      dsimp only
      rw [World.dispatchTo, World.startsOf_congr (World.sameFolk_queueGroup _ _)]
      obtain ⟨hs, hn, hg⟩ := (w.place i a).queues_queueGroup
        ((w.place i a).startsOf .startAsClone (w.lastInstance + 1))
      exact ⟨hs, hn, hg⟩

theorem World.Registered.order (hw : w.Registered) (o : Order) : (o.apply w).Registered := by
  cases o with
  | send trigger => exact hw.same (World.sameFolk_queueGroup _ _)
  | click place =>
    simp only [Order.apply, Project.click]
    split <;> exact hw.same (World.sameFolk_queueGroup _ _)
  | clone source =>
    simp only [Order.apply]
    cases hc : w.createClone source with
    | error e => exact hw
    | ok made =>
      obtain ⟨id, w'⟩ := made
      obtain ⟨parent, i, a, hr, hm, -, -, rfl⟩ := World.createClone_eq_ok hc
      exact (hw.place hr hm).same (World.sameFolk_queueGroup _ _)

theorem World.Registered.owner_starts (hw : w.Registered) {trigger : Trigger} {s : World.Start}
    (hs : s ∈ w.starts trigger) : w.Owns s.owner s.actor ∧ s.owner ≤ w.lastInstance := by
  obtain ⟨a, ha, hact, -, ho⟩ := World.mem_starts.1 hs
  obtain ⟨i, hi, hid, hiact⟩ := (hw.members a ha _).1 ho
  exact ⟨⟨i, hi, hid, hiact.trans hact.symm⟩, hid ▸ hw.allocated i hi⟩

theorem World.Registered.owner_startsOf (hw : w.Registered) {trigger : Trigger} {owner : Nat}
    {s : World.Start} (hs : s ∈ w.startsOf trigger owner) :
    w.Owns s.owner s.actor ∧ s.owner ≤ w.lastInstance := by
  obtain ⟨i, a, hm, hact, ho, -⟩ := World.mem_startsOf.1 hs
  obtain ⟨hi, hid, -, haid⟩ := hw.mem_of_member hm
  have hids : i.id = s.owner := hid.trans ho.symm
  exact ⟨⟨i, hi, hids, haid.symm.trans hact.symm⟩, hids ▸ hw.allocated i hi⟩

-- Only instances that are there are meant, so no clone that is made later.
theorem World.Registered.owner_order (hw : w.Registered) (o : Order) {s : World.Start}
    (hs : s ∈ o.starts w) :
    (o.apply w).Owns s.owner s.actor ∧ s.owner ≤ (o.apply w).lastInstance := by
  have hsame : ∀ {starts : List World.Start}, w.Owns s.owner s.actor ∧ s.owner ≤ w.lastInstance →
      (w.queueGroup starts).2.Owns s.owner s.actor ∧
        s.owner ≤ (w.queueGroup starts).2.lastInstance := fun {starts} h => by
    have hf := World.sameFolk_queueGroup w starts
    exact ⟨hf.owns h.1, hf.lastInstance.symm ▸ h.2⟩
  cases o with
  | send trigger => exact hsame (hw.owner_starts hs)
  | click place =>
    simp only [Order.starts, Order.apply, Project.click] at hs ⊢
    cases ha : w.spriteAt? place with
    | none =>
      rw [ha] at hs
      exact hsame (hw.owner_starts hs)
    | some owner =>
      rw [ha] at hs
      exact hsame (hw.owner_startsOf hs)
  | clone source =>
    have hw' := hw.order (.clone source)
    simp only [Order.starts, Order.apply] at hs hw' ⊢
    cases hc : w.createClone source with
    | error e =>
      rw [hc] at hs
      cases hs
    | ok made =>
      rw [hc] at hs hw'
      exact hw'.owner_startsOf hs

theorem spawns_queueAll (orders : List Order) (w : World) :
    (orders.foldl (fun w o => o.apply w) w).spawns = w.spawns ++ Order.queueAll orders w := by
  induction orders generalizing w with
  | nil => exact (List.append_nil _).symm
  | cons o orders ih =>
    rw [List.foldl_cons, ih, (o.queues w).spawns, Order.queueAll, List.append_assoc]
    rfl

namespace Project

theorem spawns_perform (p : Project) (e : Exchange) :
    (p.perform e).world.spawns = p.world.spawns ++ e.queue p := by
  cases ho : e.order? with
  | none =>
    rw [Exchange.queue, ho, Option.elim_none, List.append_nil]
    exact (steady_of_order ho).spawns
  | some o =>
    rw [Exchange.queue, ho, Option.elim_some, world_of_order ho]
    exact (o.queues p.world).spawns

theorem spawns_performAll (p : Project) (exchanges : List Exchange) :
    (p.performAll exchanges).world.spawns =
      p.world.spawns ++ gather Exchange.queue exchanges p := by
  induction exchanges generalizing p with
  | nil => exact (List.append_nil _).symm
  | cons e exchanges ih =>
    rw [gather, ← List.append_assoc, ← spawns_perform]
    exact ih _

end Project

end Orders

end SpriteStage

import SpriteStage.Proofs.Broadcast

namespace SpriteStage

open Project

section BusNames

theorem eq_of_append_cons {α : Type} {d : α} {front front' back back' : List α}
    (hb : d ∉ back) (hb' : d ∉ back') (h : front ++ d :: back = front' ++ d :: back') :
    back = back' := by
  rcases List.append_eq_append_iff.1 h with ⟨as, -, he⟩ | ⟨as, -, he⟩
  · cases as with
    | nil => exact (List.cons.inj he).2
    | cons a as =>
      obtain ⟨-, rfl⟩ := List.cons.inj he
      exact absurd (List.mem_append_right _ List.mem_cons_self) hb
  · cases as with
    | nil => exact (List.cons.inj he).2.symm
    | cons a as =>
      obtain ⟨-, rfl⟩ := List.cons.inj he
      exact absurd (List.mem_append_right _ List.mem_cons_self) hb'

theorem dash_not_mem_toDigits (n : Nat) : '-' ∉ Nat.toDigits 10 n := by
  intro hm
  have hd := Nat.isDigit_of_mem_toDigits (by decide) (by decide) hm
  cases hd

-- The identity in the name of a bus can be read off it, whatever the class is called.
theorem numbered_inj {a b : String} {m n : Nat} (h : s!"{a}-{m}" = s!"{b}-{n}") : m = n := by
  have hlist : ∀ (c : String) (k : Nat), (s!"{c}-{k}").toList = c.toList ++ '-' :: Nat.toDigits 10 k :=
    fun c k => by simp [toString]
  have hl := congrArg String.toList h
  rw [hlist, hlist] at hl
  have hd := eq_of_append_cons (dash_not_mem_toDigits m) (dash_not_mem_toDigits n) hl
  calc
    m = Nat.ofDigitChars 10 (Nat.toDigits 10 m) 0 := Nat.ofDigitChars_ten_toDigits.symm
    _ = Nat.ofDigitChars 10 (Nat.toDigits 10 n) 0 := by rw [hd]
    _ = n := Nat.ofDigitChars_ten_toDigits

theorem lookup_filter {keep : String × Float → Bool} {gains : Gains} {bus : String}
    (h : ∀ gain, keep (bus, gain) = true) : (gains.filter keep).lookup bus = gains.lookup bus := by
  induction gains with
  | nil => rfl
  | cons entry gains ih =>
    obtain ⟨name, gain⟩ := entry
    by_cases hname : bus = name
    · subst hname
      rw [List.filter_cons_of_pos (h gain), List.lookup_cons_self, List.lookup_cons_self]
    · have hne : (bus == name) = false := by simpa using hname
      rw [List.filter_cons, List.lookup_cons, hne]
      split
      · rw [List.lookup_cons, hne]
        exact ih
      · exact ih

end BusNames

namespace World

variable {w : World}

def clones (w : World) : List Instance := w.instances.filter Instance.isClone

def without (w : World) (is : List Instance) : World :=
  { w with
    actors := w.actors.map fun a =>
      { a with instances := a.instances.filter fun id => is.all (·.id ≠ id) }
    instances := w.instances.filter fun j => is.all (·.id ≠ j.id)
    watchers := w.watchers.filter fun k => is.all (·.id ≠ k.owner)
    gains := w.gains.filter fun g => is.all (w.busOf ·.id ≠ g.1)
    deleted := w.deleted ++ is.map (·.id) }

-- Only its own actor lists an instance, so taking it out of every list comes to the same.
theorem actors_remove_of_registered (hw : w.Registered) {i : Instance} (hi : i ∈ w.instances) :
    (w.remove i).actors =
      w.actors.map fun a => { a with instances := a.instances.filter (i.id ≠ ·) } := by
  refine List.map_congr_left fun a ha => ?_
  split
  · simp only [ne_comm]
  · rename_i hne
    have hall : a.instances.filter (i.id ≠ ·) = a.instances := by
      refine List.filter_eq_self.2 fun id hid => decide_eq_true fun he => hne ?_
      obtain ⟨j, hj, hjid, hact⟩ := (hw.members a ha id).1 hid
      rw [hw.eq_of_id hi hj (hjid.trans he.symm)] at hact
      exact hact.symm
    rw [hall]

theorem busOf_of_mem (hw : w.Registered) {i : Instance} (hi : i ∈ w.instances) :
    w.busOf i.id = s!"{w.className i.actor}-{i.id}" := by
  unfold busOf
  rw [hw.instance?_of_mem hi]

theorem remove_without (hw : w.Registered) {i : Instance} {is : List Instance}
    (hi : i ∈ w.instances) (hc : i.isClone = true)
    (his : ∀ j ∈ is, j ∈ w.instances ∧ j.id ≠ i.id) :
    (w.remove i).without is = w.without (i :: is) := by
  have hr : (w.remove i).Registered := hw.remove (hw.instance?_of_mem hi) hc
  have hbus : ∀ j ∈ is, (w.remove i).busOf j.id = w.busOf j.id := fun j hj => by
    obtain ⟨hmem, hne⟩ := his j hj
    have hkept : j ∈ (w.remove i).instances := List.mem_filter.2 ⟨hmem, decide_eq_true hne⟩
    rw [busOf_of_mem hw hmem, busOf_of_mem hr hkept, className_remove]
  have hactors : (w.remove i).actors.map (fun a =>
      { a with instances := a.instances.filter fun id => is.all (·.id ≠ id) }) =
      w.actors.map fun a =>
        { a with instances := a.instances.filter fun id => (i :: is).all (·.id ≠ id) } := by
    rw [actors_remove_of_registered hw hi, List.map_map]
    refine List.map_congr_left fun a _ => ?_
    simp only [Function.comp, List.filter_filter, List.all_cons, Bool.and_comm]
  have hinstances : (w.remove i).instances.filter (fun j => is.all (·.id ≠ j.id)) =
      w.instances.filter fun j => (i :: is).all (·.id ≠ j.id) := by
    simp only [remove, List.filter_filter, List.all_cons, Bool.and_comm, ne_comm]
  have hwatchers : (w.remove i).watchers.filter (fun k => is.all (·.id ≠ k.owner)) =
      w.watchers.filter fun k => (i :: is).all (·.id ≠ k.owner) := by
    simp only [remove, List.filter_filter, List.all_cons, Bool.and_comm, ne_comm]
  have hgains : (w.remove i).gains.filter (fun g => is.all ((w.remove i).busOf ·.id ≠ g.1)) =
      w.gains.filter fun g => (i :: is).all (w.busOf ·.id ≠ g.1) := by
    have hall : ∀ g : String × Float, is.all ((w.remove i).busOf ·.id ≠ g.1) =
        is.all (w.busOf ·.id ≠ g.1) := fun g => by
      rw [Bool.eq_iff_iff, List.all_eq_true, List.all_eq_true]
      exact forall₂_congr fun j hj => by rw [hbus j hj]
    simp only [hall]
    simp only [remove, Gains.remove, List.filter_filter, List.all_cons, Bool.and_comm, ne_comm]
  unfold without
  rw [hactors, hinstances, hwatchers, hgains]
  simp only [remove, updateActor, List.map_cons, List.append_assoc, List.singleton_append]

theorem foldl_deleteInstance (hw : w.Registered) {is : List Instance}
    (his : ∀ i ∈ is, i ∈ w.instances ∧ i.isClone = true) (hd : (is.map (·.id)).Nodup) :
    is.foldl (fun w i => (w.deleteInstance i.id).2) w = w.without is := by
  induction is generalizing w with
  | nil => simp [without]
  | cons i is ih =>
    obtain ⟨hi, hc⟩ := his i List.mem_cons_self
    rw [List.map_cons, List.nodup_cons] at hd
    have hne : ∀ j ∈ is, j.id ≠ i.id := fun j hj he =>
      hd.1 (List.mem_map.2 ⟨j, hj, he⟩)
    have hrest : ∀ j ∈ is, j ∈ w.instances ∧ j.isClone = true := fun j hj =>
      his j (List.mem_cons_of_mem _ hj)
    have hdelete : (w.deleteInstance i.id).2 = w.remove i := by
      unfold deleteInstance
      rw [hw.instance?_of_mem hi]
      dsimp only
      rw [if_pos hc]
    rw [List.foldl_cons, hdelete, ih (hw.remove (hw.instance?_of_mem hi) hc) ?_ hd.2]
    · exact remove_without hw hi hc fun j hj => ⟨(hrest j hj).1, hne j hj⟩
    · intro j hj
      exact ⟨List.mem_filter.2 ⟨(hrest j hj).1, decide_eq_true (hne j hj)⟩, (hrest j hj).2⟩

theorem mem_clones {i : Instance} : i ∈ w.clones ↔ i ∈ w.instances ∧ i.isClone = true :=
  List.mem_filter

theorem all_clones (hw : w.Registered) {i : Instance} (hi : i ∈ w.instances) :
    (w.clones.all fun j => decide (j.id ≠ i.id)) = !i.isClone := by
  cases hc : i.isClone with
  | true =>
    refine List.all_eq_false.2 ⟨i, mem_clones.2 ⟨hi, hc⟩, ?_⟩
    simp
  | false =>
    refine List.all_eq_true.2 fun j hj => decide_eq_true fun he => ?_
    obtain ⟨hjm, hjc⟩ := mem_clones.1 hj
    rw [hw.eq_of_id hi hjm he, hc] at hjc
    cases hjc

theorem founder_alone (hw : w.Registered) {a : Actor} (ha : a ∈ w.actors) :
    (a.instances.filter fun id => w.clones.all (·.id ≠ id)) = [a.founder] := by
  refine List.perm_singleton.1 ((List.perm_ext_iff_of_nodup ((hw.listed a ha).filter _)
    (List.nodup_singleton _)).2 fun id => ?_)
  rw [List.mem_filter, List.mem_singleton]
  constructor
  · rintro ⟨hid, hall⟩
    obtain ⟨i, hi, rfl, hact⟩ := (hw.members a ha id).1 hid
    rw [all_clones hw hi] at hall
    refine (hw.parentless a ha i hi hact).1 ?_
    simpa [Instance.isClone] using hall
  · rintro rfl
    have hf := hw.founders a ha
    obtain ⟨i, hi, hid, hact⟩ := (hw.members a ha _).1 hf
    refine ⟨hf, ?_⟩
    have hnone := (hw.parentless a ha i hi hact).2 hid
    rw [← hid, all_clones hw hi, Instance.isClone, hnone]
    rfl

end World

def Actor.still (a : Actor) : Actor := { a with instances := [a.founder] }

-- The world that a stop leaves behind: everything but the originals is gone from every table.
def World.still (w : World) : World :=
  { w with
    actors := w.actors.map Actor.still
    instances := w.instances.filter fun i => !i.isClone
    watchers := w.watchers.filter fun k => w.clones.all (·.id ≠ k.owner)
    gains := w.gains.filter fun g => w.clones.all (w.busOf ·.id ≠ g.1)
    groups := []
    spawns := []
    deleted := []
    questions := []
    stopRequested := false
    journal := .bus .stop :: w.journal }

namespace Project

variable {p q : Project}

def stilled (p : Project) : Project := { p with threads := [], world := p.world.still }

-- A stop that goes through the clones in some order.
def stopIn (p : Project) (is : List Instance) : Project :=
  { p with
    threads := []
    world := { is.foldl (fun (w : World) (i : Instance) => (w.deleteInstance i.id).2) p.world with
      deleted := [], groups := [], spawns := [], questions := [], stopRequested := false }.stopAllSounds }

theorem stopIn_eq_stilled (hw : p.world.Registered) {is : List Instance}
    (h : is.Perm p.world.clones) : p.stopIn is = p.stilled := by
  have his : ∀ i ∈ is, i ∈ p.world.instances ∧ i.isClone = true := fun i hi =>
    World.mem_clones.1 (h.mem_iff.1 hi)
  have hd : (is.map (·.id)).Nodup :=
    (h.map _).nodup_iff.2 (hw.ids.sublist (List.filter_sublist.map _))
  have hactors : p.world.actors.map (fun a =>
      { a with instances := a.instances.filter fun id => p.world.clones.all (·.id ≠ id) }) =
      p.world.actors.map Actor.still :=
    List.map_congr_left fun a ha => by rw [World.founder_alone hw ha, Actor.still]
  have hinstances : p.world.instances.filter (fun j => p.world.clones.all (·.id ≠ j.id)) =
      p.world.instances.filter fun i => !i.isClone :=
    List.filter_congr fun i hi => World.all_clones hw hi
  unfold stopIn
  rw [World.foldl_deleteInstance hw his hd]
  unfold World.without
  simp only [h.all_eq]
  rw [hactors, hinstances]
  rfl

theorem stopEverything_eq_stilled (hw : p.world.Registered) : p.stopEverything = p.stilled :=
  stopIn_eq_stilled hw (.refl _)

-- What a stop takes away, and what of the originals it leaves alone.
structure Stilled (p q : Project) : Prop where
  threads : q.threads = []
  groups : q.world.groups = []
  spawns : q.world.spawns = []
  deleted : q.world.deleted = []
  questions : q.world.questions = []
  stopRequested : q.world.stopRequested = false
  casts : ∀ a ∈ q.world.actors, a.instances = [a.founder]
  actors : q.world.actors = p.world.actors.map Actor.still
  instances : q.world.instances = p.world.instances.filter fun i => !i.isClone
  originals : ∀ a ∈ p.world.actors, ∃ i, p.world.instance? a.founder = some i ∧
    q.world.instance? a.founder = some i
  watchers : ∀ a ∈ p.world.actors, q.world.watchers.filter (·.owner = a.founder) =
    p.world.watchers.filter (·.owner = a.founder)
  gains : ∀ a ∈ p.world.actors, q.world.busOf a.founder = p.world.busOf a.founder ∧
    q.world.gains.lookup (p.world.busOf a.founder) =
      p.world.gains.lookup (p.world.busOf a.founder)
  assets : q.world.assets = p.world.assets
  errors : q.world.errors = p.world.errors

theorem registered_stilled (hw : p.world.Registered) : p.stilled.world.Registered := by
  rw [← stopEverything_eq_stilled hw]
  exact (changes_stopEverything (σ := .under .any) (fun _ => trivial) p).registered hw

theorem original_of_actor (hw : p.world.Registered) {a : Actor} (ha : a ∈ p.world.actors) :
    ∃ i ∈ p.world.instances, i.id = a.founder ∧ i.isClone = false := by
  obtain ⟨i, hi, hid, hact⟩ := (hw.members a ha _).1 (hw.founders a ha)
  refine ⟨i, hi, hid, ?_⟩
  rw [Instance.isClone, (hw.parentless a ha i hi hact).2 hid]
  rfl

theorem mem_stilled {i : Instance} (hi : i ∈ p.world.instances) (hc : i.isClone = false) :
    i ∈ p.stilled.world.instances :=
  List.mem_filter.2 ⟨hi, by rw [hc]; rfl⟩

section Originals

variable {i : Instance} (hw : p.world.Registered) (hi : i ∈ p.world.instances)
  (hc : i.isClone = false)

include hw hi hc

theorem instance?_stilled : p.stilled.world.instance? i.id = some i :=
  (registered_stilled hw).instance?_of_mem (mem_stilled hi hc)

theorem watchers_stilled : p.stilled.world.watchers.filter (·.owner = i.id) =
    p.world.watchers.filter (·.owner = i.id) := by
  simp only [stilled, World.still, List.filter_filter]
  refine List.filter_congr fun k _ => ?_
  by_cases hk : k.owner = i.id
  · rw [hk, World.all_clones hw hi, hc, Bool.not_false, Bool.and_true]
  · rw [decide_eq_false hk, Bool.false_and]

theorem busOf_stilled : p.stilled.world.busOf i.id = p.world.busOf i.id := by
  have hclass : ∀ k, p.stilled.world.className k = p.world.className k := fun k => by
    simp only [stilled, World.className, World.still, List.getElem?_map]
    cases p.world.actors[k]? <;> rfl
  rw [World.busOf_of_mem (registered_stilled hw) (mem_stilled hi hc), World.busOf_of_mem hw hi,
    hclass]

theorem gains_stilled : p.stilled.world.gains.lookup (p.world.busOf i.id) =
    p.world.gains.lookup (p.world.busOf i.id) := by
  refine lookup_filter fun gain => List.all_eq_true.2 fun j hj => decide_eq_true fun he => ?_
  obtain ⟨hjm, hjc⟩ := World.mem_clones.1 hj
  rw [World.busOf_of_mem hw hjm, World.busOf_of_mem hw hi] at he
  rw [hw.eq_of_id hi hjm (numbered_inj he), hc] at hjc
  cases hjc

end Originals

theorem stilled_stilled (hw : p.world.Registered) : Stilled p p.stilled where
  threads := rfl
  groups := rfl
  spawns := rfl
  deleted := rfl
  questions := rfl
  stopRequested := rfl
  casts a ha := by
    obtain ⟨b, -, rfl⟩ := List.mem_map.1 ha
    rfl
  actors := rfl
  instances := rfl
  originals a ha := by
    obtain ⟨i, hi, hid, hc⟩ := original_of_actor hw ha
    exact ⟨i, hid ▸ hw.instance?_of_mem hi, hid ▸ instance?_stilled hw hi hc⟩
  watchers a ha := by
    obtain ⟨i, hi, hid, hc⟩ := original_of_actor hw ha
    exact hid ▸ watchers_stilled hw hi hc
  gains a ha := by
    obtain ⟨i, hi, hid, hc⟩ := original_of_actor hw ha
    exact hid ▸ ⟨busOf_stilled hw hi hc, gains_stilled hw hi hc⟩
  assets := rfl
  errors := rfl

end Project

end SpriteStage

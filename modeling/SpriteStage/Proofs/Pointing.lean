import Mathlib.Data.List.Find
import SpriteStage.Proofs.Delivery

namespace SpriteStage

open Project

namespace World

variable {w : World} {place : Point} {a : Actor} {id : Nat}

-- A point is on an image of a sprite when the box of the sprite is known and contains it.
def covers (w : World) (place : Point) : Drawing → Bool
  | .image owner .. => w.isSprite owner && (w.box? owner).any (·.contains place)
  | .bubble .. => false

-- Drawings go from back to front, so the one that is met first from the end hides the others.
def frontmost? (w : World) (place : Point) : Option Drawing :=
  w.drawings.reverse.find? (w.covers place)

def portrait? (w : World) (a : Actor) (id : Nat) : Option (Instance × Actor × Costume) :=
  (w.instance? id).bind fun i =>
    if i.figure.look.shown then (costume? a i).map fun costume => (i, a, costume) else none

def sits (w : World) (place : Point) (portrait : Instance × Actor × Costume) : Bool :=
  w.covers place (w.imageOf portrait.1 portrait.2.1 portrait.2.2)

theorem drawn_eq (w : World) :
    w.drawn = w.actorsBackToFront.flatMap fun a => a.instances.filterMap (w.portrait? a) := rfl

theorem mem_actorsBackToFront : a ∈ w.actorsBackToFront ↔ a ∈ w.actors := by
  simp only [actorsBackToFront, List.mem_append, List.mem_filter]
  cases a.isSprite <;> simp

theorem owner_imageOf (w : World) (i : Instance) (a : Actor) (costume : Costume) :
    (w.imageOf i a costume).owner = i.id := by
  unfold imageOf
  split <;> rfl

theorem covers_imageOf (w : World) (place : Point) (i : Instance) (a : Actor) (costume : Costume) :
    w.covers place (w.imageOf i a costume) =
      (w.isSprite i.id && (w.box? i.id).any (·.contains place)) := by
  unfold imageOf
  split <;> rfl

theorem covers_bubbleOf? {i : Instance} {d : Drawing} (h : w.bubbleOf? i a = some d) :
    w.covers place d = false := by
  unfold bubbleOf? at h
  split at h
  · obtain ⟨content, -, rfl⟩ := Option.map_eq_some_iff.1 h
    split <;> rfl
  · cases h

theorem portrait?_eq_some {portrait : Instance × Actor × Costume}
    (h : w.portrait? a id = some portrait) :
    w.instance? id = some portrait.1 ∧ portrait.1.figure.look.shown = true ∧ portrait.2.1 = a ∧
      costume? a portrait.1 = some portrait.2.2 := by
  obtain ⟨i, hi, hif⟩ := Option.bind_eq_some_iff.1 h
  split at hif
  · rename_i hs
    obtain ⟨costume, hc, rfl⟩ := Option.map_eq_some_iff.1 hif
    exact ⟨hi, hs, rfl, hc⟩
  · cases hif

theorem id_of_portrait? {portrait : Instance × Actor × Costume}
    (h : w.portrait? a id = some portrait) : portrait.1.id = id :=
  (mem_of_instance? (portrait?_eq_some h).1).2

theorem Registered.member_of_listed (hw : w.Registered) (ha : a ∈ w.actors)
    (hid : id ∈ a.instances) : ∃ i, w.member id = .ok (i, a) := by
  obtain ⟨i, hi, rfl, hact⟩ := (hw.members a ha id).1 hid
  obtain ⟨b, hb, hm, hbid⟩ := hw.member_of_mem hi
  obtain rfl := hw.eq_of_actor ha hb (hbid.trans hact)
  exact ⟨i, hm⟩

-- A box needs a costume to be worn, so that whoever has a shown box is drawn as well.
theorem any_portrait? (hw : w.Registered) (ha : a ∈ w.actors) (hs : a.isSprite = true)
    (hid : id ∈ a.instances) :
    (w.portrait? a id).any (w.sits place) = (w.shownBox? id).any (·.contains place) := by
  obtain ⟨i, hm⟩ := hw.member_of_listed ha hid
  have hi := (member_eq_ok hm).1
  have hbox : w.box? id = (costume? a i).bind fun costume =>
      (w.image? costume.locator).map fun image =>
        i.figure.look.box costume.centreX costume.centreY image.width image.height := by
    simp only [box?, hm, hs, if_true]
  have hsprite : w.isSprite id = true := by
    unfold isSprite
    rw [hm]
    exact hs
  unfold portrait? shownBox?
  rw [hi, Option.bind_some]
  dsimp only
  split
  · cases hc : costume? a i with
    | none =>
      rw [hbox, hc]
      rfl
    | some costume =>
      rw [Option.map_some, Option.any_some, sits, covers_imageOf, (mem_of_instance? hi).2, hsprite,
        Bool.true_and]
  · rfl

theorem find?_portraits (hw : w.Registered) (ha : a ∈ w.actors) (hs : a.isSprite = true) :
    (((a.instances.filterMap (w.portrait? a)).reverse.find? (w.sits place)).map (·.1.id)) =
      a.instances.reverse.find? fun id => (w.shownBox? id).any (·.contains place) := by
  rw [← List.filterMap_reverse, List.find?_filterMap]
  have hany : a.instances.reverse.find? (fun id => (w.portrait? a id).any (w.sits place)) =
      a.instances.reverse.find? fun id => (w.shownBox? id).any (·.contains place) :=
    List.find?_congr fun id hid => any_portrait? hw ha hs (List.mem_reverse.1 hid)
  rw [← hany]
  cases hf : a.instances.reverse.find? (fun id => (w.portrait? a id).any (w.sits place)) with
  | none => rfl
  | some id =>
    have hsome : (w.portrait? a id).any (w.sits place) = true := by
      have h := List.find?_some hf
      exact h
    obtain ⟨portrait, hp, -⟩ := (Option.any_eq_true _ _).1 hsome
    rw [Option.bind_some, hp, Option.map_some, id_of_portrait? hp]

theorem not_sits_of_stage (hw : w.Registered) (ha : a ∈ w.actors) (hs : a.isSprite = false)
    {portrait : Instance × Actor × Costume}
    (hp : portrait ∈ a.instances.filterMap (w.portrait? a)) :
    w.sits place portrait = false := by
  obtain ⟨id, hid, hp⟩ := List.mem_filterMap.1 hp
  obtain ⟨i, hm⟩ := hw.member_of_listed ha hid
  rw [sits, covers_imageOf, id_of_portrait? hp, isSprite, hm]
  dsimp only
  rw [hs, Bool.false_and]

-- Sprites are looked through from the front; what has no box is passed over in both lists.
theorem find?_drawn (hw : w.Registered) (place : Point) :
    ((w.drawn.reverse.find? (w.sits place)).map (·.1.id)) = w.spriteAt? place := by
  have hstage : ((w.actors.filter fun a => !a.isSprite).flatMap fun a =>
      a.instances.filterMap (w.portrait? a)).reverse.find? (w.sits place) = none := by
    refine List.find?_eq_none.2 fun portrait hp => ?_
    obtain ⟨a, ha, hp⟩ := List.mem_flatMap.1 (List.mem_reverse.1 hp)
    obtain ⟨ha, hs⟩ := List.mem_filter.1 ha
    rw [not_sits_of_stage hw ha (by simpa using hs) hp]
    exact Bool.false_ne_true
  rw [drawn_eq, actorsBackToFront, List.flatMap_append, List.reverse_append, List.find?_append,
    hstage, Option.or_none, List.reverse_flatMap, List.find?_flatMap, List.map_findSome?, spriteAt?]
  rw [← List.head?_filterMap, ← List.head?_filterMap]
  refine congrArg List.head? (List.filterMap_congr fun a ha => ?_)
  obtain ⟨ha, hs⟩ := List.mem_filter.1 (List.mem_reverse.1 ha)
  exact find?_portraits hw ha hs

theorem frontmost?_eq (w : World) (place : Point) : w.frontmost? place =
    (w.drawn.reverse.find? (w.sits place)).map fun (i, a, costume) => w.imageOf i a costume := by
  have hbubbles : (w.drawn.filterMap fun (i, a, _) => w.bubbleOf? i a).reverse.find?
      (w.covers place) = none := by
    refine List.find?_eq_none.2 fun d hd => ?_
    obtain ⟨portrait, -, hb⟩ := List.mem_filterMap.1 (List.mem_reverse.1 hd)
    rw [covers_bubbleOf? hb]
    exact Bool.false_ne_true
  rw [frontmost?, drawings, List.reverse_append, List.find?_append, hbubbles, Option.none_or,
    ← List.map_reverse, List.find?_map]
  rfl

theorem Registered.owner_frontmost? (hw : w.Registered) (place : Point) :
    (w.frontmost? place).map Drawing.owner = w.spriteAt? place := by
  rw [frontmost?_eq, ← find?_drawn hw, Option.map_map]
  refine congrArg (Option.map · _) (funext fun portrait => ?_)
  exact owner_imageOf w _ _ _

theorem Registered.of_frontmost? (hw : w.Registered) {d : Drawing}
    (h : w.frontmost? place = some d) : ∃ i a, w.member d.owner = .ok (i, a) ∧
      a.isSprite = true ∧ i.figure.look.shown = true := by
  rw [frontmost?_eq] at h
  obtain ⟨portrait, hp, rfl⟩ := Option.map_eq_some_iff.1 h
  have hsits := List.find?_some hp
  have hmem := List.mem_reverse.1 (List.mem_of_find?_eq_some hp)
  rw [drawn_eq] at hmem
  obtain ⟨a, ha, hmem⟩ := List.mem_flatMap.1 hmem
  obtain ⟨id, hid, hportrait⟩ := List.mem_filterMap.1 hmem
  obtain ⟨hi, hshown, -, -⟩ := portrait?_eq_some hportrait
  obtain ⟨i, hm⟩ := hw.member_of_listed (mem_actorsBackToFront.1 ha) hid
  obtain rfl := Option.some.inj (hi.symm.trans (member_eq_ok hm).1)
  rw [sits, covers_imageOf, id_of_portrait? hportrait, isSprite, hm] at hsits
  refine ⟨portrait.1, a, ?_, (Bool.and_eq_true_iff.1 hsits).1, hshown⟩
  rw [owner_imageOf, id_of_portrait? hportrait, hm]

theorem frontmost?_eq_some_iff {d : Drawing} : w.frontmost? place = some d ↔
    w.covers place d = true ∧ ∃ back front, w.drawings = back ++ d :: front ∧
      ∀ other ∈ front, w.covers place other = false := by
  unfold frontmost?
  rw [List.find?_eq_some_iff_append]
  refine and_congr_right fun _ => ⟨?_, ?_⟩
  · rintro ⟨front, back, hd, hfront⟩
    refine ⟨back.reverse, front.reverse, ?_, fun other ho => ?_⟩
    · rw [← List.reverse_reverse w.drawings, hd, List.reverse_append, List.reverse_cons,
        List.append_assoc, List.singleton_append]
    · simpa using hfront other (List.mem_reverse.1 ho)
  · rintro ⟨back, front, hd, hfront⟩
    refine ⟨front.reverse, back.reverse, ?_, fun other ho => ?_⟩
    · rw [hd, List.reverse_append, List.reverse_cons, List.append_assoc, List.singleton_append]
    · rw [hfront other (List.mem_reverse.1 ho)]
      rfl

theorem frontmost?_eq_none_iff :
    w.frontmost? place = none ↔ ∀ d ∈ w.drawings, w.covers place d = false := by
  unfold frontmost?
  rw [List.find?_eq_none]
  exact ⟨fun h d hd => Bool.eq_false_iff.2 (h d (List.mem_reverse.2 hd)),
    fun h d hd => Bool.eq_false_iff.1 (h d (List.mem_reverse.1 hd))⟩

end World

theorem Project.Enlists.spriteAt? {w w' : World} (h : Enlists w w') (place : Point) :
    w'.spriteAt? place = w.spriteAt? place := by
  obtain ⟨_, _, _, _, _, rfl⟩ := h
  rfl

-- Whatever has been launched before it in the frame, a click goes to what is seen under it.
theorem World.Registered.click_eq {w w' : World} (hw : w.Registered) (h : Enlists w w')
    (place : Point) : click w' place = ((w.frontmost? place).elim (w'.dispatch .stageClicked)
      fun d => w'.dispatchTo .spriteClicked d.owner).2 := by
  unfold click
  rw [h.spriteAt?, ← hw.owner_frontmost?]
  cases w.frontmost? place <;> rfl

namespace Moment

variable {κ : Conduct} {m : Moment} {q : Project}

theorem Reachable.hits_drawn (hm : Reachable κ m) (hq : Changes (.under .any) m.project q)
    (place : Point) :
    (∀ id, q.world.spriteAt? place = some id ↔ ∃ back d front,
      q.world.drawings = back ++ d :: front ∧ q.world.covers place d = true ∧ d.owner = id ∧
        ∀ other ∈ front, q.world.covers place other = false) ∧
    (q.world.spriteAt? place = none ↔ ∀ d ∈ q.world.drawings, q.world.covers place d = false) ∧
    ∀ w, Enlists q.world w →
      click w place = ((q.world.frontmost? place).elim (w.dispatch .stageClicked)
        fun d => w.dispatchTo .spriteClicked d.owner).2 := by
  have hw : q.world.Registered := (hm.any.registered_indexed hq).1
  refine ⟨fun id => ?_, ?_, fun w h => hw.click_eq h place⟩
  · rw [← hw.owner_frontmost?, Option.map_eq_some_iff]
    constructor
    · rintro ⟨d, hd, rfl⟩
      obtain ⟨hcovers, back, front, hdrawn, hfront⟩ := World.frontmost?_eq_some_iff.1 hd
      exact ⟨back, d, front, hdrawn, hcovers, rfl, hfront⟩
    · rintro ⟨back, d, front, hdrawn, hcovers, rfl, hfront⟩
      exact ⟨d, World.frontmost?_eq_some_iff.2 ⟨hcovers, back, front, hdrawn, hfront⟩, rfl⟩
  · rw [← hw.owner_frontmost?, Option.map_eq_none_iff]
    exact World.frontmost?_eq_none_iff

def cat : ActorClass where
  name := "Cat"
  kind := .sprite
  costumes := [⟨"sitting", "cat.png", 5.0, 5.0⟩]

def house : ActorClass where
  name := "House"
  kind := .stage
  costumes := [⟨"kitchen", "kitchen.png", 0.0, 0.0⟩]

def catalogue : Catalogue where
  images := [("cat.png", 10.0, 10.0)]

def furnished : Project :=
  ((({} : Project).register house .stage).2.register cat .sprite).2.loadAssets (catalogue.loader [])

theorem Reachable.operated {p : Project} (hm : Reachable κ ⟨p, []⟩) (op : Operation)
    (h : op.Keeps κ) : Reachable κ ⟨op.apply p, []⟩ :=
  hm.step (.operate h)

theorem reachable_furnished : Reachable .any ⟨furnished, []⟩ := by
  have hnew : Project.new {} = .ok {} := rfl
  have hempty : Reachable .any ⟨{}, []⟩ := .start (.new hnew {} fun _ _ _ => trivial)
  have hhouse := hempty.operated (.register house .stage) fun _ _ _ => trivial
  have hcat := hhouse.operated (.register cat .sprite) fun _ _ _ => trivial
  exact hcat.operated (.loadAssets (catalogue.loader [])) trivial

-- A clone sits right behind its parent, under the same point; the stage has no box.
theorem furnished_hits :
    let q := (furnished.answer (.request ⟨1, 2⟩ (.createClone (.className "Cat")))).2
    q.world.drawings.map Drawing.owner = [1, 3, 2] ∧
      (∀ id, q.world.spriteAt? ⟨1.0, 1.0⟩ = some id ↔ ∃ back d front,
        q.world.drawings = back ++ d :: front ∧ q.world.covers ⟨1.0, 1.0⟩ d = true ∧
          d.owner = id ∧ ∀ other ∈ front, q.world.covers ⟨1.0, 1.0⟩ other = false) ∧
      q.world.spriteAt? ⟨1.0, 1.0⟩ = some 2 := by
  intro q
  have hq : Changes (.under .any) furnished q := changes_answer furnished _ nofun
  have h := Reachable.hits_drawn reachable_furnished hq ⟨1.0, 1.0⟩
  exact ⟨by decide +kernel, h.1, by decide +kernel⟩

end Moment

end SpriteStage

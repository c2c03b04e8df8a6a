import Mathlib.Order.MinMax
import SpriteStage.Proofs.Ordering
import SpriteStage.Proofs.Pointing

namespace SpriteStage

open Project

-- A box along one axis. Its ends coincide where a size or a side of an image is zero.
structure Stretch where
  low : Float
  high : Float

namespace Stretch

variable {s t : Stretch}

def common (s t : Stretch) : Stretch := ⟨max s.low t.low, min s.high t.high⟩

def Extended (s : Stretch) : Prop := s.low < s.high

instance (s : Stretch) : Decidable s.Extended := inferInstanceAs (Decidable (s.low < s.high))

def Numbers (s : Stretch) : Prop := s.low.isNaN = false ∧ s.high.isNaN = false

-- Without any extent of its own, in the middle of the other.
structure Pierces (s t : Stretch) : Prop where
  flat : s.high ≤ s.low
  above : t.low < s.high
  below : s.low < t.high

def Meets (s t : Stretch) : Prop := (s.common t).Extended ∨ s.Pierces t ∨ t.Pierces s

theorem extended_iff (hs : s.Numbers) : s.Extended ↔ height s.low < height s.high := by
  rw [Extended, float_lt_iff, hs.1, hs.2]
  exact ⟨fun h => h.2.2, fun h => ⟨rfl, rfl, h⟩⟩

theorem numbers_common (hs : s.Numbers) (ht : t.Numbers) : (s.common t).Numbers :=
  ⟨(float_max hs.1 ht.1).1, (float_min hs.2 ht.2).1⟩

theorem common_extended_iff (hs : s.Numbers) (ht : t.Numbers) : (s.common t).Extended ↔
    (s.Extended ∧ s.low < t.high) ∧ t.low < s.high ∧ t.Extended := by
  have hlow : height (s.common t).low = _ := (float_max hs.1 ht.1).2
  have hhigh : height (s.common t).high = _ := (float_min hs.2 ht.2).2
  rw [extended_iff (numbers_common hs ht), hlow, hhigh, max_lt_iff, lt_min_iff, lt_min_iff,
    extended_iff hs, extended_iff ht]
  simp only [float_lt_iff, hs.1, hs.2, ht.1, ht.2, true_and]

theorem flat_iff (hs : s.Numbers) : s.high ≤ s.low ↔ ¬ s.Extended := by
  rw [extended_iff hs, not_lt, float_le_iff, hs.1, hs.2]
  exact ⟨fun h => h.2.2, fun h => ⟨rfl, rfl, h⟩⟩

-- What the two cross comparisons leave out is the extent of either stretch.
theorem meets_iff (hs : s.Numbers) (ht : t.Numbers) :
    s.Meets t ↔ s.low < t.high ∧ t.low < s.high := by
  constructor
  · rintro (h | h | h)
    · have h := (common_extended_iff hs ht).1 h
      exact ⟨h.1.2, h.2.1⟩
    · exact ⟨h.below, h.above⟩
    · exact ⟨h.above, h.below⟩
  · rintro ⟨hst, hts⟩
    by_cases hse : s.Extended
    · by_cases hte : t.Extended
      · exact .inl ((common_extended_iff hs ht).2 ⟨⟨hse, hst⟩, hts, hte⟩)
      · exact .inr (.inr ⟨(flat_iff ht).2 hte, hst, hts⟩)
    · exact .inr (.inl ⟨(flat_iff hs).2 hse, hts, hst⟩)

theorem Extended.numbers (h : s.Extended) : s.Numbers :=
  ⟨(float_lt_iff.1 h).1, (float_lt_iff.1 h).2.1⟩

theorem Extended.meets_iff (hs : s.Extended) (ht : t.Extended) :
    s.Meets t ↔ (s.common t).Extended := by
  refine ⟨?_, .inl⟩
  rintro (h | h | h)
  · exact h
  · exact absurd hs ((flat_iff hs.numbers).1 h.flat)
  · exact absurd ht ((flat_iff ht.numbers).1 h.flat)

end Stretch

namespace Box

variable {a b : Box}

def horizontal (b : Box) : Stretch := ⟨b.xMin, b.xMax⟩

def vertical (b : Box) : Stretch := ⟨b.yMin, b.yMax⟩

def Extended (b : Box) : Prop := b.horizontal.Extended ∧ b.vertical.Extended

instance (b : Box) : Decidable b.Extended := inferInstanceAs (Decidable (_ ∧ _))

def Numbers (b : Box) : Prop := b.horizontal.Numbers ∧ b.vertical.Numbers

def SharesArea (a b : Box) : Prop :=
  (a.horizontal.common b.horizontal).Extended ∧ (a.vertical.common b.vertical).Extended

instance (a b : Box) : Decidable (a.SharesArea b) := inferInstanceAs (Decidable (_ ∧ _))

structure Meets (a b : Box) : Prop where
  numbers : a.Numbers ∧ b.Numbers
  horizontal : a.horizontal.Meets b.horizontal
  vertical : a.vertical.Meets b.vertical

theorem numbers_of_overlaps (h : a.overlaps b = true) : a.Numbers ∧ b.Numbers := by
  simp only [overlaps, Bool.and_eq_true, decide_eq_true_eq, float_lt_iff] at h
  obtain ⟨⟨⟨h₁, h₂⟩, h₃⟩, h₄⟩ := h
  exact ⟨⟨⟨h₁.1, h₂.2.1⟩, h₃.1, h₄.2.1⟩, ⟨h₂.1, h₁.2.1⟩, h₄.1, h₃.2.1⟩

theorem overlaps_iff : a.overlaps b = true ↔ a.Meets b := by
  have hcross : a.overlaps b = true ↔ (a.xMin < b.xMax ∧ b.xMin < a.xMax) ∧
      a.yMin < b.yMax ∧ b.yMin < a.yMax := by
    simp only [overlaps, Bool.and_eq_true, decide_eq_true_eq, and_assoc]
  constructor
  · intro h
    obtain ⟨ha, hb⟩ := numbers_of_overlaps h
    obtain ⟨hx, hy⟩ := hcross.1 h
    exact ⟨⟨ha, hb⟩, (Stretch.meets_iff ha.1 hb.1).2 hx, (Stretch.meets_iff ha.2 hb.2).2 hy⟩
  · rintro ⟨⟨ha, hb⟩, hx, hy⟩
    exact hcross.2 ⟨(Stretch.meets_iff ha.1 hb.1).1 hx, (Stretch.meets_iff ha.2 hb.2).1 hy⟩

theorem Extended.meets_iff (ha : a.Extended) (hb : b.Extended) : a.Meets b ↔ a.SharesArea b := by
  constructor
  · rintro ⟨-, hx, hy⟩
    exact ⟨(ha.1.meets_iff hb.1).1 hx, (ha.2.meets_iff hb.2).1 hy⟩
  · rintro ⟨hx, hy⟩
    exact ⟨⟨⟨ha.1.numbers, ha.2.numbers⟩, hb.1.numbers, hb.2.numbers⟩,
      (ha.1.meets_iff hb.1).2 hx, (ha.2.meets_iff hb.2).2 hy⟩

end Box

namespace World

variable {w : World} {a : Actor} {i : Instance}

structure Stands (w : World) (i : Instance) (b : Box) : Prop where
  live : i ∈ w.instances
  shown : i.figure.look.shown = true
  box : w.box? i.id = some b

def Near (w : World) (i : Instance) (a : Actor) (close : Box → Box → Prop) : Prop :=
  ∃ own j box, w.Stands i own ∧ w.Stands j box ∧ j.id ≠ i.id ∧ j.actor = a.id ∧ close own box

def allFinite (w : World) : Bool :=
  (w.instances.all fun i => i.figure.look.x.isFinite && i.figure.look.y.isFinite &&
    i.figure.look.size.isFinite) &&
  (w.actors.all fun a => a.costumes.all fun c => c.centreX.isFinite && c.centreY.isFinite) &&
  w.assets.all fun asset => asset.2.width.isFinite && asset.2.height.isFinite

theorem Registered.shownBox?_eq_some (hw : w.Registered) (hi : i ∈ w.instances) {b : Box} :
    w.shownBox? i.id = some b ↔ w.Stands i b := by
  unfold shownBox?
  rw [hw.instance?_of_mem hi]
  dsimp only
  split
  · rename_i hs
    exact ⟨fun h => ⟨hi, hs, h⟩, fun h => h.box⟩
  · rename_i hs
    exact iff_of_false nofun fun h => hs h.shown

theorem Registered.touching_eq (hw : w.Registered) {name : String}
    (ha : w.actorNamed? name = some a) (hs : a.isSprite = true) (hi : i ∈ w.instances) :
    ∃ touches, w.touching i.id name = .ok touches ∧ (touches = true ↔ w.Near i a Box.Meets) := by
  have hmem : a ∈ w.actors := List.mem_of_find?_eq_some ha
  unfold touching
  rw [ha]
  dsimp only
  rw [if_pos hs]
  cases hown : w.shownBox? i.id with
  | none =>
    refine ⟨false, rfl, iff_of_false nofun ?_⟩
    rintro ⟨own, j, box, hstands, -⟩
    rw [(hw.shownBox?_eq_some hi).2 hstands] at hown
    cases hown
  | some own =>
    have hstands := (hw.shownBox?_eq_some hi).1 hown
    refine ⟨_, rfl, List.any_eq_true.trans ⟨?_, ?_⟩⟩
    · rintro ⟨other, hother, h⟩
      obtain ⟨hne, hany⟩ := Bool.and_eq_true_iff.1 h
      obtain ⟨j, hj, rfl, hact⟩ := (hw.members a hmem other).1 hother
      obtain ⟨box, hbox, hover⟩ := (Option.any_eq_true _ _).1 hany
      exact ⟨own, j, box, hstands, (hw.shownBox?_eq_some hj).1 hbox, bne_iff_ne.1 hne, hact,
        Box.overlaps_iff.1 hover⟩
    · rintro ⟨own', j, box, hown', hbox, hne, hact, hmeets⟩
      obtain rfl := Option.some.inj (hstands.box.symm.trans hown'.box)
      refine ⟨j.id, (hw.members a hmem _).2 ⟨j, hbox.live, rfl, hact⟩, ?_⟩
      rw [(hw.shownBox?_eq_some hbox.live).2 hbox, Option.any_some, Box.overlaps_iff.2 hmeets,
        bne_iff_ne.2 hne]
      rfl

end World

namespace Moment

variable {κ : Conduct} {m : Moment} {q : Project} {a : Actor} {i : Instance} {name : String}

theorem Reachable.touching_iff (hm : Reachable κ m) (hq : Changes (.under .any) m.project q)
    (ha : q.world.actorNamed? name = some a) (hs : a.isSprite = true) (hi : i ∈ q.world.instances) :
    ∃ touches : Bool,
      (∀ h, h.owner = i.id → q.answer (.request h (.touching name)) = (.ok touches, q)) ∧
      (touches = true ↔ q.world.Near i a Box.Meets) ∧
      ((∀ j b, q.world.Stands j b → b.Extended) →
        (touches = true ↔ q.world.Near i a Box.SharesArea)) := by
  have hw : q.world.Registered := (hm.any.registered_indexed hq).1
  obtain ⟨touches, htouches, hmeets⟩ := hw.touching_eq ha hs hi
  refine ⟨touches, fun h ho => ?_, hmeets, fun hextended => hmeets.trans ?_⟩
  · simp only [answer, World.answer, World.tells, ho, htouches]
    rfl
  · refine exists_congr fun own => exists_congr fun j => exists_congr fun box => ?_
    refine and_congr_right fun hown => and_congr_right fun hbox => and_congr_right fun _ =>
      and_congr_right fun _ => ?_
    exact (hextended i own hown).meets_iff (hextended j box hbox)

def paired : Project := (furnished.answer (.request ⟨1, 2⟩ (.createClone (.className "Cat")))).2

theorem changes_paired : Changes (.under .any) furnished paired := changes_answer furnished _ nofun

-- The cats stand in one place, and each has the extent of its image.
theorem paired_near : ∃ a i, paired.world.actorNamed? "Cat" = some a ∧ a.isSprite = true ∧
    i ∈ paired.world.instances ∧ i.id = 2 ∧ paired.world.touching 2 "Cat" = .ok true ∧
      paired.world.Near i a Box.Meets ∧ paired.world.Near i a Box.SharesArea := by
  have hw := (reachable_furnished.registered_indexed changes_paired).1
  have hcat : (paired.world.actorNamed? "Cat").any Actor.isSprite = true := by decide +kernel
  obtain ⟨a, ha, hs⟩ := (Option.any_eq_true _ _).1 hcat
  have hlive : (paired.world.instances.any (·.id == 2)) = true := by decide +kernel
  obtain ⟨i, hi, hid⟩ := List.any_eq_true.1 hlive
  have hid := beq_iff_eq.1 hid
  have hextents : (paired.world.instances.all fun j =>
      (paired.world.shownBox? j.id).all fun b => decide b.Extended) = true := by decide +kernel
  have hextended : ∀ j b, paired.world.Stands j b → b.Extended := by
    intro j b hb
    have h := List.all_eq_true.1 hextents j hb.live
    rw [(hw.shownBox?_eq_some hb.live).2 hb] at h
    exact of_decide_eq_true h
  have htouching : paired.world.touching 2 "Cat" = .ok true := by decide +kernel
  obtain ⟨touches, hanswer, hmeets, hshares⟩ :=
    Reachable.touching_iff reachable_furnished changes_paired ha hs hi
  have htrue : touches = true := by
    have h := hanswer ⟨1, 2⟩ hid.symm
    simp only [answer, World.answer, World.tells, htouching] at h
    cases h
    rfl
  exact ⟨a, i, ha, hs, hi, hid, htouching, hmeets.1 htrue, (hshares hextended).1 htrue⟩

def shrunk : Project := (paired.answer (.request ⟨1, 3⟩ (.move (.setSize 0.0)))).2

theorem shrunk_touched : Reachable .any ⟨furnished, []⟩ ∧ Changes (.under .any) furnished shrunk ∧
    shrunk.world.allFinite = true ∧ ∃ a i, shrunk.world.actorNamed? "Cat" = some a ∧
      a.isSprite = true ∧ i ∈ shrunk.world.instances ∧ shrunk.world.touching i.id "Cat" = .ok true ∧
        ¬ shrunk.world.Near i a Box.SharesArea := by
  have hchanges : Changes (.under .any) furnished shrunk :=
    changes_paired.trans (changes_answer paired _ nofun)
  have hw := (reachable_furnished.registered_indexed hchanges).1
  have hcat : (shrunk.world.actorNamed? "Cat").any
      (fun a => a.isSprite && a.instances == [3, 2]) = true := by decide +kernel
  obtain ⟨a, ha, h⟩ := (Option.any_eq_true _ _).1 hcat
  obtain ⟨hs, hlisted⟩ := Bool.and_eq_true_iff.1 h
  have hlive : (shrunk.world.instances.any (·.id == 2)) = true := by decide +kernel
  obtain ⟨i, hi, hid⟩ := List.any_eq_true.1 hlive
  rw [beq_iff_eq] at hid hlisted
  refine ⟨reachable_furnished, hchanges, by decide +kernel, a, i, ha, hs, hi, ?_, ?_⟩
  · rw [hid]
    decide +kernel
  · rintro ⟨own, j, box, hown, hbox, hne, hact, hshares⟩
    have hj : j.id ∈ a.instances :=
      (hw.members a (List.mem_of_find?_eq_some ha) _).2 ⟨j, hbox.live, rfl, hact⟩
    have hthree : j.id = 3 := by
      rw [hlisted] at hj
      rw [hid] at hne
      simpa [hne] using hj
    have hflat : (shrunk.world.shownBox? 2).any (fun own => (shrunk.world.shownBox? 3).any fun box =>
        !decide (own.SharesArea box)) = true := by decide +kernel
    have hown := (hw.shownBox?_eq_some hi).2 hown
    have hbox := (hw.shownBox?_eq_some hbox.live).2 hbox
    rw [hid] at hown
    rw [hthree] at hbox
    rw [hown, hbox, Option.any_some, Option.any_some, decide_eq_true hshares] at hflat
    cases hflat

end Moment

end SpriteStage

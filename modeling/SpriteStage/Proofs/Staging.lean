import SpriteStage.Proofs.Pointing
import SpriteStage.Proofs.Posture

namespace SpriteStage

open Project

namespace Drawing

def isImage : Drawing → Bool
  | .image .. => true
  | .bubble .. => false

-- The locator of an image, or what a bubble says.
def content : Drawing → String
  | .image _ _ _ _ _ locator => locator
  | .bubble _ _ _ content => content

end Drawing

namespace World

variable {w : World} {i : Instance} {a : Actor} {costume : Costume} {d : Drawing}

def images (w : World) : List Drawing := w.drawings.filter Drawing.isImage

def bubbles (w : World) : List Drawing := w.drawings.filter fun d => !d.isImage

-- The stage is behind the sprites, an actor behind those that were registered later, and an
-- instance behind those that its actor lists after it.
def Behind (w : World) (id other : Nat) : Prop :=
  ∃ a ∈ w.actors, ∃ b ∈ w.actors, id ∈ a.instances ∧ other ∈ b.instances ∧
    (a.isSprite = false ∧ b.isSprite = true ∨
      a.isSprite = b.isSprite ∧ (a.id < b.id ∨ a = b ∧ [id, other].Sublist a.instances))

structure Staged (w : World) : Prop where
  layered : w.drawings = w.images ++ w.bubbles
  ordered : (w.images.Pairwise fun d e => w.Behind d.owner e.owner) ∧
    w.bubbles.Pairwise fun d e => w.Behind d.owner e.owner
  owned : ∀ d ∈ w.drawings, ∃ i ∈ w.instances, i.id = d.owner ∧
    ∃ a, w.actors[i.actor]? = some a ∧ a.costumes ≠ []
  shown : ∀ i ∈ w.instances, ∀ a, w.actors[i.actor]? = some a → a.costumes ≠ [] →
    ∃ costume, a.costumes[i.figure.look.costume]? = some costume ∧
      (w.images.filter (·.owner == i.id)).map Drawing.content =
        (if i.figure.look.shown then [costume.locator] else []) ∧
      (w.bubbles.filter (·.owner == i.id)).map Drawing.content =
        if i.figure.look.shown && a.isSprite then i.figure.speech.toList else []

section Content

theorem isImage_imageOf (w : World) (i : Instance) (a : Actor) (costume : Costume) :
    (w.imageOf i a costume).isImage = true := by
  unfold imageOf
  split <;> rfl

theorem content_imageOf (w : World) (i : Instance) (a : Actor) (costume : Costume) :
    (w.imageOf i a costume).content = costume.locator := by
  unfold imageOf
  split <;> rfl

theorem bubbleOf?_cases (w : World) (i : Instance) (a : Actor) :
    w.bubbleOf? i a = none ∧ (a.isSprite = false ∨ i.figure.speech = none) ∨
      ∃ d, w.bubbleOf? i a = some d ∧ a.isSprite = true ∧ i.figure.speech = some d.content ∧
        d.isImage = false ∧ d.owner = i.id := by
  unfold bubbleOf?
  split
  · rename_i hs
    cases i.figure.speech with
    | none => exact .inl ⟨rfl, .inr rfl⟩
    | some content =>
      rw [Option.map_some]
      split <;> exact .inr ⟨_, rfl, hs, rfl, rfl, rfl⟩
  · rename_i hs
    exact .inl ⟨rfl, .inl (Bool.not_eq_true _ ▸ hs)⟩

theorem of_bubbleOf? (h : w.bubbleOf? i a = some d) : a.isSprite = true ∧
    i.figure.speech = some d.content ∧ d.isImage = false ∧ d.owner = i.id := by
  rcases w.bubbleOf?_cases i a with ⟨hn, -⟩ | ⟨_, hd, hall⟩
  · rw [h] at hn
    cases hn
  · rw [h] at hd
    cases hd
    exact hall

theorem content_bubbleOf? (w : World) (i : Instance) (a : Actor) :
    (w.bubbleOf? i a).map Drawing.content = if a.isSprite then i.figure.speech else none := by
  rcases w.bubbleOf?_cases i a with ⟨hn, hs | hs⟩ | ⟨d, hd, hs, hc, -⟩
  · rw [hn, hs]
    rfl
  · rw [hn, hs, ite_self]
    rfl
  · rw [hd, hs, hc]
    rfl

end Content

section Lineup

-- Everybody who is there, from back to front, whether to be seen or not.
def lineup (w : World) : List (Actor × Nat) :=
  w.actorsBackToFront.flatMap fun a => a.instances.map (a, ·)

def picture? (w : World) (place : Actor × Nat) : Option Drawing :=
  (w.portrait? place.1 place.2).map fun portrait => w.imageOf portrait.1 portrait.2.1 portrait.2.2

def speech? (w : World) (place : Actor × Nat) : Option Drawing :=
  (w.portrait? place.1 place.2).bind fun portrait => w.bubbleOf? portrait.1 portrait.2.1

theorem drawn_eq_lineup (w : World) :
    w.drawn = w.lineup.filterMap fun place => w.portrait? place.1 place.2 := by
  rw [drawn_eq, lineup, List.filterMap_flatMap]
  simp only [List.filterMap_map]
  rfl

theorem drawings_eq_lineup (w : World) :
    w.drawings = w.lineup.filterMap w.picture? ++ w.lineup.filterMap w.speech? := by
  rw [drawings, drawn_eq_lineup, List.map_filterMap, List.filterMap_filterMap]
  rfl

theorem of_picture? {place : Actor × Nat} (h : w.picture? place = some d) :
    d.isImage = true ∧ d.owner = place.2 := by
  obtain ⟨portrait, hp, rfl⟩ := Option.map_eq_some_iff.1 h
  rw [owner_imageOf, id_of_portrait? hp]
  exact ⟨isImage_imageOf w _ _ _, rfl⟩

theorem of_speech? {place : Actor × Nat} (h : w.speech? place = some d) :
    d.isImage = false ∧ d.owner = place.2 := by
  obtain ⟨portrait, hp, hb⟩ := Option.bind_eq_some_iff.1 h
  obtain ⟨-, -, himage, howner⟩ := of_bubbleOf? hb
  exact ⟨himage, howner.trans (id_of_portrait? hp)⟩

theorem isImage_of_pictures (h : d ∈ w.lineup.filterMap w.picture?) : d.isImage = true := by
  obtain ⟨place, -, hp⟩ := List.mem_filterMap.1 h
  exact (of_picture? hp).1

theorem isImage_of_speeches (h : d ∈ w.lineup.filterMap w.speech?) : d.isImage = false := by
  obtain ⟨place, -, hp⟩ := List.mem_filterMap.1 h
  exact (of_speech? hp).1

theorem images_eq_lineup (w : World) : w.images = w.lineup.filterMap w.picture? := by
  have hpictures := List.filter_eq_self.2 fun d hd => isImage_of_pictures (w := w) (d := d) hd
  have hspeeches : (w.lineup.filterMap w.speech?).filter Drawing.isImage = [] :=
    List.filter_eq_nil_iff.2 fun d hd => Bool.eq_false_iff.1 (isImage_of_speeches hd)
  rw [images, drawings_eq_lineup, List.filter_append, hpictures, hspeeches, List.append_nil]

theorem bubbles_eq_lineup (w : World) : w.bubbles = w.lineup.filterMap w.speech? := by
  have hpictures : (w.lineup.filterMap w.picture?).filter (fun d => !d.isImage) = [] :=
    List.filter_eq_nil_iff.2 fun d hd => by simp [isImage_of_pictures hd]
  have hspeeches : (w.lineup.filterMap w.speech?).filter (fun d => !d.isImage) =
      w.lineup.filterMap w.speech? :=
    List.filter_eq_self.2 fun d hd => by simp [isImage_of_speeches hd]
  rw [bubbles, drawings_eq_lineup, List.filter_append, hpictures, hspeeches, List.nil_append]

theorem mem_lineup {place : Actor × Nat} :
    place ∈ w.lineup ↔ place.1 ∈ w.actors ∧ place.2 ∈ place.1.instances := by
  simp only [lineup, List.mem_flatMap, mem_actorsBackToFront, List.mem_map]
  constructor
  · rintro ⟨a, ha, id, hid, rfl⟩
    exact ⟨ha, hid⟩
  · rintro ⟨ha, hid⟩
    exact ⟨place.1, ha, place.2, hid, rfl⟩

theorem Registered.pairwise_actors (hw : w.Registered) : w.actors.Pairwise (·.id < ·.id) := by
  refine List.pairwise_iff_getElem.2 fun j k hj hk hlt => ?_
  rw [hw.positions (List.getElem?_eq_getElem hj), hw.positions (List.getElem?_eq_getElem hk)]
  exact hlt

theorem Registered.pairwise_actorsBackToFront (hw : w.Registered) :
    w.actorsBackToFront.Pairwise fun a b =>
      a.isSprite = false ∧ b.isSprite = true ∨ a.isSprite = b.isSprite ∧ a.id < b.id := by
  have hlayer : ∀ (layer : Actor → Bool) (sprite : Bool),
      (∀ a, layer a = true → a.isSprite = sprite) → (w.actors.filter layer).Pairwise fun a b =>
        a.isSprite = false ∧ b.isSprite = true ∨ a.isSprite = b.isSprite ∧ a.id < b.id := by
    intro layer sprite hl
    refine (hw.pairwise_actors.sublist List.filter_sublist).imp_of_mem fun {a b} ha hb hlt => ?_
    exact .inr ⟨(hl a (List.mem_filter.1 ha).2).trans (hl b (List.mem_filter.1 hb).2).symm, hlt⟩
  refine List.pairwise_append.2 ⟨hlayer _ false fun a ha => by simpa using ha,
    hlayer _ true fun _ ha => ha, fun a ha b hb => .inl ?_⟩
  exact ⟨by simpa using (List.mem_filter.1 ha).2, (List.mem_filter.1 hb).2⟩

theorem Registered.pairwise_lineup (hw : w.Registered) :
    w.lineup.Pairwise fun place other => w.Behind place.2 other.2 := by
  refine List.pairwise_flatMap.2 ⟨fun a ha => List.pairwise_map.2 ?_, ?_⟩
  · have ha := mem_actorsBackToFront.1 ha
    refine List.pairwise_iff_forall_sublist.2 fun {id other} hs => ?_
    have hother : other ∈ [id, other] := List.mem_cons_of_mem _ List.mem_cons_self
    exact ⟨a, ha, a, ha, hs.subset List.mem_cons_self, hs.subset hother, .inr ⟨rfl, .inr ⟨rfl, hs⟩⟩⟩
  · refine hw.pairwise_actorsBackToFront.imp_of_mem fun {a b} ha hb hab => ?_
    intro place hp other ho
    obtain ⟨id, hid, rfl⟩ := List.mem_map.1 hp
    obtain ⟨oid, hoid, rfl⟩ := List.mem_map.1 ho
    exact ⟨a, mem_actorsBackToFront.1 ha, b, mem_actorsBackToFront.1 hb, hid, hoid,
      hab.imp_right fun ⟨hs, hlt⟩ => ⟨hs, .inl hlt⟩⟩

theorem Registered.not_behind_self (hw : w.Registered) (id : Nat) : ¬ w.Behind id id := by
  rintro ⟨a, ha, b, hb, hid, hid', hab⟩
  obtain ⟨i, hi, rfl, hact⟩ := (hw.members a ha id).1 hid
  obtain ⟨j, hj, hjid, hact'⟩ := (hw.members b hb i.id).1 hid'
  obtain rfl := hw.eq_of_id hi hj hjid
  obtain rfl := hw.eq_of_actor ha hb (hact'.symm.trans hact)
  rcases hab with ⟨hf, ht⟩ | ⟨-, hlt | ⟨-, hs⟩⟩
  · rw [ht] at hf
    cases hf
  · exact Nat.lt_irrefl _ hlt
  · exact List.nodup_iff_sublist.1 (hw.listed _ ha) _ hs

theorem Registered.pairwise_filterMap (hw : w.Registered) {f : Actor × Nat → Option Drawing}
    (hf : ∀ {place d}, f place = some d → d.owner = place.2) :
    (w.lineup.filterMap f).Pairwise fun d e => w.Behind d.owner e.owner := by
  refine hw.pairwise_lineup.filterMap f fun place other hb d hd e he => ?_
  rw [hf hd, hf he]
  exact hb

-- Each instance stands in one place of the line.
theorem Registered.filter_lineup (hw : w.Registered) (hi : i ∈ w.instances)
    (ha : w.actors[i.actor]? = some a) : w.lineup.filter (·.2 == i.id) = [(a, i.id)] := by
  have ham := List.mem_of_getElem? ha
  have hmem : (a, i.id) ∈ w.lineup :=
    mem_lineup.2 ⟨ham, (hw.members a ham _).2 ⟨i, hi, rfl, (hw.positions ha).symm⟩⟩
  obtain ⟨back, front, hl⟩ := List.append_of_mem hmem
  have hp := hw.pairwise_lineup
  rw [hl, List.pairwise_append, List.pairwise_cons] at hp
  obtain ⟨-, ⟨hfront, -⟩, hback⟩ := hp
  have hother : ∀ place ∈ back ++ front, (place.2 == i.id) = false := fun place hm => by
    refine beq_eq_false_iff_ne.2 fun he => hw.not_behind_self i.id ?_
    rcases List.mem_append.1 hm with hm | hm
    · exact he ▸ hback place hm (a, i.id) List.mem_cons_self
    · exact he ▸ hfront place hm
  have hnone : ∀ places : List (Actor × Nat), (∀ place ∈ places, place ∈ back ++ front) →
      places.filter (·.2 == i.id) = [] := fun places hs =>
    List.filter_eq_nil_iff.2 fun place hm => Bool.eq_false_iff.1 (hother place (hs place hm))
  rw [hl, List.filter_append, List.filter_cons, if_pos (beq_self_eq_true i.id),
    hnone back fun _ hm => List.mem_append_left _ hm,
    hnone front fun _ hm => List.mem_append_right _ hm]
  rfl

theorem Registered.filter_filterMap (hw : w.Registered) (hi : i ∈ w.instances)
    (ha : w.actors[i.actor]? = some a) {f : Actor × Nat → Option Drawing}
    (hf : ∀ {place d}, f place = some d → d.owner = place.2) :
    (w.lineup.filterMap f).filter (·.owner == i.id) = (f (a, i.id)).toList := by
  have hpick : ∀ place : Actor × Nat, (f place).filter (·.owner == i.id) =
      if place.2 == i.id then f place else none := fun place => by
    cases hd : f place with
    | none => rw [ite_self, Option.filter_none]
    | some d => rw [Option.filter_some, hf hd]
  rw [List.filter_filterMap]
  simp only [hpick]
  rw [← List.filterMap_filter, hw.filter_lineup hi ha, List.filterMap_cons]
  cases f (a, i.id) <;> rfl

end Lineup

-- Whoever has a costume that is in range is seen unless hidden, and is heard only when seen.
theorem Registered.staged (hw : w.Registered) (hd : w.Poses Actor.Fits) : w.Staged where
  layered := by rw [drawings_eq_lineup, images_eq_lineup, bubbles_eq_lineup]
  ordered := by
    rw [images_eq_lineup, bubbles_eq_lineup]
    exact ⟨hw.pairwise_filterMap fun h => (of_picture? h).2,
      hw.pairwise_filterMap fun h => (of_speech? h).2⟩
  owned d hm := by
    have hplace : ∃ place ∈ w.lineup, ∃ portrait, w.portrait? place.1 place.2 = some portrait ∧
        d.owner = place.2 := by
      rw [drawings_eq_lineup] at hm
      rcases List.mem_append.1 hm with hm | hm
      · obtain ⟨place, hl, hp⟩ := List.mem_filterMap.1 hm
        obtain ⟨portrait, hportrait, -⟩ := Option.map_eq_some_iff.1 hp
        exact ⟨place, hl, portrait, hportrait, (of_picture? hp).2⟩
      · obtain ⟨place, hl, hs⟩ := List.mem_filterMap.1 hm
        obtain ⟨portrait, hportrait, -⟩ := Option.bind_eq_some_iff.1 hs
        exact ⟨place, hl, portrait, hportrait, (of_speech? hs).2⟩
    obtain ⟨⟨a, id⟩, hl, portrait, hportrait, howner⟩ := hplace
    obtain ⟨ham, hid⟩ := mem_lineup.1 hl
    obtain ⟨i, hi⟩ := hw.member_of_listed ham hid
    obtain ⟨hi, ha⟩ := member_eq_ok hi
    obtain ⟨hp, -, -, hcostume⟩ := portrait?_eq_some hportrait
    obtain rfl := Option.some.inj (hp.symm.trans hi)
    obtain ⟨hmem, rfl⟩ := mem_of_instance? hi
    exact ⟨_, hmem, howner.symm, a, ha, fun hn => by simp [costume?, hn] at hcostume⟩
  shown i hi a ha hn := by
    have hportrait : w.portrait? a i.id =
        if i.figure.look.shown then (costume? a i).map fun costume => (i, a, costume)
        else none := by
      rw [portrait?, hw.instance?_of_mem hi]
      rfl
    have hlt := hd i hi a ha hn
    have hcostume : costume? a i = some a.costumes[i.figure.look.costume] :=
      List.getElem?_eq_getElem hlt
    refine ⟨_, hcostume, ?_, ?_⟩
    · rw [images_eq_lineup, hw.filter_filterMap hi ha fun h => (of_picture? h).2, picture?,
        hportrait, hcostume]
      split
      · exact congrArg (fun s => [s]) (content_imageOf w _ _ _)
      · rfl
    · rw [bubbles_eq_lineup, hw.filter_filterMap hi ha fun h => (of_speech? h).2, speech?,
        hportrait, hcostume]
      split
      · rename_i hs
        rw [hs, Bool.true_and, Option.map_some, Option.bind_some, ← Option.toList_map,
          content_bubbleOf?]
        split <;> rfl
      · rename_i hs
        rw [Bool.eq_false_iff.2 hs]
        rfl

end World

namespace Moment

variable {m : Moment} {p q : Project}

theorem Scripted.drawn_once (hm : Scripted m) : m.project.world.Staged :=
  hm.registered.staged hm.dressed

theorem Scripted.pass {laps : Nat} {ids resumed : List Nat} (hp : Scripted ⟨p, ids⟩)
    (h : pass? laps ids p = some (resumed, q)) : Scripted ⟨q, []⟩ := by
  induction ids generalizing p resumed with
  | nil =>
    cases h
    exact hp
  | cons id ids ih =>
    obtain ⟨b, r, rest, ht, hrest, -⟩ := pass?_cons h
    exact ih (hp.turn ht) hrest

-- A clone wears what its parent wears and says what it says, and is behind it in both.
def parade : String :=
  "fn f() \x7b this.switch_costume(\"b\"); this.say(\"hi\"); this.create_clone_of_self() \x7d " ++
    "register(sprite(\"A\").costume(\"a\", \"p\").costume(\"b\", \"q\")" ++
    ".when(\"green-flag\", \"f\"));"

def seen (q : Project) : List (Bool × Nat × String) :=
  q.world.drawings.map fun d => (d.isImage, d.owner, d.content)

theorem seen_parade : ((Project.load parade {}).1.isOk &&
    ((Project.load parade {}).2.greenFlag.frame? 2).any fun made =>
      seen made.2 ==
        [(true, 2, "q"), (true, 1, "q"), (false, 2, "hi"), (false, 1, "hi")]) = true := by
  decide +kernel

theorem parade_drawn : ∃ p resumed q, Project.load parade {} = (.ok (), p) ∧
    p.greenFlag.frame? 2 = some (resumed, q) ∧ Scripted ⟨q, []⟩ ∧ q.world.Staged ∧
      seen q = [(true, 2, "q"), (true, 1, "q"), (false, 2, "hi"), (false, 1, "hi")] := by
  obtain ⟨hok, hframe⟩ := Bool.and_eq_true_iff.1 seen_parade
  obtain ⟨⟨resumed, q⟩, hq, hseen⟩ := (Option.any_eq_true _ _).1 hframe
  have hload := load_of_isOk hok
  have hflag : Scripted ⟨Operation.greenFlag.apply (Project.load parade {}).2, []⟩ :=
    (Scripted.load hload).operate fun _ _ h => by cases h
  have hm : Scripted ⟨q, []⟩ := hflag.frame.pass hq
  exact ⟨_, resumed, q, hload, hq, hm, Scripted.drawn_once hm, beq_iff_eq.1 hseen⟩

end Moment

end SpriteStage

import SpriteStage.Proofs.Deletion
import SpriteStage.Proofs.Runaway

namespace SpriteStage

open Project

-- What a side table says of an instance: that an attribute is shown, or that its bus has a gain.
inductive Note where
  | watcher (watcher : Watcher)
  | gain (bus : String)

namespace World

variable {w w' w'' : World} {n : Note}

def Notes (w : World) : Note → Prop
  | .watcher watcher => watcher ∈ w.watchers
  | .gain bus => ∃ gain, (bus, gain) ∈ w.gains

-- The instance that a note is about is live.
def Backs (w : World) : Note → Prop
  | .watcher watcher => w.isLive watcher.owner = true
  | .gain bus => ∃ i ∈ w.instances, bus = w.busOf i.id

structure Dangles (w : World) (n : Note) : Prop where
  noted : w.Notes n
  unbacked : ¬ w.Backs n

structure SameNotes (w w' : World) : Prop where
  watchers : w'.watchers = w.watchers
  gains : w'.gains = w.gains

namespace SameNotes

theorem refl (w : World) : w.SameNotes w := ⟨rfl, rfl⟩

theorem trans (h : w.SameNotes w') (h' : w'.SameNotes w'') : w.SameNotes w'' :=
  ⟨h'.watchers.trans h.watchers, h'.gains.trans h.gains⟩

theorem notes (h : w.SameNotes w') (hn : w'.Notes n) : w.Notes n := by
  cases n with
  | watcher watcher => rwa [Notes, h.watchers] at hn
  | gain bus => rwa [Notes, h.gains] at hn

theorem queueGroup (w : World) (starts : List Start) : w.SameNotes (w.queueGroup starts).2 := by
  obtain ⟨lastGroup, groups, spawns, hw, -⟩ := Project.world_queueGroup w starts
  rw [hw]
  exact ⟨rfl, rfl⟩

theorem dispatch (w : World) (trigger : Trigger) : w.SameNotes (w.dispatch trigger).2 :=
  queueGroup w _

end SameNotes

theorem busOf_of_owns (hw : w.Registered) (hw' : w'.Registered) (hp : w.Precedes w')
    {i : Instance} (hi : i ∈ w.instances) (ho : w'.Owns i.id i.actor) :
    w'.busOf i.id = w.busOf i.id := by
  obtain ⟨j, hj, hid, hact⟩ := ho
  rw [← hid, busOf_of_mem hw' hj, hid, busOf_of_mem hw hi, hact, hp.names _ (hw.inRange i hi)]

theorem Backs.keep (h : w.Backs n) (hw : w.Registered) (hw' : w'.Registered)
    (hp : w.Precedes w') (ho : ∀ i ∈ w.instances, w'.Owns i.id i.actor) : w'.Backs n := by
  cases n with
  | watcher watcher =>
    obtain ⟨i, hi, hid⟩ := mem_of_isLive h
    rw [Backs, ← hid]
    exact (ho i hi).isLive
  | gain bus =>
    obtain ⟨i, hi, rfl⟩ := h
    obtain ⟨j, hj, hid, -⟩ := ho i hi
    exact ⟨j, hj, by rw [hid, busOf_of_owns hw hw' hp hi (ho i hi)]⟩

theorem SameFolk.backs (h : w.SameFolk w') : w'.Backs n ↔ w.Backs n := by
  obtain ⟨ha, hi, -⟩ := h
  cases n with
  | watcher watcher => simp only [Backs, isLive, hi]
  | gain bus => simp only [Backs, busOf, instance?, className, ha, hi]

-- A deletion takes the notes on its instance along, and leaves the others backed as they were.
theorem dangles_remove (hw : w.Registered) {i : Instance} (hi : w.instance? i.id = some i)
    (hc : i.isClone = true) (h : (w.remove i).Dangles n) : w.Dangles n := by
  obtain ⟨hmem, -⟩ := mem_of_instance? hi
  have hloses := loses_remove hw hmem hc
  obtain ⟨hnoted, hunbacked⟩ := h
  cases n with
  | watcher watcher =>
    obtain ⟨hold, hne⟩ := List.mem_filter.1 hnoted
    refine ⟨hold, fun hlive => hunbacked ?_⟩
    have hlive : w.isLive watcher.owner = true := hlive
    change (w.remove i).isLive watcher.owner = true
    rw [isLive_remove, hlive, hne]
    rfl
  | gain bus =>
    obtain ⟨gain, hgain⟩ := hnoted
    obtain ⟨hold, hne⟩ := List.mem_filter.1 hgain
    refine ⟨⟨gain, hold⟩, ?_⟩
    rintro ⟨j, hj, rfl⟩
    have hid : j.id ≠ i.id := fun he => of_decide_eq_true hne (by rw [he])
    have hkept : j ∈ (w.remove i).instances := List.mem_filter.2 ⟨hj, decide_eq_true hid⟩
    exact hunbacked ⟨j, hkept, (hloses.volumes j hj hid).1.symm⟩

theorem busOf_of_gone {id : Nat} (hl : w.isLive id = false) :
    ∃ name : String, w.busOf id = s!"{name}-{id}" := by
  have hnone : w.instance? id = none := by
    refine List.find?_eq_none.2 fun i hi hid => ?_
    have hlive : w.isLive id = true := List.any_eq_true.2 ⟨i, hi, hid⟩
    rw [hl] at hlive
    cases hlive
  unfold busOf
  rw [hnone]
  exact ⟨"gone", rfl⟩

-- Whatever a class is called, the bus of what is gone is no bus of a live instance.
theorem backs_busOf (hw : w.Registered) (id : Nat) :
    w.Backs (.gain (w.busOf id)) ↔ w.isLive id = true := by
  constructor
  · rintro ⟨i, hi, he⟩
    by_contra hl
    obtain ⟨name, hgone⟩ := busOf_of_gone (by simpa using hl)
    rw [hgone, busOf_of_mem hw hi] at he
    exact hl (List.any_eq_true.2 ⟨i, hi, by simp [numbered_inj he]⟩)
  · intro hl
    obtain ⟨i, hi, rfl⟩ := mem_of_isLive hl
    exact ⟨i, hi, rfl⟩

end World

-- A request that puts a note on the instance of a handle.
inductive Exchange.Writes (p : Project) (h : Handle) : Exchange → Note → Prop where
  | shows {name : String} {label : Option String} {position : WatcherPosition}
      (hp : position.flaw? = none) :
      Writes p h (.call (.request h (.showVariable name label position)))
        (.watcher ⟨h.owner, name, label.getD name, position⟩)
  | tunes {gain : Float} :
      Writes p h (.call (.request h (.setVolume gain))) (.gain (p.world.busOf h.owner))

-- A note put on an instance that is gone by then.
def Exchange.Strays (p : Project) (e : Exchange) (n : Note) : Prop :=
  ∃ h, e.Writes p h n ∧ p.world.isLive h.owner = false

-- Nothing but deletions may take instances away.
def Scope.retaining : Scope := ⟨fun _ => True, fun _ => False, .any, True⟩

namespace Project

variable {p q r : Project} {h : Handle} {e : Exchange} {n : Note} {t : Thread}

theorem backs_of_changes (hw : p.world.Registered) (hc : Changes .retaining p q)
    (hb : p.world.Backs n) : q.world.Backs n :=
  hb.keep hw (hc.registered hw) hc.precedes fun i hi => hc.owns (fun _ => id) ⟨i, hi, rfl, rfl⟩

section Writing

theorem mem_put {x y : Watcher} {watchers : List Watcher} (hx : x ∈ y.put watchers) :
    x = y ∨ x ∈ watchers := by
  induction watchers with
  | nil => exact .inl (List.mem_singleton.1 hx)
  | cons old watchers ih =>
    simp only [Watcher.put] at hx
    split at hx
    · rcases List.mem_cons.1 hx with rfl | hx
      · exact .inl rfl
      · exact .inr (List.mem_cons_of_mem _ hx)
    · rcases List.mem_cons.1 hx with rfl | hx
      · exact .inr List.mem_cons_self
      · exact (ih hx).imp_right (List.mem_cons_of_mem _)

theorem noted_of_writes (he : e.Writes p h n) :
    p.world.SameFolk (p.perform e).world ∧ (p.perform e).world.Notes n := by
  cases he with
  | shows hp =>
    simp only [perform, world_request, World.answer, World.showVariable, hp]
    exact ⟨⟨rfl, rfl, rfl⟩, Watcher.mem_put _ _⟩
  | tunes => exact ⟨⟨rfl, rfl, rfl⟩, _, List.mem_cons_self⟩

-- What is written dangles just when the instance of the handle is gone.
theorem dangles_of_writes (hw : p.world.Registered) (he : e.Writes p h n) :
    (p.perform e).world.Dangles n ↔ p.world.isLive h.owner = false := by
  have hbacks : p.world.Backs n ↔ p.world.isLive h.owner = true := by
    cases he with
    | shows hp => exact Iff.rfl
    | tunes => exact World.backs_busOf hw h.owner
  obtain ⟨hfolk, hnoted⟩ := noted_of_writes he
  rw [← Bool.not_eq_true, ← hbacks, ← hfolk.backs]
  exact ⟨fun hd => hd.unbacked, fun hb => ⟨hnoted, hb⟩⟩

theorem notes_request {request : Request} {reply : request.Reply} {w : World}
    (ha : p.world.answer h.owner request = .ok (reply, w)) (hn : w.Notes n) :
    p.world.Notes n ∨ (Exchange.call (.request h request)).Writes p h n := by
  cases World.grants_of_answer ha with
  | sends => exact .inl ((World.SameNotes.dispatch _ _).notes hn)
  | clones hr hm =>
    rename_i source parent i a
    have hplaced : p.world.SameNotes (p.world.place i a) := ⟨rfl, rfl⟩
    exact .inl ((hplaced.trans (.queueGroup _ _)).notes hn)
  | shows hp =>
    cases n with
    | watcher watcher =>
      rcases mem_put hn with rfl | hold
      · exact .inr (.shows hp)
      · exact .inl hold
    | gain bus => exact .inl hn
  | hides =>
    cases n with
    | watcher watcher => exact .inl (List.mem_of_mem_filter hn)
    | gain bus => exact .inl hn
  | tunes =>
    cases n with
    | watcher watcher => exact .inl hn
    | gain bus =>
      obtain ⟨stored, hs⟩ := hn
      rcases List.mem_cons.1 hs with hs | hs
      · cases hs
        exact .inr .tunes
      · exact .inl ⟨stored, List.mem_of_mem_filter hs⟩
  | _ => exact .inl (World.SameNotes.notes ⟨rfl, rfl⟩ hn)

theorem sameNotes_begin (p : Project) (h : Handle) {wait : Wait} (hd : wait ≠ .delete) :
    p.world.SameNotes (p.begin h wait).2.world := by
  have ho := p.opens_begin h wait
  generalize (p.begin h wait).2.world = w at ho
  cases ho with
  | sends => exact .dispatch _ _
  | deletes => exact absurd rfl hd
  | _ => exact ⟨rfl, rfl⟩

theorem notes_perform (hd : ∀ k, ¬ e.Deletes k) (hn : (p.perform e).world.Notes n) :
    p.world.Notes n ∨ ∃ h, e.Writes p h n := by
  cases e with
  | pause k wait =>
    rw [world_pause] at hn
    have hwait : wait ≠ .delete := fun hw => hd k (by rw [hw]; exact .awaited)
    exact .inl ((sameNotes_begin p k hwait).notes hn)
  | call c =>
    cases c with
    | request k request =>
      rw [perform, world_request] at hn
      split at hn
      · rename_i ha
        exact (notes_request ha hn).imp_right fun hw => ⟨k, hw⟩
      · exact .inl hn
    | start k wait =>
      rw [perform, world_start] at hn
      have hwait : wait ≠ .delete := fun hw => hd k (by rw [hw]; exact .dropped)
      exact .inl ((sameNotes_begin p k hwait).notes hn)
    | _ => exact .inl (World.SameNotes.notes ⟨rfl, rfl⟩ hn)

end Writing

section Coming

-- Nothing comes loose on the way from one project to the other.
def Moors (p q : Project) : Prop :=
  p.world.Registered → q.world.Registered ∧ ∀ n, q.world.Dangles n → p.world.Dangles n

theorem Moors.trans (hq : p.Moors q) (hr : q.Moors r) : p.Moors r := fun hw =>
  let ⟨hw', hd⟩ := hq hw
  let ⟨hw'', hd'⟩ := hr hw'
  ⟨hw'', fun n hn => hd n (hd' n hn)⟩

theorem moors_of_same (hf : p.world.SameFolk q.world) (hn : p.world.SameNotes q.world) :
    p.Moors q := fun hw =>
  ⟨hw.same hf, fun _ hd => ⟨hn.notes hd.noted, fun hb => hd.unbacked (hf.backs.2 hb)⟩⟩

theorem moors_of_changes (hc : Changes .retaining p q) (hn : p.world.SameNotes q.world) :
    p.Moors q := fun hw =>
  ⟨hc.registered hw, fun _ hd =>
    ⟨hn.notes hd.noted, fun hb => hd.unbacked (backs_of_changes hw hc hb)⟩⟩

theorem moors_deleteInstance (p : Project) (id : Nat) :
    p.Moors (p.updateWorld fun w => (w.deleteInstance id).2) := by
  intro hw
  rcases p.world.deleteInstance_cases id with he | ⟨i, hi, hc, he⟩
  · rw [updateWorld, he]
    exact ⟨hw, fun _ hd => hd⟩
  · obtain ⟨-, rfl⟩ := World.mem_of_instance? hi
    rw [updateWorld, he]
    exact ⟨hw.remove hi hc, fun _ => World.dangles_remove hw hi hc⟩

theorem moors_stopEverything (p : Project) : p.Moors p.stopEverything := by
  have hall : ∀ (is : List Instance) (p : Project), p.Moors { p with
      world := is.foldl (fun w i => (w.deleteInstance i.id).2) p.world } := fun is => by
    induction is with
    | nil => exact fun p => moors_of_same (.refl _) (.refl _)
    | cons i is ih => exact fun p => (moors_deleteInstance p i.id).trans (ih _)
  exact (hall p.world.clones p).trans (moors_of_same ⟨rfl, rfl, rfl⟩ ⟨rfl, rfl⟩)

theorem sameNotes_endThread (p : Project) (id : Nat) :
    p.world.SameNotes (p.endThread id).world := by
  obtain ⟨groups, questions, hw, -⟩ := world_endThread p id
  rw [hw]
  exact ⟨rfl, rfl⟩

theorem Enlists.sameNotes {w w' : World} (h : Enlists w w') : w.SameNotes w' := by
  obtain ⟨_, _, _, _, _, rfl⟩ := h
  exact ⟨rfl, rfl⟩

theorem moors_endThread (p : Project) (id : Nat) : p.Moors (p.endThread id) :=
  moors_of_same (sameFolk_endThread p id) (sameNotes_endThread p id)

theorem moors_launchAll (p : Project) : p.Moors p.launchAll :=
  moors_of_changes (changes_launchAll p) (enlists_launchAll p).sameNotes

theorem moors_settle (p : Project) : p.Moors p.settle := by
  rcases settle_cases p with hstop | ⟨groups, questions, hw⟩
  · rw [hstop]
    exact moors_stopEverything p
  · refine moors_of_same ?_ ?_ <;> rw [hw]
    · exact ⟨rfl, rfl, rfl⟩
    · exact ⟨rfl, rfl⟩

theorem moors_leave (p : Project) (t : Thread) (resumption : Resumption) :
    p.Moors (p.leave t resumption) := by
  obtain ⟨groups, questions, errors, hw⟩ := world_leave p t resumption
  refine moors_of_same ?_ ?_ <;> rw [hw]
  · exact ⟨rfl, rfl, rfl⟩
  · exact ⟨rfl, rfl⟩

theorem moors_poll (p : Project) : p.Moors p.poll := by
  rw [poll_eq]
  exact moors_of_same ⟨rfl, rfl, rfl⟩ ⟨rfl, rfl⟩

theorem moors_prepare (p : Project) : p.Moors p.prepare := by
  have hpolled : p.Moors { p with frame := p.frame + 1 }.poll :=
    moors_poll { p with frame := p.frame + 1 }
  exact hpolled.trans (moors_of_changes (changes_launchInput _) (enlists_launchInput _).sameNotes)

theorem moors_broadcast (p : Project) (message : String) : p.Moors (p.broadcast message) := by
  have hsent : p.Moors (p.updateWorld fun w => (w.broadcast message).2) :=
    moors_of_same (World.sameFolk_queueGroup _ _) (.dispatch _ _)
  exact hsent.trans (moors_launchAll _)

theorem moors_greenFlag (p : Project) : p.Moors p.greenFlag := by
  have hsent : p.stopEverything.Moors
      (p.stopEverything.updateWorld fun w => (w.dispatch .greenFlag).2) :=
    moors_of_same (World.sameFolk_queueGroup _ _) (.dispatch _ _)
  exact ((moors_stopEverything p).trans hsent).trans (moors_launchAll _)

theorem moors_register (p : Project) (c : ActorClass) (kind : ActorKind) :
    p.Moors (p.register c kind).2 := by
  refine moors_of_changes (changes_register p c kind fun _ _ _ => trivial) ?_
  obtain ⟨actors, instances, last, journal, hwrites⟩ := register_writes p c kind
  rw [hwrites]
  exact ⟨rfl, rfl⟩

theorem moors_answerQuestion (p : Project) (text : String) : p.Moors (p.answerQuestion text).2 := by
  unfold answerQuestion
  split <;> exact moors_of_same ⟨rfl, rfl, rfl⟩ ⟨rfl, rfl⟩

theorem moors_loadAssets (p : Project) (loader : Loader) : p.Moors (p.loadAssets loader) := by
  rw [loadAssets_eq, poll_eq]
  exact moors_of_same ⟨rfl, rfl, rfl⟩ ⟨rfl, rfl⟩

theorem moors_apply (op : Operation) (p : Project) : p.Moors (op.apply p) := by
  cases op with
  | register c kind => exact moors_register p c kind
  | broadcast message => exact moors_broadcast p message
  | greenFlag => exact moors_greenFlag p
  | redStop => exact moors_stopEverything p
  | answer text => exact moors_answerQuestion p text
  | loadAssets loader => exact moors_loadAssets p loader
  | poll => exact moors_poll p
  | _ => exact moors_of_same ⟨rfl, rfl, rfl⟩ ⟨rfl, rfl⟩

theorem moors_turnStart (p : Project) (id : Nat) : p.Moors (p.turnStart id) := by
  refine moors_of_same ?_ ?_ <;> rw [world_turnStart]
  · exact .refl _
  · exact .refl _

theorem moors_readiness (p : Project) (id : Nat) : p.Moors (p.readiness id).2 := by
  refine moors_of_same ?_ ?_ <;> rw [world_readiness]
  · exact .refl _
  · exact .refl _

end Coming

section Straying

theorem dangles_perform (hw : p.world.Registered) (hd : (p.perform e).world.Dangles n) :
    p.world.Dangles n ∨ e.Strays p n := by
  by_cases hk : ∃ k, e.Deletes k
  · obtain ⟨k, hk⟩ := hk
    rw [world_of_deletes hk] at hd
    exact .inl ((moors_deleteInstance p k.owner hw).2 n hd)
  · have hk : ∀ k, ¬ e.Deletes k := not_exists.1 hk
    have hc : Changes .retaining p (p.perform e) :=
      changes_exchange not_awaits_any (fun _ => trivial) p hk
    rcases notes_perform hk hd.noted with hn | ⟨h, he⟩
    · exact .inl ⟨hn, fun hb => hd.unbacked (backs_of_changes hw hc hb)⟩
    · exact .inr ⟨h, he, (dangles_of_writes hw he).1 hd⟩

theorem dangles_performAll {exchanges : List Exchange} (hw : p.world.Registered)
    (hd : (p.performAll exchanges).world.Dangles n) : p.world.Dangles n ∨
      ∃ front e back, exchanges = front ++ e :: back ∧ e.Strays (p.performAll front) n := by
  induction exchanges generalizing p with
  | nil => exact .inl hd
  | cons e exchanges ih =>
    have hnext : (p.perform e).world.Registered := by
      have hc : Changes (.under .any) p (p.perform e) := changes_perform p e
      exact hc.registered hw
    rcases ih hnext hd with hd | ⟨front, e', back, rfl, he⟩
    · rcases dangles_perform hw hd with hd | he
      · exact .inl hd
      · exact .inr ⟨[], e, exchanges, rfl, he⟩
    · exact .inr ⟨e :: front, e', back, rfl, he⟩

theorem dangles_turn? {laps id : Nat} {resumed : Bool} (hw : p.world.Registered)
    (ht : p.turn? laps id = some (resumed, q)) (hd : q.world.Dangles n) : p.world.Dangles n ∨
      ∃ front e back, p.turnExchanges laps id = front ++ e :: back ∧
        e.Strays ((p.turnStart id).performAll front) n := by
  cases ran_of_turn? ht with
  | resumed hthread he =>
    obtain ⟨hstart, hfirst⟩ := moors_turnStart p id hw
    have hc : Changes (.under .any) (p.turnStart id) _ :=
      changes_performAll (p.turnStart id) (p.turnExchanges laps id)
    have hmid := ((moors_leave _ _ _).trans (moors_settle _) (hc.registered hstart)).2 n hd
    exact (dangles_performAll hstart hmid).imp_left (hfirst n)
  | passed => exact .inl ((moors_readiness p id hw).2 n hd)
  | orphaned => exact .inl (((moors_readiness p id).trans (moors_endThread _ id) hw).2 n hd)

end Straying

end Project

namespace Moment

variable {κ : Conduct} {p : Project} {m m' : Moment} {n : Note}

-- A turn on the way puts a note on an instance that is gone by then.
inductive Strayed (κ : Conduct) (n : Note) (m m' : Moment) : Prop where
  | mk {p q : Project} {laps id : Nat} {ids : List Nat} {resumed : Bool}
      {front back : List Exchange} {e : Exchange}
      (hp : Relation.ReflTransGen (Step κ) m ⟨p, id :: ids⟩)
      (ht : p.turn? laps id = some (resumed, q))
      (hx : p.turnExchanges laps id = front ++ e :: back)
      (he : e.Strays ((p.turnStart id).performAll front) n)
      (hq : Relation.ReflTransGen (Step κ) ⟨q, ids⟩ m')

theorem dangles_step (hw : m.project.world.Registered) (hs : Step κ m m')
    (hd : m'.project.world.Dangles n) : m.project.world.Dangles n ∨ Strayed κ n m m' := by
  cases hs with
  | operate => exact .inl ((moors_apply _ _ hw).2 n hd)
  | frame => exact .inl ((moors_prepare _ hw).2 n hd)
  | turn ht =>
    rcases dangles_turn? hw ht hd with hd | ⟨front, e, back, hx, he⟩
    · exact .inl hd
    · exact .inr (.mk .refl ht hx he .refl)

theorem Reachable.dangling_strayed (hm : Reachable κ m) (hs : Relation.ReflTransGen (Step κ) m m')
    (hd : m'.project.world.Dangles n) : m.project.world.Dangles n ∨ Strayed κ n m m' := by
  induction hs with
  | refl => exact .inl hd
  | tail hs hlast ih =>
    rcases dangles_step (hm.steps hs).registered hlast hd with hd | hstrayed
    · rcases ih hd with hd | ⟨hp, ht, hx, he, hq⟩
      · exact .inl hd
      · exact .inr (.mk hp ht hx he (hq.tail hlast))
    · obtain ⟨hp, ht, hx, he, hq⟩ := hstrayed
      exact .inr (.mk (hs.trans hp) ht hx he hq)

section Revenant

-- Each clone hands its own handle on to the clone that it leaves behind.
def revenant : String :=
  "fn f() \x7b this.set(\"m\", this); this.create_clone_of_self(); \x7d " ++
    "fn g() \x7b let m = this.get(\"m\"); m.show_variable(\"m\"); m.set_sound_volume(0); " ++
    "this.f(); delete_this_clone() \x7d " ++
    "register(sprite(\"A\").when(\"green-flag\", \"f\").when(\"clone\", \"g\"));"

def haunts (p : Project) : Bool :=
  (p.world.watchers.any fun watcher => !p.world.isLive watcher.owner) &&
    p.world.gains.any fun gain => p.world.instances.all fun i => gain.1 != p.world.busOf i.id

theorem haunts_revenant : ((Project.load revenant {}).1.isOk &&
    (Project.load revenant {}).2.world.watchers.isEmpty &&
      ((Project.load revenant {}).2.greenFlag.frames? 2 3).any haunts) = true := by
  decide +kernel

theorem steps_revenant : ∃ p q, Project.load revenant {} = (.ok (), p) ∧
    p.world.watchers = [] ∧ Relation.ReflTransGen (Step .loyal) ⟨p, []⟩ ⟨q, []⟩ ∧
      haunts q = true := by
  obtain ⟨hstart, hframes⟩ := Bool.and_eq_true_iff.1 haunts_revenant
  obtain ⟨hload, hempty⟩ := Bool.and_eq_true_iff.1 hstart
  obtain ⟨q, hq, hhaunts⟩ := (Option.any_eq_true _ _).1 hframes
  have hflag : ∀ p : Project, Step .loyal ⟨p, []⟩ ⟨Operation.greenFlag.apply p, []⟩ := fun _ =>
    .operate trivial
  exact ⟨_, q, load_of_isOk hload, List.isEmpty_iff.1 hempty, .head (hflag _) (steps_frames hq),
    hhaunts⟩

theorem dangles_of_haunts (h : haunts p = true) :
    (∃ watcher, p.world.Dangles (.watcher watcher)) ∧ ∃ bus, p.world.Dangles (.gain bus) := by
  obtain ⟨hwatchers, hgains⟩ := Bool.and_eq_true_iff.1 h
  obtain ⟨watcher, hwatcher, hgone⟩ := List.any_eq_true.1 hwatchers
  obtain ⟨⟨bus, gain⟩, hgain, hother⟩ := List.any_eq_true.1 hgains
  refine ⟨⟨watcher, hwatcher, ?_⟩, bus, ⟨gain, hgain⟩, ?_⟩
  · simpa [World.Backs] using hgone
  · rintro ⟨i, hi, he⟩
    exact bne_iff_ne.1 (List.all_eq_true.1 hother i hi) he

theorem revenant_strays : ∃ p q watcher, Project.load revenant {} = (.ok (), p) ∧
    Relation.ReflTransGen (Step .loyal) ⟨p, []⟩ ⟨q, []⟩ ∧ q.world.Dangles (.watcher watcher) ∧
      Strayed .loyal (.watcher watcher) ⟨p, []⟩ ⟨q, []⟩ := by
  obtain ⟨p, q, hload, hempty, hs, hhaunts⟩ := steps_revenant
  obtain ⟨⟨watcher, hd⟩, -⟩ := dangles_of_haunts hhaunts
  refine ⟨p, q, watcher, hload, hs, hd, ?_⟩
  refine ((reachable_loyal hload).dangling_strayed hs hd).resolve_left fun hfirst => ?_
  have hnoted := hfirst.noted
  rw [World.Notes, hempty] at hnoted
  cases hnoted

theorem revenant_haunts : ∃ p q, Project.load revenant {} = (.ok (), p) ∧
    Relation.ReflTransGen (Step .loyal) ⟨p, []⟩ ⟨q, []⟩ ∧
      (∃ watcher, q.world.Dangles (.watcher watcher)) ∧ ∃ bus, q.world.Dangles (.gain bus) := by
  obtain ⟨p, q, hload, -, hs, hhaunts⟩ := steps_revenant
  exact ⟨p, q, hload, hs, dangles_of_haunts hhaunts⟩

end Revenant

end Moment

end SpriteStage

import SpriteStage.Proofs.Fixture
import SpriteStage.Proofs.Kinship

namespace SpriteStage

open Project

deriving instance DecidableEq for WatcherPosition

-- What is asked of the side tables through handles, and the instances that come and go.
inductive Happening where
  | shows (owner : Nat) (name : String) (label : Option String) (position : WatcherPosition)
  | hides (owner : Nat) (name : String)
  | tunes (owner : Nat) (gain : Float)
  | leaves (id : Nat)
  | arrives (id : Nat)
  deriving DecidableEq

-- Those who come and those who go ask for nothing.
inductive Happening.Passing : Happening → Prop where
  | leaves (id : Nat) : Passing (.leaves id)
  | arrives (id : Nat) : Passing (.arrives id)

-- A position that is refused counts as if nothing had been asked.
def Exchange.heeded : Exchange → List Happening
  | .call (.request h (.showVariable name label position)) =>
    if position.flaw?.isNone then [.shows h.owner name label position] else []
  | .call (.request h (.hideVariable name)) => [.hides h.owner name]
  | .call (.request h (.setVolume gain)) => [.tunes h.owner gain]
  | _ => []

section Reading

variable {α : Type} {f : List Happening → α} {value : α} {now : Happening}
  {news past : List Happening}

-- A history read from its latest end: what says nothing is passed over.
theorem read_skipped (h : ∀ x ∈ news, ∀ past, f (x :: past) = f past) :
    f (news ++ past) = f past := by
  induction news with
  | nil => rfl
  | cons x news ih =>
    obtain ⟨hx, hrest⟩ := List.forall_mem_cons.1 h
    exact (hx _).trans (ih hrest)

theorem read_settled (h : ∀ x ∈ news, x ≠ now → ∀ past, f (x :: past) = f past) (hn : now ∈ news)
    (hv : ∀ past, f (now :: past) = value) : f (news ++ past) = value := by
  induction news with
  | nil => cases hn
  | cons x news ih =>
    obtain ⟨hx, hrest⟩ := List.forall_mem_cons.1 h
    by_cases he : x = now
    · exact he ▸ hv _
    · exact (hx he _).trans (ih hrest ((List.mem_cons.1 hn).resolve_left (Ne.symm he)))

end Reading

namespace World

variable {w w' w'' : World} {id : Nat}

-- The instances that have gone and those that have come, from one world to another.
def turnover (w w' : World) : List Happening :=
  ((w.instances.filter fun i => !w'.isLive i.id).map fun i => .leaves i.id) ++
    (w'.instances.filter fun i => !w.isLive i.id).map fun i => .arrives i.id

def drops (w w' : World) (id : Nat) : Bool := w.isLive id && !w'.isLive id

theorem isLive_of_mem {i : Instance} (hi : i ∈ w.instances) : w.isLive i.id = true :=
  List.any_eq_true.2 ⟨i, hi, beq_self_eq_true _⟩

theorem drops_iff : w.drops w' id = true ↔
    ∃ i ∈ w.instances.filter fun i => !w'.isLive i.id, i.id = id := by
  rw [drops, Bool.and_eq_true]
  constructor
  · rintro ⟨hlive, hgone⟩
    obtain ⟨i, hi, rfl⟩ := mem_of_isLive hlive
    exact ⟨i, List.mem_filter.2 ⟨hi, hgone⟩, rfl⟩
  · rintro ⟨i, hi, rfl⟩
    obtain ⟨hmem, hgone⟩ := List.mem_filter.1 hi
    exact ⟨isLive_of_mem hmem, hgone⟩

theorem leaves_mem_turnover : .leaves id ∈ w.turnover w' ↔ w.drops w' id = true := by
  simp only [turnover, drops_iff, List.mem_append, List.mem_map, Happening.leaves.injEq,
    reduceCtorEq, and_false, exists_false, or_false]

theorem arrives_mem_turnover : .arrives id ∈ w.turnover w' ↔ w'.drops w id = true := by
  simp only [turnover, drops_iff, List.mem_append, List.mem_map, Happening.arrives.injEq,
    reduceCtorEq, and_false, exists_false, false_or]

theorem passing_of_mem_turnover {now : Happening} (h : now ∈ w.turnover w') : now.Passing := by
  rcases List.mem_append.1 h with h | h
  · obtain ⟨i, -, rfl⟩ := List.mem_map.1 h
    exact .leaves i.id
  · obtain ⟨i, -, rfl⟩ := List.mem_map.1 h
    exact .arrives i.id

theorem SameFolk.isLive (h : w.SameFolk w') (id : Nat) : w'.isLive id = w.isLive id := by
  rw [World.isLive, World.isLive, h.instances]

theorem SameFolk.busOf (h : w.SameFolk w') (id : Nat) : w'.busOf id = w.busOf id := by
  simp only [World.busOf, instance?, className, h.actors, h.instances]

theorem SameFolk.turnover (h : w.SameFolk w') : w.turnover w' = [] := by
  refine List.eq_nil_iff_forall_not_mem.2 fun now hnow => ?_
  cases passing_of_mem_turnover hnow with
  | leaves id =>
    have hd := leaves_mem_turnover.1 hnow
    rw [drops, h.isLive, Bool.and_not_self] at hd
    cases hd
  | arrives id =>
    have hd := arrives_mem_turnover.1 hnow
    rw [drops, h.isLive, Bool.and_not_self] at hd
    cases hd

theorem SameFolk.turnover_from (h : w.SameFolk w') : w'.turnover w'' = w.turnover w'' := by
  simp only [World.turnover, World.isLive, h.instances]

-- The side tables change in no other way than by losing what is about instances that have gone.
structure Sheds (w w' : World) : Prop where
  watchers : w'.watchers = w.watchers.filter fun x => !w.drops w' x.owner
  gains : w'.gains.Sublist w.gains
  volumes : ∀ id, w.isLive id = true → w'.isLive id = true → w'.volume id = w.volume id

theorem sheds_of_kept (hn : w.SameNotes w') (hl : ∀ id, w.isLive id = true →
    w'.isLive id = true ∧ w'.busOf id = w.busOf id) : w.Sheds w' := by
  refine ⟨?_, hn.gains ▸ .refl _, fun id hid _ => ?_⟩
  · rw [hn.watchers]
    refine (List.filter_eq_self.2 fun x _ => ?_).symm
    cases hx : w.isLive x.owner with
    | false => simp [drops, hx]
    | true => simp [drops, (hl _ hx).1]
  · rw [volume, volume, hn.gains, (hl id hid).2]

theorem sheds_of_same (hf : w.SameFolk w') (hn : w.SameNotes w') : w.Sheds w' :=
  sheds_of_kept hn fun id hid => ⟨(hf.isLive id).trans hid, hf.busOf id⟩

theorem Sheds.same (h : w.Sheds w') (hf : w'.SameFolk w'') (hn : w'.SameNotes w'') :
    w.Sheds w'' := by
  have hdrops : w.drops w'' = w.drops w' := funext fun id => by rw [drops, drops, hf.isLive]
  refine ⟨?_, hn.gains ▸ h.gains, fun id hid hid' => ?_⟩
  · rw [hn.watchers, h.watchers, hdrops]
  · rw [volume, hn.gains, hf.busOf]
    exact h.volumes id hid ((hf.isLive id).symm.trans hid')

theorem sheds_deleteInstance (hw : w.Registered) (id : Nat) : w.Sheds (w.deleteInstance id).2 := by
  rcases w.deleteInstance_cases id with he | ⟨i, hi, hc, he⟩
  · rw [he]
    exact sheds_of_same (.refl w) (.refl w)
  · obtain ⟨hmem, rfl⟩ := mem_of_instance? hi
    have hloses := loses_remove hw hmem hc
    rw [he]
    refine ⟨hloses.watchers.trans (List.filter_congr fun x _ => ?_),
      hloses.gains ▸ List.filter_sublist, fun id hid hid' => ?_⟩
    · rw [drops, isLive_remove]
      by_cases hx : x.owner = i.id
      · simp [hx, isLive_of_mem hmem]
      · simp [hx]
    · rw [isLive_remove, Bool.and_eq_true, decide_eq_true_iff] at hid'
      obtain ⟨j, hj, rfl⟩ := mem_of_isLive hid
      obtain ⟨hbus, hgain⟩ := hloses.volumes j hj hid'.2
      rw [volume, volume, hbus, Gains.get, Gains.get, hgain]

-- What has happened to the side tables since they were empty, the latest first.
inductive Annals : List Happening → World → Prop where
  | quiet {w : World} (hn : ∀ n, ¬ w.Notes n) : Annals [] w
  | sheds {past : List Happening} {w w' : World} (ha : Annals past w) (h : w.Sheds w') :
      Annals (w.turnover w' ++ past) w'
  | shows {past : List Happening} {w : World} {owner : Nat} {name : String}
      {label : Option String} {position : WatcherPosition} (ha : Annals past w) :
      Annals (.shows owner name label position :: past)
        { w with watchers := Watcher.put ⟨owner, name, label.getD name, position⟩ w.watchers }
  | hides {past : List Happening} {w : World} {owner : Nat} {name : String} (ha : Annals past w) :
      Annals (.hides owner name :: past) { w with watchers := Watcher.hide owner name w.watchers }
  | tunes {past : List Happening} {w : World} {owner : Nat} {gain : Float} (ha : Annals past w) :
      Annals (.tunes owner gain :: past) (w.setVolume owner gain).2

theorem Annals.same {past : List Happening} (ha : Annals past w) (hf : w.SameFolk w')
    (hn : w.SameNotes w') : Annals past w' := by
  have hnext := ha.sheds (sheds_of_same hf hn)
  rwa [hf.turnover] at hnext

end World

namespace Project

variable {p q : Project} {e : Exchange} {past : List Happening}

def happens (p : Project) (e : Exchange) : List Happening :=
  p.world.turnover (p.perform e).world ++ e.heeded

def tale (p : Project) : List Exchange → List Happening
  | [] => []
  | e :: later => (p.perform e).tale later ++ p.happens e

-- A turn ends with the threads and the instances that do not outlast it.
def turnTale (p : Project) (laps id : Nat) (q : Project) : List Happening :=
  ((p.turnStart id).performAll (p.turnExchanges laps id)).world.turnover q.world ++
    (p.turnStart id).tale (p.turnExchanges laps id)

theorem sheds_of_changes (hw : p.world.Registered) (hc : Changes .retaining p q)
    (hn : p.world.SameNotes q.world) : p.world.Sheds q.world := by
  refine World.sheds_of_kept hn fun id hid => ?_
  obtain ⟨i, hi, rfl⟩ := World.mem_of_isLive hid
  have howns := hc.owns (fun _ => id) ⟨i, hi, rfl, rfl⟩
  exact ⟨howns.isLive, World.busOf_of_owns hw (hc.registered hw) hc.precedes hi howns⟩

section Exchanges

theorem sameNotes_answer {h : Handle} {r : Request} {reply : r.Reply} {w : World}
    (he : (Exchange.call (.request h r)).heeded = [])
    (ha : p.world.answer h.owner r = .ok (reply, w)) : p.world.SameNotes w := by
  cases World.grants_of_answer ha with
  | sends => exact .dispatch _ _
  | clones hr hm =>
    rename_i source parent i a
    have hplaced : p.world.SameNotes (p.world.place i a) := ⟨rfl, rfl⟩
    exact hplaced.trans (.queueGroup _ _)
  | shows hp => simp [Exchange.heeded, hp] at he
  | hides => cases he
  | tunes => cases he
  | _ => exact ⟨rfl, rfl⟩

theorem sameNotes_perform (he : e.heeded = []) (hd : ∀ k, ¬ e.Deletes k) :
    p.world.SameNotes (p.perform e).world := by
  cases e with
  | pause h wait =>
    rw [world_pause]
    exact sameNotes_begin p h fun hw => hd h (hw ▸ .awaited)
  | call c =>
    cases c with
    | request h r =>
      rw [perform, world_request]
      split
      · rename_i ha
        exact sameNotes_answer he ha
      · exact .refl _
    | start h wait =>
      rw [perform, world_start]
      exact sameNotes_begin p h fun hw => hd h (hw ▸ .dropped)
    | _ => exact ⟨rfl, rfl⟩

theorem sheds_perform (hw : p.world.Registered) (he : e.heeded = []) :
    p.world.Sheds (p.perform e).world := by
  by_cases hk : ∃ k, e.Deletes k
  · obtain ⟨k, hk⟩ := hk
    rw [world_of_deletes hk]
    exact World.sheds_deleteInstance hw k.owner
  · have hk : ∀ k, ¬ e.Deletes k := not_exists.1 hk
    have hc : Changes .retaining p (p.perform e) :=
      changes_exchange not_awaits_any (fun _ => trivial) p hk
    exact sheds_of_changes hw hc (sameNotes_perform he hk)

theorem world_show (p : Project) (h : Handle) (name : String) (label : Option String)
    {position : WatcherPosition} (hp : position.flaw? = none) :
    (p.perform (.call (.request h (.showVariable name label position)))).world = { p.world with
      watchers := Watcher.put ⟨h.owner, name, label.getD name, position⟩ p.world.watchers } := by
  simp only [perform, world_request, World.answer, World.showVariable, hp]

theorem annals_perform (hw : p.world.Registered) (ha : p.world.Annals past) (e : Exchange) :
    (p.perform e).world.Annals (p.happens e ++ past) := by
  by_cases he : e.heeded = []
  · rw [happens, he, List.append_nil]
    exact ha.sheds (sheds_perform hw he)
  · have hnews : p.world.SameFolk (p.perform e).world → p.happens e ++ past = e.heeded ++ past :=
      fun hf => by rw [happens, hf.turnover, List.nil_append]
    cases e with
    | pause h wait => exact absurd rfl he
    | call c =>
      cases c with
      | request h r =>
        cases r with
        | showVariable name label position =>
          cases hp : position.flaw? with
          | some reason => simp [Exchange.heeded, hp] at he
          | none =>
            have hshown := world_show p h name label hp
            rw [hnews (hshown ▸ ⟨rfl, rfl, rfl⟩), hshown]
            simp only [Exchange.heeded, hp, Option.isNone_none, if_true]
            exact ha.shows
        | hideVariable name =>
          rw [hnews ⟨rfl, rfl, rfl⟩]
          exact ha.hides
        | setVolume gain =>
          rw [hnews ⟨rfl, rfl, rfl⟩]
          exact ha.tunes
        | _ => exact absurd rfl he
      | _ => exact absurd rfl he

theorem registered_perform (hw : p.world.Registered) (e : Exchange) :
    (p.perform e).world.Registered := by
  have hc : Changes (.under .any) p (p.perform e) := changes_perform p e
  exact hc.registered hw

theorem annals_performAll (hw : p.world.Registered) (ha : p.world.Annals past)
    (exchanges : List Exchange) :
    (p.performAll exchanges).world.Annals (p.tale exchanges ++ past) := by
  induction exchanges generalizing p past with
  | nil => exact ha
  | cons e later ih =>
    have hnext := ih (registered_perform hw e) (annals_perform hw ha e)
    rwa [tale, List.append_assoc]

end Exchanges

section Around

theorem isLive_stilled (hw : p.world.Registered) {i : Instance} (hi : i ∈ p.world.instances) :
    p.stilled.world.isLive i.id = !i.isClone := by
  rw [Bool.eq_iff_iff, Bool.not_eq_true']
  constructor
  · intro hlive
    obtain ⟨j, hj, hji⟩ := World.mem_of_isLive hlive
    obtain ⟨hjm, hjc⟩ := List.mem_filter.1 hj
    rw [hw.eq_of_id hi hjm hji] at hjc
    simpa using hjc
  · exact fun hc => World.isLive_of_mem (mem_stilled hi hc)

theorem sheds_stopEverything (hw : p.world.Registered) : p.world.Sheds p.stopEverything.world := by
  rw [stopEverything_eq_stilled hw]
  refine ⟨List.filter_congr fun x _ => ?_, List.filter_sublist, fun id hid hid' => ?_⟩
  · cases hx : p.world.isLive x.owner with
    | false =>
      rw [World.drops, hx, Bool.false_and, Bool.not_false]
      refine List.all_eq_true.2 fun i hi => decide_eq_true fun he => ?_
      have hlive := World.isLive_of_mem (World.mem_clones.1 hi).1
      rw [he, hx] at hlive
      cases hlive
    | true =>
      obtain ⟨i, hi, hid⟩ := World.mem_of_isLive hx
      rw [← hid] at hx ⊢
      rw [World.all_clones hw hi, World.drops, hx, isLive_stilled hw hi, Bool.true_and,
        Bool.not_not]
  · obtain ⟨i, hi, rfl⟩ := World.mem_of_isLive hid'
    obtain ⟨hmem, hc⟩ := List.mem_filter.1 hi
    have hc : i.isClone = false := by simpa using hc
    rw [World.volume, World.volume, busOf_stilled hw hmem hc, Gains.get, Gains.get,
      gains_stilled hw hmem hc]

theorem sheds_settle (hw : p.world.Registered) : p.world.Sheds p.settle.world := by
  rcases settle_cases p with hstop | ⟨groups, questions, he⟩
  · rw [hstop]
    exact sheds_stopEverything hw
  · rw [he]
    exact World.sheds_of_same ⟨rfl, rfl, rfl⟩ ⟨rfl, rfl⟩

theorem sameNotes_leave (p : Project) (t : Thread) (r : Resumption) :
    p.world.SameNotes (p.leave t r).world := by
  obtain ⟨groups, questions, errors, hw⟩ := world_leave p t r
  rw [hw]
  exact ⟨rfl, rfl⟩

theorem annals_turn? {laps id : Nat} {resumed : Bool} (hw : p.world.Registered)
    (ha : p.world.Annals past) (ht : p.turn? laps id = some (resumed, q)) :
    q.world.Annals (p.turnTale laps id q ++ past) := by
  have hstart : (p.turnStart id).world.Registered := by rwa [world_turnStart]
  have hmid := annals_performAll hstart ((world_turnStart p id).symm ▸ ha) (p.turnExchanges laps id)
  rw [turnTale, List.append_assoc]
  cases ran_of_turn? ht with
  | resumed hthread he =>
    rename_i t r
    have hc : Changes (.under .any) (p.turnStart id) _ :=
      changes_performAll (p.turnStart id) (p.turnExchanges laps id)
    have hfolk := sameFolk_leave ((p.turnStart id).performAll (p.turnExchanges laps id)) t r
    have hleft := (hmid.same hfolk (sameNotes_leave _ t r)).sheds
      (sheds_settle ((hc.registered hstart).same hfolk))
    rwa [hfolk.turnover_from] at hleft
  | passed hd =>
    refine hmid.sheds (World.sheds_of_same ?_ ?_) <;>
      rw [turnExchanges_of_not_due hd, performAll, List.foldl_nil, world_turnStart, world_readiness]
    · exact .refl _
    · exact .refl _
  | orphaned hd =>
    refine hmid.sheds (World.sheds_of_same ?_ ?_) <;>
      rw [turnExchanges_of_not_due (by simp [hd]), performAll, List.foldl_nil, world_turnStart,
        ← world_readiness p id]
    · exact sameFolk_endThread _ _
    · exact sameNotes_endThread _ _

theorem sameNotes_prepare (p : Project) : p.world.SameNotes p.prepare.world := by
  refine .trans ?_ (enlists_launchInput _).sameNotes
  rw [poll_eq]
  exact ⟨rfl, rfl⟩

theorem sheds_register (hw : p.world.Registered) (c : ActorClass) (kind : ActorKind) :
    p.world.Sheds (p.register c kind).2.world := by
  refine sheds_of_changes hw (changes_register p c kind fun _ _ _ => trivial) ?_
  obtain ⟨actors, instances, last, journal, hwrites⟩ := register_writes p c kind
  rw [hwrites]
  exact ⟨rfl, rfl⟩

theorem registered_register (hw : p.world.Registered) (c : ActorClass) (kind : ActorKind) :
    (p.register c kind).2.world.Registered :=
  (changes_register (σ := .under .any) p c kind fun _ _ _ => trivial).registered hw

theorem sheds_apply (hw : p.world.Registered) (op : Operation) :
    p.world.Sheds (op.apply p).world := by
  have sends (p : Project) (trigger : Trigger) : p.world.SameFolk
      (p.updateWorld fun w => (w.dispatch trigger).2).launchAll.world ∧ p.world.SameNotes
      (p.updateWorld fun w => (w.dispatch trigger).2).launchAll.world :=
    ⟨((enlists_queueGroup p.world _).trans (enlists_launchAll _)).sameFolk,
      ((enlists_queueGroup p.world _).trans (enlists_launchAll _)).sameNotes⟩
  cases op with
  | register c kind => exact sheds_register hw c kind
  | broadcast message =>
    obtain ⟨hf, hn⟩ := sends p (.message message)
    exact World.sheds_of_same hf hn
  | greenFlag =>
    obtain ⟨hf, hn⟩ := sends p.stopEverything .greenFlag
    exact (sheds_stopEverything hw).same hf hn
  | redStop => exact sheds_stopEverything hw
  | answer text =>
    simp only [Operation.apply, answerQuestion]
    split <;> exact World.sheds_of_same ⟨rfl, rfl, rfl⟩ ⟨rfl, rfl⟩
  | loadAssets loader =>
    simp only [Operation.apply, loadAssets_eq, poll_eq]
    exact World.sheds_of_same ⟨rfl, rfl, rfl⟩ ⟨rfl, rfl⟩
  | poll =>
    simp only [Operation.apply, poll_eq]
    exact World.sheds_of_same ⟨rfl, rfl, rfl⟩ ⟨rfl, rfl⟩
  | _ => exact World.sheds_of_same ⟨rfl, rfl, rfl⟩ ⟨rfl, rfl⟩

end Around

section Starting

-- What the top level of a script asks for, and the registrations that follow.
inductive Prologue : List Happening → Project → Prop where
  | quiet {p : Project} (hw : p.world.Registered) (hn : ∀ n, ¬ p.world.Notes n) : Prologue [] p
  | called {p : Project} {past : List Happening} (hp : Prologue past p) (c : Call) :
      Prologue (p.happens (.call c) ++ past) (p.answer c).2
  | aside {p q : Project} {past : List Happening} (hp : Prologue past p)
      (hf : p.world.SameFolk q.world) (hn : p.world.SameNotes q.world) : Prologue past q
  | registered {p : Project} {past : List Happening} (hp : Prologue past p) (c : ActorClass)
      (kind : ActorKind) :
      Prologue (p.world.turnover (p.register c kind).2.world ++ past) (p.register c kind).2

theorem Prologue.annals (hp : Prologue past p) : p.world.Registered ∧ p.world.Annals past := by
  induction hp with
  | quiet hw hn => exact ⟨hw, .quiet hn⟩
  | called hp c ih =>
    exact ⟨registered_perform ih.1 (.call c), annals_perform ih.1 ih.2 (.call c)⟩
  | aside hp hf hn ih => exact ⟨ih.1.same hf, ih.2.same hf hn⟩
  | registered hp c kind ih =>
    exact ⟨registered_register ih.1 c kind, ih.2.sheds (sheds_register ih.1 c kind)⟩

theorem prologue_of_new {config : Config} (h : Project.new config = .ok p) : Prologue [] p := by
  refine .quiet (.of_blank (blank_of_new h).world) fun n hn => ?_
  rw [new_eq_ok h] at hn
  cases n with
  | watcher shown => exact List.not_mem_nil hn
  | gain bus =>
    obtain ⟨gain, hg⟩ := hn
    exact List.not_mem_nil hg

theorem prologue_answer (query : Script.Query) (l : Script.Loading)
    (hp : ∃ past, Prologue past l.project) :
    ∃ past, Prologue past (Script.Loading.answer query l).2.project := by
  obtain ⟨past, hp⟩ := hp
  cases query with
  | call c awaits => exact ⟨_, hp.called c⟩
  | declare d => exact ⟨_, hp⟩
  | limitLoops max => exact ⟨_, hp.aside ⟨rfl, rfl, rfl⟩ ⟨rfl, rfl⟩⟩
  | countLoop =>
    have hn : Prologue past l.project.noteImportLoop.2 := hp.aside ⟨rfl, rfl, rfl⟩ ⟨rfl, rfl⟩
    refine ⟨past, ?_⟩
    simp only [Script.Loading.answer]
    split
    · rename_i heq
      rwa [heq] at hn
    · rename_i heq
      rwa [heq] at hn

theorem prologue_load {source : String} {config : Config}
    (h : Project.load source config = (.ok (), p)) : ∃ past, Prologue past p :=
  load_induction (J := fun p => ∃ past, Prologue past p) (I := fun p => ∃ past, Prologue past p)
    (fun _ hp => ⟨[], prologue_of_new hp⟩) prologue_answer
    (fun _ _ ⟨past, hp⟩ => ⟨past, hp.aside ⟨rfl, rfl, rfl⟩ ⟨rfl, rfl⟩⟩)
    (fun _ c kind _ ⟨_, hp⟩ => ⟨_, hp.registered c kind⟩) h

end Starting

end Project

namespace Moment

variable {κ : Conduct} {m : Moment} {past : List Happening}

-- A run, and what has happened in it to the side tables, the latest first.
inductive Story (κ : Conduct) : List Happening → Moment → Prop where
  | start {p : Project} {past : List Happening} (h : Start κ p) (hp : Prologue past p) :
      Story κ past ⟨p, []⟩
  | operate {p : Project} {op : Operation} {past : List Happening} (hm : Story κ past ⟨p, []⟩)
      (h : op.Keeps κ) :
      Story κ (p.world.turnover (op.apply p).world ++ past) ⟨op.apply p, []⟩
  | frame {p : Project} {past : List Happening} (hm : Story κ past ⟨p, []⟩) :
      Story κ past ⟨p.prepare, p.prepare.threads.map (·.id)⟩
  | turn {laps id : Nat} {ids : List Nat} {resumed : Bool} {p q : Project}
      {past : List Happening} (hm : Story κ past ⟨p, id :: ids⟩)
      (ht : p.turn? laps id = some (resumed, q)) :
      Story κ (p.turnTale laps id q ++ past) ⟨q, ids⟩

theorem Start.prologue {p : Project} (h : Start κ p) : ∃ past, Prologue past p := by
  cases h with
  | new h bus hl => exact ⟨[], (prologue_of_new h).aside ⟨rfl, rfl, rfl⟩ ⟨rfl, rfl⟩⟩
  | script h hl hj => exact prologue_load h

theorem Reachable.story (hm : Reachable κ m) : ∃ past, Story κ past m := by
  refine hm.induction (motive := fun m => ∃ past, Story κ past m)
    (fun h => h.prologue.imp fun past hp => .start h hp) fun _ hs ih => ?_
  obtain ⟨past, hm⟩ := ih
  cases hs with
  | operate h => exact ⟨_, hm.operate h⟩
  | frame => exact ⟨_, hm.frame⟩
  | turn ht => exact ⟨_, hm.turn ht⟩

theorem Story.reachable (hm : Story κ past m) : Reachable κ m := by
  induction hm with
  | start h hp => exact .start h
  | operate hm h ih => exact ih.step (.operate h)
  | frame hm ih => exact ih.step .frame
  | turn hm ht ih => exact ih.step (.turn ht)

theorem Story.annals (hm : Story κ past m) : m.project.world.Annals past := by
  induction hm with
  | start h hp => exact hp.annals.2
  | operate hm h ih => exact ih.sheds (sheds_apply hm.reachable.registered _)
  | frame hm ih => exact ih.same (sameFolk_prepare _) (sameNotes_prepare _)
  | turn hm ht ih => exact annals_turn? hm.reachable.registered ih ht

-- The same in the midst of a turn, whatever is done from there on.
theorem Story.annals_performAll (hm : Story κ past m) {p : Project}
    (hp : p.world = m.project.world) (exchanges : List Exchange) :
    (p.performAll exchanges).world.Annals (p.tale exchanges ++ past) :=
  Project.annals_performAll (hp ▸ hm.reachable.registered) (hp ▸ hm.annals) exchanges

end Moment

end SpriteStage

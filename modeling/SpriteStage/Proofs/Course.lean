import SpriteStage.Proofs.Deed
import SpriteStage.Proofs.Loading

namespace SpriteStage.Project

variable {σ : Scope} {κ : Conduct} {h : Handle} {p q : Project}

def Licensed (σ : Scope) (h : Handle) : Prop :=
  ∀ {c : Call} {next : c.Reply → Behavior}, σ.conduct.keeps h (.call c next) →
    ∀ k wait, c = .start k wait →
      ¬ σ.conduct.Awaits ∧ σ.turns k.thread ∧ σ.removes k.owner

theorem licensed_of_awaits (ha : σ.conduct.Awaits) (h : Handle) : Licensed σ h := by
  rintro c next hc k wait rfl
  cases ha _ _ _ hc

theorem licensed_of_all (ht : ∀ id, σ.turns id) (hr : ∀ id, σ.removes id) (h : Handle) :
    Licensed σ h := by
  rintro c next hc k wait rfl
  refine ⟨fun ha => ?_, ht k.thread, hr k.owner⟩
  cases ha _ _ _ hc

theorem deleteInstance_of_kept {w : World} {id : Nat} (h : (w.deleteInstance id).1 = .kept) :
    (w.deleteInstance id).2 = w := by
  unfold World.deleteInstance at h ⊢
  split at h
  · cases h
  · split at h
    · cases h
    · rename_i hc
      exact if_neg hc ▸ rfl

theorem licensed_under (κ : Conduct) (h : Handle) : Licensed (.under κ) h :=
  licensed_of_all (fun _ => trivial) (fun _ => trivial) h

-- A wait that passes has asked nothing, and a deletion that passes has found a founder.
theorem changes_of_passes {wait : Wait} {outcome : Except CallError wait.Reply}
    (hw : p.begin h wait = (.passes outcome, q)) : Changes σ p q := by
  by_cases hask : ∃ prompt, wait = .ask prompt
  · obtain ⟨prompt, rfl⟩ := hask
    cases hw
  · by_cases hdelete : wait = .delete
    · subst hdelete
      simp only [begin] at hw
      split at hw
      · rename_i hk
        cases hw
        rw [deleteInstance_of_kept hk]
        exact .single (.mailbox _ _)
      · cases hw
    · have hb : Changes σ p (p.begin h wait).2 :=
        changes_begin p wait (fun h => absurd h hask) fun h => absurd h hdelete
      rwa [hw] at hb

theorem changes_of_deeds (hσ : Licensed σ h) (hd : Deeds σ.conduct h p q) : Changes σ p q := by
  induction hd with
  | refl => exact .refl
  | tail _ hq ih =>
    refine ih.trans ?_
    cases hq with
    | call hc =>
      refine changes_answer _ _ fun k wait hk => ?_
      obtain ⟨hn, ht, hr⟩ := hσ hc k wait hk
      exact ⟨fun _ => ⟨ht, fun ha => absurd ha hn⟩, fun _ => hr⟩
    | passed hw => exact changes_of_passes hw

theorem changes_of_closes (ht : σ.turns h.thread) (hr : σ.removes h.owner)
    (hl : h.thread ≤ p.lastThread) {halt : Halt} (hc : Closes κ h p halt q) : Changes σ p q := by
  cases hc with
  | finished => exact .refl
  | failed failure => exact .refl
  | jumps _ => exact .refl
  | suspended hk hw =>
    rename_i wait _ _ _
    have hb : Changes σ p (p.begin h wait).2 := changes_begin p wait (fun _ => ⟨ht, fun _ => hl⟩) fun _ => hr
    rw [hw] at hb
    exact hb.tail (.mailbox _ _)

theorem endThread_updateWorld (p : Project) (id : Nat) :
    (p.updateWorld fun w => { w with deleted := [] }).endThread id =
      (p.endThread id).updateWorld fun w => { w with deleted := [] } := by
  have ht : (p.updateWorld fun w => { w with deleted := [] }).thread? id = p.thread? id := rfl
  unfold endThread
  rw [ht]
  cases p.thread? id <;> rfl

theorem foldl_endThread_updateWorld (ids : List Nat) (p : Project) :
    ids.foldl endThread (p.updateWorld fun w => { w with deleted := [] }) =
      (ids.foldl endThread p).updateWorld fun w => { w with deleted := [] } := by
  induction ids generalizing p with
  | nil => rfl
  | cons id ids ih => simp only [List.foldl_cons, endThread_updateWorld, ih]

theorem threads_foldl_endThread (ids : List Nat) (p : Project) :
    (ids.foldl endThread p).threads = p.threads.filter (·.id ∉ ids) := by
  induction ids generalizing p with
  | nil => simp
  | cons id ids ih =>
    rw [List.foldl_cons, ih, threads_endThread, List.filter_filter]
    refine List.filter_congr fun t _ => ?_
    simp only [List.mem_cons, not_or, ne_eq, decide_not, Bool.decide_and, Bool.and_comm]

theorem changes_foldl_endThread (ids : List Nat) (p : Project) :
    Changes σ p (ids.foldl endThread p) := by
  induction ids generalizing p with
  | nil => exact .refl
  | cons id ids ih => exact .head (.ended id) (ih _)

theorem deleted_endThread (p : Project) (id : Nat) :
    (p.endThread id).world.deleted = p.world.deleted := by
  obtain ⟨groups, questions, hw, -⟩ := world_endThread p id
  rw [hw]

theorem launch_updateWorld (p : Project) (s : Spawn) (a b : List Spawn) :
    ((p.updateWorld fun w => { w with spawns := a }).launch s).updateWorld
        (fun w => { w with spawns := b }) =
      (p.updateWorld fun w => { w with spawns := b }).launch s := by
  by_cases hl : p.world.isLive s.owner
  · have ha : (p.updateWorld fun w => { w with spawns := a }).world.isLive s.owner := hl
    have hb : (p.updateWorld fun w => { w with spawns := b }).world.isLive s.owner := hl
    rw [launch, launch, if_pos ha, if_pos hb]
    rfl
  · have ha : ¬ (p.updateWorld fun w => { w with spawns := a }).world.isLive s.owner := hl
    have hb : ¬ (p.updateWorld fun w => { w with spawns := b }).world.isLive s.owner := hl
    rw [launch, launch, if_neg ha, if_neg hb]
    rfl

theorem spawns_launch (p : Project) (s : Spawn) : (p.launch s).world.spawns = p.world.spawns := by
  obtain ⟨groups, hw⟩ := world_launch p s
  rw [hw]

-- The queue is taken as a whole; seen one launch at a time, what is still to come stays in it.
theorem changes_foldl_launch {queue rest : List Spawn} (h : p.world.spawns = queue ++ rest) :
    Changes σ p ((queue.foldl launch (p.updateWorld fun w => { w with spawns := [] })).updateWorld
      fun w => { w with spawns := rest }) := by
  induction queue generalizing p with
  | nil => exact .beside ⟨rfl, rfl, rfl, h.symm, rfl, rfl, rfl, rfl, rfl, rfl, rfl⟩
  | cons s queue ih =>
    have hl : ((p.updateWorld fun w => { w with spawns := queue ++ rest }).launch s).world.spawns =
      queue ++ rest := spawns_launch _ _
    have hr := ih hl
    rw [launch_updateWorld] at hr
    exact .head (.launched h) hr

theorem changes_launchAll (p : Project) : Changes σ p p.launchAll := by
  have hc := changes_foldl_launch (σ := σ) (List.append_nil p.world.spawns).symm
  refine hc.tail (.aside ⟨rfl, rfl, rfl, rfl, rfl, rfl, ?_, rfl, rfl, rfl, rfl, rfl, rfl, rfl⟩)
  exact foldl_keeps (fun p : Project => p.world.spawns) spawns_launch p.world.spawns _

theorem changes_foldl_removeClones (hr : ∀ id, σ.removes id) (is : List Instance) (p : Project) :
    Changes σ p
      { p with world := is.foldl (fun w i => (w.deleteInstance i.id).2) p.world } := by
  induction is generalizing p with
  | nil => exact .refl
  | cons i is ih => exact .head (.removed (hr i.id)) (ih (p.updateWorld fun w =>
      (w.deleteInstance i.id).2))

theorem changes_stopEverything (hr : ∀ id, σ.removes id) (p : Project) :
    Changes σ p p.stopEverything := by
  have hc := changes_foldl_removeClones hr (p.world.instances.filter Instance.isClone) p
  exact (hc.tail .cleared).tail (.aside ⟨rfl, rfl, rfl, rfl, rfl, rfl, rfl, rfl, rfl, rfl, rfl, rfl, rfl, rfl⟩)

theorem changes_settle (hr : p.world.stopRequested = true → ∀ id, σ.removes id) :
    Changes σ p p.settle := by
  unfold settle
  split
  · rename_i hs
    exact changes_stopEverything (hr hs) p
  · simp only []
    rw [foldl_endThread_updateWorld]
    refine ((changes_foldl_endThread _ _).tail (.purged fun t ht hd => ?_)).trans (changes_launchAll _)
    rw [threads_foldl_endThread] at ht
    rw [foldl_keeps (fun p : Project => p.world.deleted) deleted_endThread _ p] at hd
    have hm := List.mem_filter.1 ht
    simp only [List.mem_map, List.mem_filter, List.contains_eq_mem, decide_eq_true_eq] at hm
    exact hm.2 ⟨t, ⟨hm.1, hd⟩, rfl⟩

section Host

theorem changes_foldl_key (names : List String) (p : Project) :
    Changes σ p { p with
      world := names.foldl (fun w name => (w.dispatch (.keyPressed name)).2) p.world } := by
  induction names generalizing p with
  | nil => exact .refl
  | cons name names ih => exact .head (.dispatched (.keyPressed name)) (ih _)

theorem changes_click (p : Project) (place : Point) :
    Changes σ p (p.updateWorld (click · place)) := by
  simp only [updateWorld, click]
  split
  · exact .single (.dispatchedTo _ _)
  · exact .single (.dispatched _)

theorem changes_foldl_click (places : List Point) (p : Project) :
    Changes σ p { p with world := places.foldl click p.world } := by
  induction places generalizing p with
  | nil => exact .refl
  | cons place places ih => exact (changes_click p place).trans (ih _)

theorem changes_launchInput (p : Project) : Changes σ p p.launchInput := by
  let drained := p.updateWorld fun w => { w with keyboard := w.keyboard.drained }
  let keyed : Project := { p with
    world := p.world.keyboard.fresh.foldl (fun w name => (w.dispatch (.keyPressed name)).2)
      drained.world }
  let listed := keyed.updateWorld fun w => { w with pointer := p.world.pointer.drained }
  have hd : Changes σ p drained :=
    .beside ⟨rfl, rfl, rfl, rfl, rfl, rfl, rfl, rfl, rfl, rfl, rfl⟩
  have hk : Changes σ drained keyed := changes_foldl_key _ drained
  have hl : Changes σ keyed listed :=
    .beside ⟨rfl, rfl, rfl, rfl, rfl, rfl, rfl, rfl, rfl, rfl, rfl⟩
  have hc := changes_foldl_click (σ := σ) p.world.pointer.clicks listed
  exact (((hd.trans hk).trans hl).trans hc).trans (changes_launchAll _)

theorem changes_poll (hr : σ.reports) (p : Project) : Changes σ p p.poll := by
  unfold poll
  have hs : Changes σ p { p with loads := [] } := .aside ⟨rfl, rfl, rfl, .refl _⟩
  generalize ({ p with loads := [] } : Project) = q at hs
  induction p.loads generalizing q with
  | nil => exact hs
  | cons load loads ih =>
    refine ih _ (hs.trans ?_)
    dsimp only
    split
    · exact Changes.aside ⟨rfl, rfl, rfl, .refl _⟩
    · exact Changes.aside ⟨rfl, rfl, rfl, rfl, rfl, rfl, rfl, rfl, rfl, rfl, rfl, rfl, rfl, rfl⟩
    · exact .single (.reported hr _)

theorem changes_prepare (hr : σ.reports) (p : Project) : Changes σ p p.prepare := by
  have hf : Changes σ p { p with frame := p.frame + 1 } := .aside ⟨rfl, rfl, rfl, .refl _⟩
  exact (hf.trans (changes_poll hr _)).trans (changes_launchInput _)

theorem changes_broadcast (p : Project) (message : String) :
    Changes σ p (p.broadcast message) :=
  .head (.dispatched (.message message)) (changes_launchAll _)

theorem changes_greenFlag (hr : ∀ id, σ.removes id) (p : Project) : Changes σ p p.greenFlag :=
  ((changes_stopEverything hr p).tail (.dispatched .greenFlag)).trans (changes_launchAll _)

theorem changes_answerQuestion (p : Project) (text : String)
    (hq : ∀ {question rest}, p.world.questions = question :: rest → σ.turns question.thread) :
    Changes σ p (p.answerQuestion text).2 := by
  unfold answerQuestion
  split
  · exact .refl
  · rename_i question rest hs
    exact .tail (.single (.heard hs))
      (.turn (hq hs) (fun t => ⟨rfl, rfl, rfl, rfl, rfl⟩) fun _ _ _ h => h)

theorem foldl_record_look (looks : List Look) (w : World) :
    looks.foldl (fun w look => w.record (.look look)) w =
      { w with journal := (looks.map Entry.look).reverse ++ w.journal } := by
  induction looks generalizing w with
  | nil => rfl
  | cons look looks ih =>
    rw [List.foldl_cons, ih]
    simp [World.record]

-- All that a registration writes, however it ends.
theorem register_writes (p : Project) (c : ActorClass) (kind : ActorKind) :
    ∃ (actors : List Actor) (instances : List Instance) (last : Nat) (journal : List Entry),
      (p.register c kind).2 = { p with world := { p.world with
        actors := actors, instances := instances, lastInstance := last, journal := journal } } := by
  unfold register
  split
  · exact ⟨_, _, _, _, rfl⟩
  · dsimp only
    split
    · exact ⟨_, _, _, _, rfl⟩
    · simp only [updateWorld, foldl_record_look]
      split <;> exact ⟨_, _, _, _, rfl⟩

theorem changes_register (p : Project) (c : ActorClass) (kind : ActorKind)
    (hc : ∀ d ∈ c.handlers, ∀ h, σ.conduct.keeps h (d.handler.body h)) :
    Changes σ p (p.register c kind).2 := by
  unfold register
  split
  · exact .refl
  · rename_i hr
    dsimp only
    split
    · exact .single .allocated
    · rename_i groups hg
      simp only [updateWorld, foldl_record_look]
      -- The looks are recorded first here; what the constructor gives is enrolled as one change.
      let seen := p.updateWorld fun w =>
        { w with journal := ((c.init {}).1.map Entry.look).reverse ++ w.journal }
      have hs : Changes σ p seen := .beside ⟨rfl, rfl, rfl, rfl, rfl, rfl, rfl, rfl, rfl, rfl, rfl⟩
      split
      · exact hs.tail .allocated
      · rename_i figure _
        exact hs.tail (.enrolled figure hr hg hc)

end Host

end SpriteStage.Project

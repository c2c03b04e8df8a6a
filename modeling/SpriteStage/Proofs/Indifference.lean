import SpriteStage.Proofs.Delivery

namespace SpriteStage

def World.after (earlier : List Report) (w : World) : World :=
  { w with errors := earlier ++ w.errors }

-- What is about to be taken from a thread's mailbox, and what would be done with it, are veiled.
def Thread.veiled (hides : Nat → Bool) (t : Thread) : Thread :=
  if hides t.id then
    { t with body := .start .finish, mailbox := { t.mailbox with resume := none } }
  else t

def Project.after (earlier : List Report) (p : Project) : Project :=
  { p with world := p.world.after earlier }

def Project.veiled (earlier : List Report) (hides : Nat → Bool) (p : Project) : Project :=
  { p with threads := p.threads.map (·.veiled hides), world := p.world.after earlier }

namespace World

variable {earlier : List Report}

def beside {α : Type} (earlier : List Report) (r : α × World) : α × World :=
  (r.1, r.2.after earlier)

section Answers

variable {α : Type}

theorem tells_after (w : World) (a : Except CallError α) :
    (w.after earlier).tells a = (w.tells a).map (beside earlier) := by
  cases a <;> rfl

theorem queueGroup_after (w : World) (starts : List Start) :
    (w.after earlier).queueGroup starts = beside earlier (w.queueGroup starts) := by
  unfold queueGroup
  split <;> rfl

theorem dispatch_after (w : World) (trigger : Trigger) :
    (w.after earlier).dispatch trigger = beside earlier (w.dispatch trigger) :=
  queueGroup_after w (w.starts trigger)

theorem dispatchTo_after (w : World) (trigger : Trigger) (owner : Nat) :
    (w.after earlier).dispatchTo trigger owner = beside earlier (w.dispatchTo trigger owner) :=
  queueGroup_after w (w.startsOf trigger owner)

theorem member_after (w : World) (owner : Nat) :
    (w.after earlier).member owner = w.member owner := rfl

theorem play_after (w : World) (owner : Nat) (name : String) :
    (w.after earlier).play owner name = (w.play owner name).map (beside earlier) := by
  unfold play
  rw [member_after]
  cases w.member owner with
  | error e => rfl
  | ok found =>
    dsimp only
    cases found.2.sound? name <;> rfl

theorem setAttribute_after (w : World) (owner : Nat) (name : String) (value : Value) :
    (w.after earlier).setAttribute owner name value =
      (w.setAttribute owner name value).map (beside earlier) := by
  unfold setAttribute
  rw [member_after]
  cases w.member owner <;> rfl

theorem move_after (w : World) (owner : Nat) (motion : Motion) :
    (w.after earlier).move owner motion = (w.move owner motion).map (beside earlier) := by
  unfold move
  rw [member_after]
  cases motion.check with
  | error e => rfl
  | ok u =>
    cases w.member owner with
    | error e => rfl
    | ok found =>
      dsimp only
      split <;> rfl

theorem putOn_after (w : World) (owner : Nat) (dress : Dress) (name : String) :
    (w.after earlier).putOn owner dress name = (w.putOn owner dress name).map (beside earlier) := by
  unfold putOn
  rw [member_after]
  cases w.member owner with
  | error e => rfl
  | ok found =>
    dsimp only
    cases found.2.costumeIndex? name <;> rfl

theorem wear_after (w : World) (owner : Nat) (dress : Dress) (name : String) :
    (w.after earlier).wear owner dress name = (w.wear owner dress name).map (beside earlier) := by
  have hs : (w.after earlier).isSprite owner = w.isSprite owner := rfl
  unfold wear
  rw [hs]
  cases dress with
  | costume =>
    cases w.isSprite owner with
    | false => rfl
    | true => exact putOn_after w owner .costume name
  | backdrop =>
    cases w.isSprite owner with
    | false => exact putOn_after w owner .backdrop name
    | true => rfl

theorem showVariable_after (w : World) (owner : Nat) (name : String) (label : Option String)
    (position : WatcherPosition) :
    (w.after earlier).showVariable owner name label position =
      (w.showVariable owner name label position).map (beside earlier) := by
  unfold showVariable
  cases position.flaw? <;> rfl

theorem createClone_after (w : World) (source : CloneSource) :
    (w.after earlier).createClone source = (w.createClone source).map (beside earlier) := by
  have hr : (w.after earlier).resolve source = w.resolve source := by
    cases source <;> rfl
  unfold createClone
  rw [hr]
  cases w.resolve source with
  | error e => rfl
  | ok parent =>
    dsimp only
    rw [member_after]
    cases w.member parent with
    | error e => rfl
    | ok found =>
      obtain ⟨i, a⟩ := found
      let placed : World :=
        { w with
          lastInstance := w.lastInstance + 1
          instances := w.instances ++ [i.cloned (w.lastInstance + 1)] }.updateActor a.id fun a =>
            { a with instances := insertBefore parent (w.lastInstance + 1) a.instances }
      exact congrArg (fun r : Option Nat × World => Except.ok (w.lastInstance + 1, r.2))
        (dispatchTo_after placed .startAsClone (w.lastInstance + 1))

theorem deleteInstance_after (w : World) (owner : Nat) :
    (w.after earlier).deleteInstance owner = beside earlier (w.deleteInstance owner) := by
  have hi : (w.after earlier).instance? owner = w.instance? owner := rfl
  unfold deleteInstance
  rw [hi]
  cases w.instance? owner with
  | none => rfl
  | some i =>
    dsimp only
    split <;> rfl

-- Nothing that a thread may ask for depends on what has been reported.
theorem answer_after (w : World) (owner : Nat) (r : Request) :
    (w.after earlier).answer owner r = (w.answer owner r).map (beside earlier) := by
  cases r with
  | instancesOf className =>
    have ha : (w.after earlier).actorNamed? className = w.actorNamed? className := rfl
    simp only [answer]
    rw [ha]
    cases w.actorNamed? className <;> rfl
  | set name value => exact setAttribute_after w owner name value
  | move motion => exact move_after w owner motion
  | wear dress name => exact wear_after w owner dress name
  | broadcast message =>
    exact congrArg (fun r : Option Nat × World => Except.ok ((), r.2))
      (dispatch_after w (.message message))
  | createClone source => exact createClone_after w source
  | showVariable name label position => exact showVariable_after w owner name label position
  | startSound name =>
    simp only [answer]
    rw [play_after]
    cases w.play owner name <;> rfl
  | boundingBox | hideVariable name | setVolume gain | volume | stopAllSounds => rfl
  | _ => exact tells_after w _

end Answers

end World

namespace Project

variable {earlier : List Report} {hides : Nat → Bool} {p : Project} {t : Thread}

def alongside {α : Type} (earlier : List Report) (r : α × Project) : α × Project :=
  (r.1, r.2.after earlier)

section Calls

theorem id_veiled (t : Thread) : (t.veiled hides).id = t.id := by
  unfold Thread.veiled
  split <;> rfl

theorem thread?_veiled (p : Project) (id : Nat) :
    (p.veiled earlier hides).thread? id = (p.thread? id).map (·.veiled hides) := by
  unfold thread? veiled
  rw [List.find?_map]
  refine congrArg _ (congrArg (List.find? · p.threads) (funext fun t => ?_))
  simp only [Function.comp, id_veiled]

-- A change to a mailbox that has nothing to do with what is veiled.
theorem updateMailbox_veiled (p : Project) (id : Nat) {change : Mailbox → Mailbox}
    (hc : ∀ m : Mailbox, change { m with resume := none } = { change m with resume := none }) :
    (p.veiled earlier hides).updateMailbox id change =
      (p.updateMailbox id change).veiled earlier hides := by
  simp only [updateMailbox, updateThread, veiled, List.map_map]
  refine congrArg (fun threads => { p with threads := threads, world := p.world.after earlier })
    (List.map_congr_left fun t _ => ?_)
  simp only [Function.comp, id_veiled]
  unfold Thread.veiled
  by_cases ht : t.id = id
  · simp only [if_pos ht]
    split
    · rw [hc]
    · rfl
  · simp only [if_neg ht]

def veiling {α : Type} (earlier : List Report) (hides : Nat → Bool) (r : α × Project) :
    α × Project :=
  (r.1, r.2.veiled earlier hides)

theorem begin_veiled (p : Project) (h : Handle) (wait : Wait) :
    (p.veiled earlier hides).begin h wait = veiling earlier hides (p.begin h wait) := by
  have hrates : ∀ t : Thread, (t.veiled hides).mailbox.rates = t.mailbox.rates := fun t => by
    unfold Thread.veiled
    split <;> rfl
  have hpending : ∀ t : Thread, (t.veiled hides).mailbox.pending = t.mailbox.pending := fun t => by
    unfold Thread.veiled
    split <;> rfl
  cases wait with
  | yield =>
    simp only [begin]
    rw [thread?_veiled]
    cases p.thread? h.thread with
    | none => rfl
    | some t =>
      simp only [Option.map_some, hrates]
      split
      · rw [updateMailbox_veiled]
        · rfl
        · exact fun _ => rfl
      · rw [updateMailbox_veiled]
        · rfl
        · exact fun _ => rfl
  | seconds time =>
    simp only [begin]
    split <;> rfl
  | broadcastAndWait message =>
    have hd : (p.world.after earlier).broadcast message =
        World.beside earlier (p.world.broadcast message) := World.dispatch_after p.world _
    simp only [begin]
    rw [show (p.veiled earlier hides).world = p.world.after earlier from rfl, hd]
    rfl
  | playUntilDone name =>
    simp only [begin]
    rw [show (p.veiled earlier hides).world = p.world.after earlier from rfl, World.play_after]
    cases p.world.play h.owner name <;> rfl
  | delete =>
    simp only [begin]
    rw [show (p.veiled earlier hides).world = p.world.after earlier from rfl,
      World.deleteInstance_after]
    cases p.world.deleteInstance h.owner with
    | mk deletion w =>
      cases deletion with
      | kept =>
        refine congrArg (Prod.mk _) ?_
        exact updateMailbox_veiled { p with world := w } h.thread fun _ => rfl
      | _ => rfl
  | outside =>
    simp only [begin]
    rw [thread?_veiled]
    cases p.thread? h.thread with
    | none => rfl
    | some t =>
      simp only [Option.map_some, Option.bind_some, hpending]
      rfl
  | _ => rfl

theorem answer_veiled (p : Project) (c : Call) :
    (p.veiled earlier hides).answer c = veiling earlier hides (p.answer c) := by
  cases c with
  | request h r =>
    simp only [answer]
    rw [show (p.veiled earlier hides).world = p.world.after earlier from rfl, World.answer_after]
    cases p.world.answer h.owner r <;> rfl
  | start h wait =>
    simp only [answer]
    rw [begin_veiled]
    simp only [veiling]
    cases p.begin h wait with
    | mk begun q =>
      cases begun with
      | passes outcome => rfl
      | suspends suspension =>
        refine congrArg (Prod.mk _) ?_
        exact updateMailbox_veiled q h.thread fun _ => rfl
  | pushRate h perFrame =>
    exact congrArg (Prod.mk _) (updateMailbox_veiled p h.thread fun _ => rfl)
  | popRate h => exact congrArg (Prod.mk _) (updateMailbox_veiled p h.thread fun _ => rfl)
  | _ => rfl

theorem perform_veiled (p : Project) (e : Exchange) :
    (p.veiled earlier hides).perform e = (p.perform e).veiled earlier hides := by
  cases e with
  | call c => exact congrArg Prod.snd (answer_veiled p c)
  | pause h wait =>
    simp only [perform]
    rw [begin_veiled]
    simp only [veiling]
    cases p.begin h wait with
    | mk begun q =>
      cases begun with
      | passes outcome => rfl
      | suspends suspension => exact updateMailbox_veiled q h.thread fun _ => rfl

theorem performAll_veiled (p : Project) (exchanges : List Exchange) :
    (p.veiled earlier hides).performAll exchanges =
      (p.performAll exchanges).veiled earlier hides := by
  induction exchanges generalizing p with
  | nil => rfl
  | cons e exchanges ih =>
    refine Eq.trans ?_ (ih (p.perform e))
    exact congrArg (Project.performAll · exchanges) (perform_veiled p e)

theorem veiled_none (p : Project) : p.veiled earlier (fun _ => false) = p.after earlier :=
  congrArg (fun threads => { p with threads := threads, world := p.world.after earlier })
    (List.map_id' p.threads)

end Calls

section Turns

theorem begin_after (p : Project) (h : Handle) (wait : Wait) :
    (p.after earlier).begin h wait = alongside earlier (p.begin h wait) := by
  have hb : (p.veiled earlier fun _ => false).begin h wait =
      veiling earlier (fun _ => false) (p.begin h wait) := begin_veiled p h wait
  simp only [veiling, veiled_none] at hb
  exact hb

theorem answer_call_after (p : Project) (c : Call) :
    (p.after earlier).answer c = alongside earlier (p.answer c) := by
  have ha : (p.veiled earlier fun _ => false).answer c =
      veiling earlier (fun _ => false) (p.answer c) := answer_veiled p c
  simp only [veiling, veiled_none] at ha
  exact ha

theorem run_after (h : Handle) (b : Behavior) (p : Project) :
    run h b (p.after earlier) = alongside earlier (run h b p) := by
  induction b generalizing p with
  | finish => rfl
  | fail failure => rfl
  | jump target => rfl
  | call c next ih =>
    simp only [run]
    rw [answer_call_after]
    exact ih _ _
  | pause wait next ih =>
    simp only [run]
    rw [begin_after]
    simp only [alongside]
    cases p.begin h wait with
    | mk begun q =>
      cases begun with
      | passes outcome => exact ih _ _
      | suspends suspension => rfl

theorem runOn?_after (h : Handle) (laps : Nat) (b : Behavior) (p : Project) :
    runOn? h laps b (p.after earlier) = (runOn? h laps b p).map (alongside earlier) := by
  induction laps generalizing b p with
  | zero => rfl
  | succ laps ih =>
    simp only [runOn?]
    rw [run_after]
    simp only [alongside]
    cases run h b p with
    | mk halt q =>
      cases halt with
      | jumps target => exact ih _ _
      | _ => rfl

theorem readiness_after (p : Project) (id : Nat) :
    (p.after earlier).readiness id = alongside earlier (p.readiness id) := by
  have ht : (p.after earlier).thread? id = p.thread? id := rfl
  unfold readiness
  rw [ht]
  cases p.thread? id with
  | none => rfl
  | some t =>
    have hl : (p.after earlier).world.isLive t.owner = p.world.isLive t.owner := rfl
    dsimp only
    rw [hl]
    by_cases hlive : p.world.isLive t.owner
    · rw [if_pos hlive, if_pos hlive]
      cases t.state with
      | performance performance =>
        have hb : (p.after earlier).world.bus = p.world.bus := rfl
        dsimp only
        rw [hb]
        cases p.world.bus.status performance <;> rfl
      | _ => rfl
    · rw [if_neg hlive, if_neg hlive]
      rfl

theorem wake_after (p : Project) (t : Thread) :
    (p.after earlier).wake t = alongside earlier (p.wake t) := by
  unfold wake
  cases t.body with
  | start behavior => rfl
  | waiting wait next =>
    dsimp only
    split <;> rfl

theorem endThread_after (p : Project) (id : Nat) :
    (p.after earlier).endThread id = (p.endThread id).after earlier := by
  have ht : (p.after earlier).thread? id = p.thread? id := rfl
  unfold endThread
  rw [ht]
  cases p.thread? id <;> rfl

theorem foldl_after {α : Type} {step : Project → α → Project}
    (hs : ∀ (p : Project) (a : α), step (p.after earlier) a = (step p a).after earlier) (as : List α)
    (p : Project) : as.foldl step (p.after earlier) = (as.foldl step p).after earlier := by
  induction as generalizing p with
  | nil => rfl
  | cons a as ih =>
    rw [List.foldl_cons, List.foldl_cons, hs]
    exact ih _

theorem launch_after (p : Project) (s : Spawn) :
    (p.after earlier).launch s = (p.launch s).after earlier := by
  have hl : (p.after earlier).world.isLive s.owner = p.world.isLive s.owner := rfl
  unfold launch
  rw [hl]
  split <;> rfl

theorem launchAll_after (p : Project) : (p.after earlier).launchAll = p.launchAll.after earlier :=
  foldl_after launch_after p.world.spawns (p.updateWorld fun w => { w with spawns := [] })

theorem removeClones_after (w : World) :
    (w.after earlier).removeClones = w.removeClones.after earlier := by
  unfold World.removeClones
  rw [show (w.after earlier).instances = w.instances from rfl]
  generalize w.instances.filter Instance.isClone = clones
  induction clones generalizing w with
  | nil => rfl
  | cons i clones ih =>
    rw [List.foldl_cons, List.foldl_cons, World.deleteInstance_after]
    exact ih _

theorem stopEverything_after (p : Project) :
    (p.after earlier).stopEverything = p.stopEverything.after earlier := by
  unfold stopEverything
  rw [show (p.after earlier).world = p.world.after earlier from rfl, removeClones_after]
  rfl

theorem settle_after (p : Project) : (p.after earlier).settle = p.settle.after earlier := by
  unfold settle
  rw [show (p.after earlier).world.stopRequested = p.world.stopRequested from rfl]
  split
  · exact stopEverything_after p
  · dsimp only
    refine Eq.trans ?_ (launchAll_after _)
    exact congrArg Project.launchAll
      (foldl_after endThread_after _ (p.updateWorld fun w => { w with deleted := [] }))

theorem reportFailure_after (p : Project) (t : Thread) (failure : Failure) :
    (p.after earlier).reportFailure t failure = (p.reportFailure t failure).after earlier := by
  simp only [reportFailure, updateWorld, after, World.report, World.after, List.append_assoc]
  rfl

theorem leave_after (p : Project) (t : Thread) (r : Resumption) :
    (p.after earlier).leave t r = (p.leave t r).after earlier := by
  cases r with
  | finished => exact endThread_after p t.id
  | failed failure =>
    simp only [leave]
    rw [reportFailure_after, endThread_after]
  | suspended suspension body =>
    simp only [leave]
    split
    · exact endThread_after p t.id
    · rfl

theorem woken_after (p : Project) (t : Thread) :
    (p.after earlier).woken t = alongside earlier (p.woken t) :=
  wake_after (p.updateThread t.id fun t => { t with state := .runnable }) t

theorem step?_after (laps id : Nat) (p : Project) :
    (p.after earlier).step? laps id = (p.step? laps id).map (after earlier) := by
  have ht : (p.after earlier).thread? id = p.thread? id := rfl
  cases hid : p.thread? id with
  | none =>
    unfold step?
    rw [ht, hid]
    rfl
  | some t =>
    have hleave : (fun ended : Resumption × Project =>
        (ended.2.leave t ended.1).settle) ∘ alongside earlier =
        after earlier ∘ fun ended => (ended.2.leave t ended.1).settle := funext fun ended => by
      simp only [Function.comp, alongside, leave_after, settle_after]
    rw [step?_eq hid, step?_eq (ht.trans hid), woken_after, Option.map_map, ← hleave,
      ← Option.map_map]
    exact congrArg _ (runOn?_after t.handle laps (p.woken t).1 (p.woken t).2)

theorem turn?_after (laps id : Nat) (p : Project) :
    (p.after earlier).turn? laps id = (p.turn? laps id).map (alongside earlier) := by
  unfold turn?
  rw [readiness_after]
  simp only [alongside]
  cases p.readiness id with
  | mk readiness q =>
    cases readiness with
    | due =>
      dsimp only
      rw [step?_after]
      cases q.step? laps id <;> rfl
    | orphaned =>
      refine congrArg some ?_
      exact congrArg (Prod.mk false) (endThread_after q id)
    | _ => rfl

theorem ending?_after (laps id : Nat) (p : Project) :
    (p.after earlier).ending? laps id = (p.ending? laps id).map (alongside earlier) := by
  unfold ending?
  rw [readiness_after]
  simp only [alongside]
  cases p.readiness id with
  | mk readiness q =>
    cases readiness with
    | due =>
      have ht : (q.after earlier).thread? id = q.thread? id := rfl
      dsimp only
      rw [ht]
      cases q.thread? id with
      | none => rfl
      | some t =>
        simp only [Option.bind_some]
        rw [woken_after]
        exact runOn?_after t.handle laps (q.woken t).1 (q.woken t).2
    | _ => rfl

end Turns

section Steps

theorem poll_after (p : Project) : (p.after earlier).poll = p.poll.after earlier := by
  rw [poll_eq, poll_eq]
  simp only [after, World.after, List.append_assoc]

theorem order_after (o : Order) (w : World) : o.apply (w.after earlier) = (o.apply w).after earlier := by
  cases o with
  | send trigger => exact congrArg Prod.snd (World.dispatch_after w trigger)
  | clone source =>
    simp only [Order.apply]
    rw [World.createClone_after]
    cases w.createClone source <;> rfl
  | click place =>
    have hs : (w.after earlier).spriteAt? place = w.spriteAt? place := rfl
    simp only [Order.apply, click]
    rw [hs]
    cases w.spriteAt? place with
    | none => exact congrArg Prod.snd (World.dispatch_after w _)
    | some owner => exact congrArg Prod.snd (World.dispatchTo_after w _ owner)

theorem noting_after (p : Project) (orders : List Order) :
    (p.after earlier).noting orders = (p.noting orders).after earlier := by
  have hpolled : (p.after earlier).polled = p.polled.after earlier :=
    poll_after { p with frame := p.frame + 1 }
  have hfold : ∀ w : World, orders.foldl (fun w o => o.apply w) (w.after earlier) =
      (orders.foldl (fun w o => o.apply w) w).after earlier := by
    induction orders with
    | nil => exact fun _ => rfl
    | cons o orders ih =>
      intro w
      rw [List.foldl_cons, List.foldl_cons, order_after]
      exact ih _
  unfold noting
  rw [hpolled]
  exact congrArg (fun w => { p.polled with world := w }) (hfold { p.polled.world with
    keyboard := p.polled.world.keyboard.drained, pointer := p.polled.world.pointer.drained })

theorem prepare_after (p : Project) : (p.after earlier).prepare = p.prepare.after earlier := by
  have hinputs : inputs (p.after earlier).polled.world = inputs p.polled.world := by
    rw [show (p.after earlier).polled = p.polled.after earlier from
      poll_after { p with frame := p.frame + 1 }]
    rfl
  rw [prepare_eq_launchAll, prepare_eq_launchAll, hinputs, noting_after, launchAll_after]

theorem register_after (p : Project) (c : ActorClass) (kind : ActorKind) :
    (p.after earlier).register c kind = alongside earlier (p.register c kind) := by
  have hr : refusal? (p.after earlier).world c kind = refusal? p.world c kind := rfl
  unfold register
  rw [hr]
  cases refusal? p.world c kind with
  | some e => rfl
  | none =>
    dsimp only
    cases c.groups with
    | error e => rfl
    | ok groups =>
      simp only [updateWorld, foldl_record_look]
      cases (c.init {}).2 <;> rfl

theorem apply_after {op : Operation} (hop : op ≠ .takeErrors) (p : Project) :
    op.apply (p.after earlier) = (op.apply p).after earlier := by
  have hsend : ∀ (trigger : Trigger) (q : Project),
      ((q.after earlier).updateWorld fun w => (w.dispatch trigger).2).launchAll =
        (q.updateWorld fun w => (w.dispatch trigger).2).launchAll.after earlier :=
      fun trigger q => by
    rw [← launchAll_after]
    exact congrArg (fun r : Option Nat × World => launchAll { q with world := r.2 })
      (World.dispatch_after q.world trigger)
  cases op with
  | register c kind => exact congrArg Prod.snd (register_after p c kind)
  | broadcast message => exact hsend (.message message) p
  | greenFlag =>
    simp only [Operation.apply, greenFlag]
    rw [stopEverything_after]
    exact hsend .greenFlag p.stopEverything
  | redStop => exact stopEverything_after p
  | answer text =>
    have hq : (p.after earlier).world.questions = p.world.questions := rfl
    simp only [Operation.apply, answerQuestion]
    rw [hq]
    cases p.world.questions <;> rfl
  | loadAssets loader =>
    simp only [Operation.apply]
    rw [loadAssets_eq, loadAssets_eq, ← poll_after]
    rfl
  | poll => exact poll_after p
  | takeErrors => exact absurd rfl hop
  | _ => rfl

end Steps

end Project

end SpriteStage

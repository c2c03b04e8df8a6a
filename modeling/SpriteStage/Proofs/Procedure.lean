import SpriteStage.Proofs.Registry
import SpriteStage.Script.Routine

namespace SpriteStage

section Sparing

variable {ε σ α : Type}

-- What comes of a call that leaves the state alone when it is refused.
def sparing (s : σ) : Except ε (α × σ) → EStateM.Result ε σ α
  | .ok (reply, s') => .ok reply s'
  | .error e => .error e s

def looking (look : σ → Except ε α) : EStateM ε σ α := fun s =>
  match look s with
  | .ok result => .ok result s
  | .error e => .error e s

theorem run_looking (look : σ → Except ε α) (s : σ) :
    (looking look).run s = sparing s ((look s).map (·, s)) := by
  simp only [looking, EStateM.run]
  cases look s <;> rfl

end Sparing

-- One access after another. What has been written stays written when a later access fails.
abbrev Procedure (σ α : Type) := EStateM CallError σ α

namespace World

def reading (id : Nat) : Procedure World (Instance × Actor) := looking (·.member id)

def describing {α : Type} (id : Nat) (f : Instance → Actor → α) : Procedure World α := do
  let (i, a) ← reading id
  return f i a

def reshaping (id : Nat) (change : Figure → Figure) : Procedure World Unit := do
  match (← get).instance? id with
  | none => throw (.instanceGone (idText id))
  | some _ => modify (·.reshape id change)

def moving (id : Nat) (motion : Motion) : Procedure World Unit := do
  looking fun _ => motion.check
  let (_, a) ← reading id
  if !a.isSprite then throw (.spriteOnly motion.name)
  reshaping id motion.apply

def puttingOn (id : Nat) (dress : Dress) (name : String) : Procedure World Unit := do
  let (_, a) ← reading id
  match a.costumeIndex? name with
  | none => throw (.unknownAppearance dress name a.name)
  | some index => reshaping id fun f => { f with look := { f.look with costume := index } }

def wearing (id : Nat) (dress : Dress) (name : String) : Procedure World Unit := do
  match dress, (← get).isSprite id with
  | .costume, false => throw (.spriteOnly "switch_costume")
  | .backdrop, true => throw (.invalidArgument "switch_backdrop" "only the Stage has backdrops")
  | dress, _ => puttingOn id dress name

def playing (id : Nat) (name : String) : Procedure World Nat := do
  let (_, a) ← reading id
  match a.sound? name with
  | none => throw (.unknownSound name a.name)
  | some sound =>
    let (performance, bus) := (← get).bus.play
    modify fun w => { w with bus := bus }
    modify fun w => w.record (.bus (.play (w.busOf id) sound.locator))
    return performance

def starting (id : Nat) (name : String) : Procedure World Unit := do
  let _ ← playing id name

-- The identity is given out before the parent is looked up again.
def cloning (source : CloneSource) : Procedure World Nat := do
  let parent ← looking (·.resolve source)
  modify fun w => { w with lastInstance := w.lastInstance + 1 }
  let id := (← get).lastInstance
  let (i, a) ← reading parent
  modify (·.updateActor a.id fun a => { a with instances := insertBefore parent id a.instances })
  modify fun w => { w with instances := w.instances ++ [i.cloned id] }
  modify fun w => (w.dispatchTo .startAsClone id).2
  return id

def showing (id : Nat) (name : String) (label : Option String) (position : WatcherPosition) :
    Procedure World Unit := do
  match position.flaw? with
  | some reason => throw (.invalidArgument "show_variable" reason)
  | none =>
    modify fun w =>
      { w with watchers := Watcher.put ⟨id, name, label.getD name, position⟩ w.watchers }

def tuning (id : Nat) (gain : Float) : Procedure World Float := do
  let bus := (← get).busOf id
  modify fun w => { w with gains := w.gains.set bus gain }
  let stored := (← get).gains.get bus
  modify (·.record (.bus (.gain bus stored)))
  return stored

def steps (id : Nat) : (r : Request) → Procedure World r.Reply
  | .className => describing id fun _ a => a.name
  | .isClone => describing id fun i _ => i.isClone
  | .instancesOf name => do
    match (← get).actorNamed? name with
    | some a => return a.instances
    | none => throw (.unknownClass name)
  | .get name => looking (·.attribute? id name)
  | .set name value => reshaping id (·.setAttribute name value)
  | .x => describing id fun i _ => i.figure.look.x
  | .y => describing id fun i _ => i.figure.look.y
  | .direction => describing id fun i _ => i.figure.look.direction
  | .move motion => moving id motion
  | .wear dress name => wearing id dress name
  | .appearanceName => describing id fun i a => (costume? a i).map (·.name)
  | .boundingBox => do return (← get).box? id
  | .touching name => looking (·.touching id name)
  | .broadcast message => modify fun w => (w.broadcast message).2
  | .createClone source => cloning source
  | .keyPressed name => looking fun w => (Key.check name).map fun _ => w.keyboard.isHeld name
  | .showVariable name label position => showing id name label position
  | .hideVariable name => modify fun w => { w with watchers := Watcher.hide id name w.watchers }
  | .startSound name => starting id name
  | .setVolume gain => tuning id gain
  | .volume => do return (← get).volume id
  | .stopAllSounds => modify (·.stopAllSounds)

variable {w : World}

theorem run_reading (id : Nat) : (reading id).run w = sparing w ((w.member id).map (·, w)) :=
  run_looking _ w

theorem run_describing {α : Type} (id : Nat) (f : Instance → Actor → α) :
    (describing id f).run w = sparing w (w.describe id f) := by
  simp only [describing, EStateM.run_bind, run_reading, describe, tells]
  cases w.member id <;> rfl

theorem run_reshaping_of_member {id : Nat} {i : Instance} {a : Actor}
    (hm : w.member id = .ok (i, a)) (change : Figure → Figure) :
    (reshaping id change).run w = .ok () (w.reshape id change) := by
  simp only [reshaping, EStateM.run_bind, EStateM.run_get, (member_eq_ok hm).1]
  rfl

theorem run_moving (id : Nat) (motion : Motion) :
    (moving id motion).run w = sparing w (w.move id motion) := by
  simp only [moving, move, EStateM.run_bind, run_looking]
  cases motion.check with
  | error e => rfl
  | ok u =>
    simp only [Except.map, sparing, run_reading]
    cases hm : w.member id with
    | error e => rfl
    | ok m =>
      obtain ⟨i, a⟩ := m
      dsimp only
      cases a.isSprite with
      | false => rfl
      | true => exact run_reshaping_of_member hm _

theorem run_puttingOn (id : Nat) (dress : Dress) (name : String) :
    (puttingOn id dress name).run w = sparing w (w.putOn id dress name) := by
  simp only [puttingOn, putOn, EStateM.run_bind, run_reading]
  cases hm : w.member id with
  | error e => rfl
  | ok m =>
    obtain ⟨i, a⟩ := m
    simp only [Except.map, sparing]
    cases a.costumeIndex? name with
    | none => rfl
    | some index => exact run_reshaping_of_member hm _

theorem run_wearing (id : Nat) (dress : Dress) (name : String) :
    (wearing id dress name).run w = sparing w (w.wear id dress name) := by
  simp only [wearing, wear, EStateM.run_bind, EStateM.run_get]
  cases dress <;> cases w.isSprite id <;> first | rfl | exact run_puttingOn id _ name

theorem run_playing (id : Nat) (name : String) :
    (playing id name).run w = sparing w (w.play id name) := by
  simp only [playing, play, EStateM.run_bind, run_reading]
  cases w.member id with
  | error e => rfl
  | ok m =>
    simp only [Except.map, sparing]
    cases m.2.sound? name <;> rfl

theorem run_starting (id : Nat) (name : String) :
    (starting id name).run w = sparing w ((w.play id name).map fun (_, w) => ((), w)) := by
  simp only [starting, EStateM.run_bind, run_playing]
  cases w.play id name <;> rfl

theorem run_setting (hw : w.Registered) (id : Nat) (name : String) (value : Value) :
    (reshaping id (·.setAttribute name value)).run w =
      sparing w (w.setAttribute id name value) := by
  cases hi : w.instance? id with
  | none =>
    simp only [reshaping, setAttribute, member, hi, EStateM.run_bind, EStateM.run_get]
    rfl
  | some i =>
    obtain ⟨hmem, rfl⟩ := mem_of_instance? hi
    obtain ⟨a, -, hm, -⟩ := hw.member_of_mem hmem
    rw [setAttribute, hm]
    exact run_reshaping_of_member hm _

theorem run_cloning (hw : w.Registered) (source : CloneSource) :
    (cloning source).run w = sparing w (w.createClone source) := by
  simp only [cloning, createClone, EStateM.run_bind, run_looking]
  cases hr : w.resolve source with
  | error e => rfl
  | ok parent =>
    obtain ⟨i, a, hm, -⟩ := hw.sprite_of_resolve hr
    have hlater : { w with lastInstance := w.lastInstance + 1 }.member parent = .ok (i, a) := hm
    simp only [Except.map, sparing, EStateM.run_modify, EStateM.run_get, run_reading, hm, hlater,
      EStateM.run_pure]
    rfl

theorem run_steps (hw : w.Registered) (id : Nat) (r : Request) :
    (steps id r).run w = sparing w (w.answer id r) := by
  cases r with
  | className => exact run_describing id fun _ a => a.name
  | isClone => exact run_describing id fun i _ => i.isClone
  | x => exact run_describing id fun i _ => i.figure.look.x
  | y => exact run_describing id fun i _ => i.figure.look.y
  | direction => exact run_describing id fun i _ => i.figure.look.direction
  | appearanceName => exact run_describing id fun i a => (costume? a i).map (·.name)
  | instancesOf name =>
    simp only [steps, answer, EStateM.run_bind, EStateM.run_get]
    cases w.actorNamed? name <;> rfl
  | get name => exact run_looking (·.attribute? id name) w
  | set name value => exact run_setting hw id name value
  | move motion => exact run_moving id motion
  | wear dress name => exact run_wearing id dress name
  | touching name => exact run_looking (·.touching id name) w
  | createClone source => exact run_cloning hw source
  | keyPressed name => exact run_looking (fun w => (Key.check name).map fun _ => _) w
  | showVariable name label position =>
    simp only [steps, answer, showing, showVariable]
    cases position.flaw? <;> rfl
  | startSound name => exact run_starting id name
  | _ => rfl

end World

namespace Project

variable {p : Project}

def within {α : Type} (procedure : Procedure World α) : Procedure Project α := fun p =>
  match procedure.run p.world with
  | .ok reply w => .ok reply { p with world := w }
  | .error e w => .error e { p with world := w }

-- A wait that does not pause comes to its reply at once.
def waiting (h : Handle) : (wait : Wait) → Procedure Project (Suspension ⊕ wait.Reply)
  | .yield => do
    match (← get).thread? h.thread with
    | none => return .inl .nextFrame
    | some t =>
      let (yields, rates) := t.mailbox.rates.lap
      modify (·.updateMailbox h.thread fun m => { m with rates := rates })
      if yields then return .inl .nextFrame
      modify (·.updateMailbox h.thread fun m => { m with resume := none })
      return .inr ()
  | .seconds seconds => do
    if !seconds.isFinite then
      throw (.invalidArgument "wait_seconds" "duration must be a finite number")
    return .inl (.timer (if seconds > 0.0 then seconds else 0.0))
  | .broadcastAndWait message => do
    let (group, world) := (← get).world.broadcast message
    modify fun p => { p with world := world }
    return .inl (group.elim .nextFrame .group)
  | .ask prompt => do
    let (question, world) := (← get).world.askQuestion h prompt
    modify fun p => { p with world := world }
    return .inl (.answer question)
  | .playUntilDone name => do
    let performance ← within (World.playing h.owner name)
    return .inl (.performance performance)
  | .delete => do
    let (deletion, world) := (← get).world.deleteInstance h.owner
    modify fun p => { p with world := world }
    if deletion ≠ .kept then return .inl .terminate
    modify (·.updateMailbox h.thread fun m => { m with resume := none })
    return .inr ()
  | .stopAll => do
    modify (·.updateWorld fun w => { w with stopRequested := true })
    return .inl .terminate
  | .outside => do
    return .inl ((((← get).thread? h.thread).bind (·.mailbox.pending)).getD .nextFrame)

-- What a call comes to, and the project after it, whether it is granted or refused.
def outcome {α : Type} : EStateM.Result CallError Project α → Except CallError α × Project
  | .ok reply p => (.ok reply, p)
  | .error e p => (.error e, p)

def begun {α : Type} : Except CallError (Suspension ⊕ α) × Project → Begun α × Project
  | (.ok (.inl suspension), p) => (.suspends suspension, p)
  | (.ok (.inr reply), p) => (.passes (.ok reply), p)
  | (.error e, p) => (.passes (.error e), p)

theorem updateMailbox_updateMailbox (p : Project) (id : Nat) (f g : Mailbox → Mailbox) :
    (p.updateMailbox id f).updateMailbox id g = p.updateMailbox id fun m => g (f m) := by
  simp only [updateMailbox, updateThread, List.map_map]
  congr 1
  refine List.map_congr_left fun t _ => ?_
  by_cases ht : t.id = id <;> simp [ht]

theorem run_within {α : Type} {procedure : Procedure World α} {answer : World.Answer α}
    (h : procedure.run p.world = sparing p.world answer) :
    (within procedure).run p =
      sparing p (answer.map fun (reply, w) => (reply, { p with world := w })) := by
  simp only [EStateM.run, within] at h ⊢
  rw [h]
  cases answer <;> rfl

theorem answer_eq_outcome (hw : p.world.Registered) (h : Handle) (r : Request) :
    p.answer (.request h r) = outcome ((within (World.steps h.owner r)).run p) := by
  rw [run_within (World.run_steps hw h.owner r), answer]
  cases p.world.answer h.owner r <;> rfl

theorem begin_eq_outcome (p : Project) (h : Handle) (wait : Wait) :
    p.begin h wait = begun (outcome ((waiting h wait).run p)) := by
  cases wait with
  | yield =>
    simp only [waiting, begin, EStateM.run_bind, EStateM.run_get]
    cases p.thread? h.thread with
    | none => rfl
    | some t =>
      dsimp only
      cases t.mailbox.rates.lap.1 with
      | true => rfl
      | false =>
        have hboth := p.updateMailbox_updateMailbox h.thread
          (fun m => { m with rates := t.mailbox.rates.lap.2 }) fun m => { m with resume := none }
        exact congrArg (Prod.mk _) hboth.symm
  | seconds seconds =>
    simp only [waiting, begin]
    cases seconds.isFinite <;> rfl
  | playUntilDone name =>
    have hplay : (within (World.playing h.owner name)).run p = _ :=
      run_within (World.run_playing h.owner name)
    simp only [waiting, begin, EStateM.run_bind, hplay]
    cases p.world.play h.owner name <;> rfl
  | delete =>
    simp only [waiting, begin, EStateM.run_bind, EStateM.run_get]
    cases (p.world.deleteInstance h.owner).1 <;> rfl
  | _ => rfl

theorem answer_of_refused {h : Handle} {r : Request} {e : CallError} {q : Project}
    (hr : p.answer (.request h r) = (.error e, q)) : q = p := by
  simp only [answer] at hr
  split at hr <;> cases hr
  rfl

theorem begin_of_refused {h : Handle} {wait : Wait} {e : CallError} {q : Project}
    (hb : p.begin h wait = (.passes (.error e), q)) : q = p := by
  cases wait with
  | yield =>
    simp only [begin] at hb
    split at hb
    · cases hb
    · split at hb <;> cases hb
  | seconds seconds =>
    simp only [begin] at hb
    split at hb <;> cases hb
    rfl
  | playUntilDone name =>
    simp only [begin] at hb
    split at hb <;> cases hb
    rfl
  | delete =>
    simp only [begin] at hb
    split at hb <;> cases hb
  | _ => cases hb

end Project

namespace Script.Routine

-- A declaration that is changed in place.
abbrev Amending (α : Type) := EStateM Fault Declared α

def taking {α : Type} (argument : Except Fault α) : Amending α := looking fun _ => argument

def amending? (name : String) (arguments : List Value) : Option (Amending Unit) :=
  match name, arguments with
  | "costume", [.text key, .text locator] =>
    some (modify fun d => { d with costumes := d.costumes ++ [⟨key, locator, 0.0, 0.0⟩] })
  | "costume", [.text key, .text locator, x, y] => some do
    let x ← taking (number "centre x" x)
    let y ← taking (number "centre y" y)
    modify fun d => { d with costumes := d.costumes ++ [⟨key, locator, x, y⟩] }
  | "backdrop", [.text key, .text locator] =>
    some (modify fun d => { d with costumes := d.costumes ++ [⟨key, locator, 0.0, 0.0⟩] })
  | "sound", [.text key, .text locator] =>
    some (modify fun d => { d with sounds := d.sounds ++ [⟨key, locator⟩] })
  | "set", [.text key, value] => some do
    modify fun d => { d with attributes := d.attributes.filter (·.1 ≠ key) }
    modify fun d => { d with attributes := d.attributes ++ [(key, value)] }
  | "go_to_xy", [x, y] => some do
    let x ← taking (number "x" x)
    let y ← taking (number "y" y)
    modify fun d => { d with position := some (x, y) }
  | "set_size", [size] => some do
    let x ← taking (number "size" size)
    if !x.isFinite || x < 0.0 then
      throw (.text ("size must be a non-negative number, not " ++ NumberStyle.message.write x))
    modify fun d => { d with size := some x }
  | "hide", [] => some (modify fun d => { d with hidden := true })
  | "when", [.text eventType, function] => some (handling eventType "" function)
  | "when", [.text eventType, .text argument, function] =>
    some (handling eventType argument function)
  | _, _ => none
where
  handling (eventType argument : String) (function : Value) : Amending Unit := do
    match ← taking (continuation function) with
    | some name => modify fun d => { d with handlers := d.handlers ++ [⟨eventType, argument, name⟩] }
    | none => throw (.text s!"handler for \"{eventType}\" must name a function")

theorem run_handling (d : Declared) (eventType argument : String) (function : Value) :
    (amending?.handling eventType argument function).run d =
      sparing d ((addHandler d eventType argument function).map ((), ·)) := by
  simp only [amending?.handling, addHandler, taking, EStateM.run_bind, run_looking]
  cases continuation function with
  | error e => rfl
  | ok next => cases next <;> rfl

-- A method that is found amends the declaration or raises, and then the declaration is as it was.
theorem amending_of_ofDeclaration {d : Declared} {name : String} {arguments : List Value}
    {routine : Inquiry Effect} (h : ofDeclaration d name arguments = some routine) :
    ∃ amend result, amending? name arguments = some amend ∧
      amend.run d = sparing d (result.map ((), ·)) ∧ trying result = some routine := by
  unfold ofDeclaration at h
  split at h
  · exact ⟨_, .ok _, rfl, rfl, h⟩
  · rename_i key locator x y
    refine ⟨_, addCostume d key locator x y, rfl, ?_, h⟩
    simp only [addCostume, taking, EStateM.run_bind, run_looking]
    cases number "centre x" x with
    | error e => rfl
    | ok x => cases number "centre y" y <;> rfl
  · exact ⟨_, .ok _, rfl, rfl, h⟩
  · exact ⟨_, .ok _, rfl, rfl, h⟩
  · exact ⟨_, .ok _, rfl, rfl, h⟩
  · rename_i x y
    refine ⟨_, withPosition d x y, rfl, ?_, h⟩
    simp only [withPosition, taking, EStateM.run_bind, run_looking]
    cases number "x" x with
    | error e => rfl
    | ok x => cases number "y" y <;> rfl
  · rename_i size
    refine ⟨_, withSize d size, rfl, ?_, h⟩
    simp only [withSize, taking, EStateM.run_bind, run_looking]
    cases number "size" size with
    | error e => rfl
    | ok x =>
      dsimp only [Except.map, sparing, bind, Except.bind]
      cases !x.isFinite || decide (x < 0.0) <;> rfl
  · exact ⟨_, .ok _, rfl, rfl, h⟩
  · exact ⟨_, _, rfl, run_handling .., h⟩
  · exact ⟨_, _, rfl, run_handling .., h⟩
  · cases h

end Script.Routine

end SpriteStage

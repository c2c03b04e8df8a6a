import SpriteStage.Project.Frame

/-!
What the host does to a project and asks of it, apart from running frames and registering actors.
-/

namespace SpriteStage

/-- Gives each request a load that may or may not be settled yet. -/
abbrev Loader := AssetKind → String → Load

/-- Answers from a table at once, but for the locators that it holds back. -/
def Catalogue.loader (c : Catalogue) (held : List String) : Loader := fun kind locator =>
  if held.contains locator then .begun kind locator
  else .settled kind locator (c.fetch kind locator)

namespace Project

def broadcast (p : Project) (message : String) : Project :=
  (p.updateWorld fun w => (w.broadcast message).2).launchAll

def greenFlag (p : Project) : Project :=
  (p.stopEverything.updateWorld fun w => (w.dispatch .greenFlag).2).launchAll

/-- Answers the oldest question; its thread is due again. -/
def answerQuestion (p : Project) (text : String) : Except ProjectError Unit × Project :=
  match p.world.questions with
  | [] => (.error .noPendingQuestion, p)
  | question :: rest =>
    (.ok (), (p.updateWorld fun w => { w with questions := rest }).updateThread question.thread
      fun t => { t with
        state := .runnable
        mailbox := { t.mailbox with resume := some (.ok text) } })

def question? (p : Project) : Option Question := p.world.questions.head?

def press (p : Project) (name : String) : Project :=
  p.updateWorld fun w => { w with keyboard := w.keyboard.press name }

def release (p : Project) (name : String) : Project :=
  p.updateWorld fun w => { w with keyboard := w.keyboard.release name }

def clickAt (p : Project) (place : Point) : Project :=
  p.updateWorld fun w => { w with pointer := w.pointer.click place }

/-- Failures since the last time they were taken, the oldest first. -/
def takeErrors (p : Project) : List Report × Project :=
  (p.world.errors, p.updateWorld fun w => { w with errors := [] })

/-- What was seen since the last time, in the order in which it happened. -/
def takeJournal (p : Project) : List Entry × Project :=
  (p.world.journal.reverse, p.updateWorld fun w => { w with journal := [] })

/-- What the actors declare and has not been loaded, each asset once. -/
def wanted (p : Project) : List (AssetKind × String) :=
  let declared := p.world.actors.flatMap fun a =>
    a.costumes.map (fun c => (AssetKind.image, c.locator)) ++
      a.sounds.map fun s => (AssetKind.sound, s.locator)
  (declared.filter fun key => (p.world.assets.lookup key).isNone).eraseDups

/-- Asks a loader for everything wanted, and settles what is ready. -/
def loadAssets (p : Project) (loader : Loader) : Project :=
  (p.wanted.foldl
    (fun p (kind, locator) =>
      { p.updateWorld (·.record (.request kind locator)) with
        loads := p.loads ++ [loader kind locator] })
    p).poll

/-- Changes the oldest load of an asset whose loader has not answered yet. -/
def onOldest (kind : AssetKind) (locator : String) (change : Load → Load) : List Load → List Load
  | [] => []
  | load :: rest =>
    if load.attended && load.kind == kind && load.locator == locator then change load :: rest
    else load :: onOldest kind locator change rest

/-- A loader answers the oldest of its open requests for an asset and is done with it. -/
def completeLoad (p : Project) (kind : AssetKind) (locator : String) (outcome : Outcome) : Project :=
  { p with loads := onOldest kind locator (fun load => (load.answer outcome).abandon) p.loads }

/-- A loader gives up the oldest of its open requests for an asset. -/
def abandonLoad (p : Project) (kind : AssetKind) (locator : String) : Project :=
  { p with loads := onOldest kind locator Load.abandon p.loads }

def reportPerformance (p : Project) (performance : Nat) (status : PerformanceStatus) : Project :=
  p.updateWorld fun w => { w with bus := w.bus.report performance status }

def noteImportLoop (p : Project) : Except ProjectError Unit × Project :=
  let (result, world) := p.world.noteImportLoop
  (result, { p with world := world })

def actor (p : Project) (name : String) : Except ProjectError Actor :=
  match p.world.actorNamed? name with
  | some a => .ok a
  | none => .error (.unknownActor name)

/-- The live instances of a class, from back to front. -/
def instancesOf (p : Project) (name : String) : Except ProjectError (List Instance) :=
  (p.actor name).map fun a => a.instances.filterMap p.world.instance?

def threadInfos (p : Project) : List ThreadInfo :=
  p.threads.map fun t => ⟨t.id, t.group, p.world.className t.actor, t.owner, t.label, t.state⟩

theorem length_loads_completeLoad (p : Project) (kind : AssetKind) (locator : String)
    (outcome : Outcome) : (p.completeLoad kind locator outcome).loads.length = p.loads.length := by
  simp only [completeLoad]
  generalize p.loads = loads
  induction loads with
  | nil => rfl
  | cons load rest ih =>
    simp only [onOldest]
    split <;> simp [ih]

end Project

end SpriteStage

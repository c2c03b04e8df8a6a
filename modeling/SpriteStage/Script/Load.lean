import SpriteStage.Project.Host
import SpriteStage.Project.Register
import SpriteStage.Script.Machine
import SpriteStage.Script.Placement

/-!
Projects written as scripts. The top level of a script declares actor classes and its functions are
their handlers. A handler cannot stop halfway: it pauses by giving back a directive, which names the
function to call after the pause.
-/

namespace SpriteStage.Script

/-- A script run outside any thread: the project it acts on, the classes it has declared, and the
runaway loop that was found in it, if any. -/
structure Loading where
  project : Project
  declared : List (Declaration Value) := []
  failure : Option ProjectError := none

def Loading.answer : (query : Query) → Loading → query.Reply × Loading
  | .call c _, l =>
    let (reply, project) := l.project.answer c
    (reply, { l with project := project })
  | .declare d, l => (.ok (), { l with declared := l.declared ++ [d] })
  | .limitLoops max, l =>
    ((), { l with project := l.project.updateWorld fun w =>
      { w with config := { w.config with maxImportLoopIterations := max.toNat } } })
  | .countLoop, l =>
    match l.project.noteImportLoop with
    | (.ok (), project) => (some (.ok ()), { l with project := project })
    | (.error e, project) => (some (.error e), { l with project := project, failure := some e })

/-- What a thread does while a script runs in it. Classes cannot be declared any more, and the limit
on loops outside threads is out of reach. -/
def Inquiry.behavior {α : Type} : Inquiry α → (α → Behavior) → Behavior
  | .done result, k => k result
  | .ask (.call c _) next, k => .call c fun reply => behavior (next reply) k
  | .ask (.declare _) next, k =>
    behavior (next (.error "register() can only be used at the top level of the script")) k
  | .ask (.limitLoops _) next, k => behavior (next ()) k
  | .ask .countLoop next, k => behavior (next none) k

def perform (h : Handle) (d : Directive) : Behavior :=
  let goOn (arguments : List Value) : Behavior :=
    match d.next with
    | none => .finish
    | some function => .jump ⟨h, function, arguments⟩
  let pausing (wait : Wait) (k : wait.Reply → Behavior) : Behavior :=
    .pause wait fun
      | .ok reply => k reply
      | .error e => .fail (.call e)
  match d.pause with
  | .nextFrame => pausing .yield fun _ => goOn []
  | .waitSeconds seconds => pausing (.seconds seconds) fun _ => goOn []
  | .broadcastAndWait message => pausing (.broadcastAndWait message) fun _ => goOn []
  | .askAndWait prompt => pausing (.ask prompt) fun (answer : String) => goOn [.text answer]
  | .playSoundUntilDone name => pausing (.playUntilDone name) fun _ => goOn []
  | .deleteThisClone => pausing .delete fun _ => goOn []
  | .stopAll => pausing .stopAll fun _ => .finish

/-- What a handler goes on with after one of its functions. A directive that was built and not given
back is a mistake. -/
def conclude (h : Handle) (function : String) (f : Finish) : Behavior :=
  match f.result with
  | .error fault => .fail (.text (s!"in {function}(): " ++ fault.message))
  | .ok (.directive d) => perform h d
  | .ok _ =>
    if f.issued = 0 then .finish
    else .fail (.text (s!"in {function}(): a pausing call only takes effect when returned, " ++
      "e.g. \x60return next_frame(\"f\")\x60"))

def library (setting : Setting) : Library := fun jump =>
  (Program.callFor setting jump.handle jump.routine jump.arguments).behavior
    (conclude jump.handle jump.routine)

end SpriteStage.Script

namespace SpriteStage.Declaration

def init (d : Declaration Value) : Constructor := fun figure =>
  let figure := d.attributes.foldl (fun f (name, value) => f.setAttribute name value) figure
  let motions := (d.position.map fun (x, y) => Motion.goTo x y).toList ++
    (d.size.map Motion.setSize).toList ++ (if d.hidden then [.hide] else [])
  ([], .ok (motions.foldl (fun f motion => motion.apply f) figure))

def handler (h : HandlerName) : HandlerDeclaration where
  trigger := Trigger.ofDescriptor h.eventType h.argument
  handler := ⟨h.function, fun handle => .jump ⟨handle, h.function, []⟩⟩

/-- The declared class. Every handler must be a function of the script without parameters. -/
def actorClass (d : Declaration Value) (p : Script.Program) :
    Except RegistrationError ActorClass :=
  match d.handlers.find? fun h => (p.function? h.function 0).isNone with
  | some h => .error (.unknownHandler d.name h.function)
  | none => .ok {
      name := d.name
      kind := d.kind
      costumes := d.costumes
      sounds := d.sounds
      init := d.init
      handlers := d.handlers.map handler }

end SpriteStage.Declaration

namespace SpriteStage.Project

/-- Registers declared classes until one is refused. -/
def registerAll (program : Script.Program) :
    List (Declaration Value) → Project → Except ProjectError Unit × Project
  | [], p => (.ok (), p)
  | d :: rest, p =>
    match d.actorClass program with
    | .error e => (.error (.registration e), p)
    | .ok c =>
      match p.register c d.kind with
      | (.error e, p) => (.error e, p)
      | (.ok _, p) => registerAll program rest p

/-- Loads a project from a script: runs its top level and registers what that declares. -/
def load (source : String) (config : Config) : Except ProjectError Unit × Project :=
  match Project.new config with
  | .error e => (.error e, {})
  | .ok p =>
    match Script.Program.ofText? source with
    | none => (.error .malformedScript, p)
    | some program =>
      let setting : Script.Setting := ⟨program, true, config.maxScriptOperations⟩
      let (finish, loading) :=
        (Script.Program.runBody setting).run Script.Loading.answer { project := p }
      match loading.failure, finish.result with
      | some e, _ => (.error e, loading.project)
      | none, .error fault => (.error (.script fault.message), loading.project)
      | none, .ok _ =>
        registerAll program loading.declared
          { loading.project with library := Script.library setting }

end SpriteStage.Project

namespace SpriteStage.Script

/-- Runs a script that belongs to no project: its value and what it printed. None if it cannot be
read. -/
def evaluate (source : String) : Option (Except Fault Value × List Entry) :=
  (Program.ofText? source).map fun program =>
    let setting : Setting := ⟨program, false, ({} : Config).maxScriptOperations⟩
    let (finish, loading) := (Program.runBody setting).run Loading.answer { project := {} }
    (finish.result, loading.project.takeJournal.1)

end SpriteStage.Script

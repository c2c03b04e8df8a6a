import SpriteStage.Actor
import SpriteStage.Thread.State

/-!
Handler bodies and constructors written as data. A body is a list of blocks: acts, which take no
time, pauses, and the blocks that hold other blocks.
-/

namespace SpriteStage

def Request.stepName : Request → String
  | .className => "class_name"
  | .isClone => "is_clone"
  | .instancesOf _ => "registered_instances"
  | .get _ => "get"
  | .set .. => "set"
  | .x => "x"
  | .y => "y"
  | .direction => "direction"
  | .move motion => motion.name
  | .wear .costume _ => "switch_costume"
  | .wear .backdrop _ => "switch_backdrop"
  | .appearanceName => "appearance_name"
  | .boundingBox => "bounding_box"
  | .touching _ => "touching"
  | .broadcast _ => "broadcast"
  | .createClone (.className _) => "clone_class"
  | .createClone (.member _) => "clone_id"
  | .keyPressed _ => "key_pressed"
  | .showVariable .. => "show_variable"
  | .hideVariable _ => "hide_variable"
  | .startSound _ => "start_sound"
  | .setVolume _ => "set_volume"
  | .volume => "volume"
  | .stopAllSounds => "stop_all_sounds"

def Request.observe : (r : Request) → r.Reply → Option Observation
  | .className, name => some (.text name)
  | .isClone, b => some (.flag b)
  | .instancesOf _, ids => some (.ids ids)
  | .get _, value => some (.value value)
  | .x, reply => some (.number reply)
  | .y, reply => some (.number reply)
  | .direction, d => some (.number d)
  | .appearanceName, name => some (.name name)
  | .boundingBox, box => some (.box box)
  | .touching _, b => some (.flag b)
  | .createClone _, id => some (.id id)
  | .keyPressed _, b => some (.flag b)
  | .setVolume _, gain => some (.number gain)
  | .volume, gain => some (.number gain)
  | .set .., _ | .move _, _ | .wear .., _ | .broadcast _, _ | .showVariable .., _ => none
  | .hideVariable _, _ | .startSound _, _ | .stopAllSounds, _ => none

abbrev Trial (α : Type) := Calls (Except Failure α)

namespace Trial

def request (h : Handle) (r : Request) : Trial r.Reply :=
  .ask (Call.request h r) fun reply => .done (reply.mapError .call)

def always (call : Call) : Trial call.Reply := .ask call fun reply => .done (.ok reply)

def andThen {α β : Type} (t : Trial α) (f : α → Trial β) : Trial β :=
  t.bind fun
    | .ok a => f a
    | .error failure => .done (.error failure)

def getAs (h : Handle) (name : String) (type : ValueType) : Trial Value :=
  (request h (.get name)).andThen fun value =>
    if Value.has type value then .done (.ok value)
    else .done <| .error <| .call <| .invalidArgument "get"
      s!"attribute \"{name}\" holds a value of type {Value.typeName value}"

def getInt (h : Handle) (name : String) : Trial Int :=
  (getAs h name .int).andThen fun value =>
    match value with
    | .int n => .done (.ok n)
    | _ => .done (.ok 0)

end Trial

inductive Act where
  | mark (mark : String)
  | threadId
  | instanceId
  | request (request : Request)
  | getAs (name : String) (type : ValueType)
  | add (name : String) (n : Int)
  | cloneSelf
  | pushRate (perFrame : Nat)
  | popRate
  | keep (slot : String)
  | through (slot : String) (act : Act)
  | beginDeletion

namespace Act

def stepName : Act → String
  | .mark _ => "note"
  | .threadId => "thread_id"
  | .instanceId => "instance_id"
  | .request r => r.stepName
  | .getAs .. => "get_as"
  | .add .. => "add"
  | .cloneSelf => "clone_self"
  | .pushRate _ => "push_rate"
  | .popRate => "pop_rate"
  | .keep _ => "export"
  | .through .. => "as"
  | .beginDeletion => "delete_now"

/-- Whole numbers have 64 bits and wrap around. -/
def wrap (n : Int) : Int := n.bmod (twoTo 64)

def calls : Act → Handle → Trial (Option Observation)
  | .mark text, _ => .done (.ok (some (.mark text)))
  | .threadId, h => .done (.ok (some (.text (threadText h.thread))))
  | .instanceId, h => .done (.ok (some (.id h.owner)))
  | .request r, h => (Trial.request h r).andThen fun reply => .done (.ok (r.observe reply))
  | .getAs name type, h =>
    (Trial.getAs h name type).andThen fun value => .done (.ok (some (.value value)))
  | .add name n, h =>
    (Trial.getInt h name).andThen fun old =>
      (Trial.request h (.set name (.int (wrap (old + n))))).andThen fun _ => .done (.ok none)
  | .cloneSelf, h =>
    (Trial.request h (.createClone (.member h.owner))).andThen fun id =>
      .done (.ok (some (.id id)))
  | .pushRate perFrame, h => (Trial.always (.pushRate h perFrame)).andThen fun _ => .done (.ok none)
  | .popRate, h => (Trial.always (.popRate h)).andThen fun _ => .done (.ok none)
  | .keep slot, h => (Trial.always (.keep slot h)).andThen fun _ => .done (.ok none)
  | .through slot act, _ =>
    (Trial.always (.kept slot)).andThen fun kept =>
      match kept with
      | some other => act.calls other
      | none => .done (.error (.text s!"no handle is kept under {slot}"))
  | .beginDeletion, h =>
    (Trial.always (.start h .delete)).andThen fun (outcome : Option (Except CallError Unit)) =>
      .done (.ok (some (.text (if outcome.isSome then "carried on" else "pausing"))))

end Act

inductive Block where
  | act (act : Act)
  | yield
  | seconds (seconds : Float)
  | broadcastAndWait (message : String)
  /-- The answer may be stored in an attribute. -/
  | ask (prompt : Option String) (name : Option String)
  | playUntilDone (name : String)
  | delete
  | stopAll
  | outside
  | times (n : Nat) (body : List Block)
  | ifClone (yes no : List Block)
  | ifLess (name : String) (n : Int) (yes no : List Block)
  /-- Leaves the list of blocks in which it stands. -/
  | leave
  | fail (message : String) (contexts : List String)
  /-- A failure within is noted, and the thread goes on. -/
  | attempt (body : List Block)

/-- A message within each of its contexts in turn. -/
def Failure.within (message : String) (contexts : List String) : Failure :=
  contexts.foldl (fun failure context => failure.wrap context) (.text message)

namespace Block

/-- Where a body goes on: after a failure, and after the list of blocks that is being run. -/
structure Exits where
  failed : Failure → Behavior
  left : Behavior

def note (h : Handle) (step : String) (o : Observation) (next : Behavior) : Behavior :=
  .call (.record (.note h.thread step o)) fun _ => next

def noteSome (h : Handle) (step : String) (o : Option Observation) (next : Behavior) : Behavior :=
  match o with
  | some o => note h step o next
  | none => next

def trying {α : Type} (exits : Exits) (t : Trial α) (k : α → Behavior) : Behavior :=
  Behavior.after t fun
    | .ok a => k a
    | .error failure => exits.failed failure

def pausing (exits : Exits) (wait : Wait) (k : wait.Reply → Behavior) : Behavior :=
  .pause wait fun
    | .ok reply => k reply
    | .error e => exits.failed (.call e)

def repeated (body : Behavior → Behavior) (next : Behavior) : Nat → Behavior
  | 0 => next
  | n + 1 => body (repeated body next n)

mutual

def behavior (h : Handle) (exits : Exits) : Block → Behavior → Behavior
  | .act step, next =>
    trying exits (step.calls h) fun seen => noteSome h step.stepName seen next
  | .yield, next => pausing exits .yield fun _ => next
  | .seconds time, next => pausing exits (.seconds time) fun _ => next
  | .broadcastAndWait message, next => pausing exits (.broadcastAndWait message) fun _ => next
  | .ask prompt name, next =>
    pausing exits (.ask prompt) fun answer =>
      let noted := note h "ask" (.text answer) next
      match name with
      | none => noted
      | some name => trying exits (Trial.request h (.set name (.text answer))) fun _ => noted
  | .playUntilDone name, next => pausing exits (.playUntilDone name) fun _ => next
  | .delete, next => pausing exits .delete fun _ => next
  | .stopAll, next => pausing exits .stopAll fun _ => next
  | .outside, next => pausing exits .outside fun _ => next
  | .times n body, next => repeated (all h exits.failed body) next n
  | .ifClone yes no, next =>
    trying exits (Trial.request h .isClone) fun (cloned : Bool) =>
      if cloned then all h exits.failed yes next else all h exits.failed no next
  | .ifLess name n yes no, next =>
    trying exits (Trial.getInt h name) fun value =>
      if value < n then all h exits.failed yes next else all h exits.failed no next
  | .leave, _ => exits.left
  | .fail message contexts, _ => exits.failed (.within message contexts)
  | .attempt body, next =>
    all h (fun failure => note h "try" (.failure failure) next) body next

def all (h : Handle) (failed : Failure → Behavior) : List Block → Behavior → Behavior
  | [], next => next
  | block :: rest, next => behavior h ⟨failed, next⟩ block (all h failed rest next)

end

def body (blocks : List Block) (h : Handle) : Behavior := all h .fail blocks .finish

end Block

/-- A step of a constructor, which acts on the bare figure. -/
inductive InitStep where
  | set (name : String) (value : Value)
  | move (motion : Motion)
  | costume (index : Nat)
  | trace
  | fail (message : String) (contexts : List String)

def InitStep.runAll : List InitStep → Constructor
  | [], figure => ([], .ok figure)
  | .set name value :: rest, figure => runAll rest (figure.setAttribute name value)
  | .move motion :: rest, figure => runAll rest (motion.apply figure)
  | .costume index :: rest, figure =>
    runAll rest { figure with look := { figure.look with costume := index } }
  | .trace :: rest, figure =>
    let (looks, result) := runAll rest figure
    (figure.look :: looks, result)
  | .fail message contexts :: _, _ => ([], .error (.within message contexts))

end SpriteStage

import SpriteStage.Behavior

/-!
Actors: their classes as they are declared, and the registered actors with their tables of handlers.
-/

namespace SpriteStage

/-- A body bound to an event; the label names it in reports. -/
structure Handler where
  label : String
  body : Handle → Behavior

/-- A handler as it is declared, with the event it is bound to or the fault in its descriptor. -/
structure HandlerDeclaration where
  trigger : Except RegistrationError Trigger
  handler : Handler

/-- What a constructor does: the looks it lets be seen, and the figure it leaves or why it gave up. -/
abbrev Constructor := Figure → List Look × Except Failure Figure

structure ActorClass where
  name : String
  kind : ActorKind
  costumes : List Costume := []
  sounds : List Sound := []
  init : Constructor := fun figure => ([], .ok figure)
  handlers : List HandlerDeclaration := []

/-- All handlers of one actor for one event, in the order of their declaration. -/
structure HandlerGroup where
  trigger : Trigger
  handlers : List Handler

def HandlerGroup.add (trigger : Trigger) (handler : Handler) :
    List HandlerGroup → List HandlerGroup
  | [] => [⟨trigger, [handler]⟩]
  | group :: rest =>
    if group.trigger = trigger then { group with handlers := group.handlers ++ [handler] } :: rest
    else group :: add trigger handler rest

namespace ActorClass

/-- The event of a declared handler, if an actor of this kind may have it. -/
def triggerOf (kind : ActorKind) (d : HandlerDeclaration) : Except RegistrationError Trigger :=
  match d.trigger with
  | .error e => .error e
  | .ok trigger =>
    if trigger.allowedOn kind then .ok trigger
    else .error (.triggerNotAllowed trigger.eventType kind.name)

def groupAll (kind : ActorKind) :
    List HandlerDeclaration → List HandlerGroup → Except RegistrationError (List HandlerGroup)
  | [], groups => .ok groups
  | d :: rest, groups =>
    match triggerOf kind d with
    | .error e => .error e
    | .ok trigger => groupAll kind rest (HandlerGroup.add trigger d.handler groups)

/-- The table of handlers, or the first fault among the declarations. -/
def groups (c : ActorClass) : Except RegistrationError (List HandlerGroup) :=
  groupAll c.kind c.handlers []

end ActorClass

structure Actor where
  /-- Its position among the actors. -/
  id : Nat
  name : String
  kind : ActorKind
  groups : List HandlerGroup
  costumes : List Costume
  sounds : List Sound
  /-- The instance that it was registered with, which is no clone. -/
  founder : Nat
  /-- Live instances from back to front; a clone stands right behind its parent. -/
  instances : List Nat

namespace Actor

def isSprite (a : Actor) : Bool := a.kind = .sprite

def handlersFor (a : Actor) (trigger : Trigger) : List Handler :=
  match a.groups.find? fun group => group.trigger = trigger with
  | some group => group.handlers
  | none => []

def costumeIndex? (a : Actor) (name : String) : Option Nat :=
  a.costumes.findIdx? (·.name == name)

def sound? (a : Actor) (name : String) : Option Sound := a.sounds.find? (·.name == name)

end Actor

end SpriteStage

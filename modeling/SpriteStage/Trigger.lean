import SpriteStage.Key

/-!
Events that start threads, the descriptors they are written as, and their order.
-/

namespace SpriteStage

inductive ActorKind where
  | sprite
  | stage
  deriving DecidableEq, Repr

def ActorKind.name : ActorKind → String
  | .sprite => "Sprite"
  | .stage => "Stage"

inductive Trigger where
  | greenFlag
  | message (text : String)
  | startAsClone
  | keyPressed (name : String)
  | spriteClicked
  | stageClicked
  deriving DecidableEq, Repr

namespace Trigger

def eventType : Trigger → String
  | .greenFlag => "green-flag"
  | .message _ => "message"
  | .startAsClone => "clone"
  | .keyPressed _ => "key"
  | .spriteClicked => "click"
  | .stageClicked => "stage-click"

/-- The message or key; empty for the other events. -/
def argument : Trigger → String
  | .message text => text
  | .keyPressed name => name
  | _ => ""

/-- Messages must not be empty and keys must be valid; the other events ignore their argument. -/
def ofDescriptor (eventType argument : String) : Except RegistrationError Trigger :=
  match eventType with
  | "green-flag" => .ok .greenFlag
  | "message" =>
    if argument = "" then .error (.badTriggerArgument eventType "a message must be given")
    else .ok (.message argument)
  | "clone" => .ok .startAsClone
  | "key" =>
    match Key.check argument with
    | .ok _ => .ok (.keyPressed argument)
    | .error e => .error (.badTriggerArgument eventType e.message)
  | "click" => .ok .spriteClicked
  | "stage-click" => .ok .stageClicked
  | _ => .error (.unknownEventType eventType)

/-- Clones and clicks on a sprite concern sprites only, clicks on the stage the stage only. -/
def allowedOn : Trigger → ActorKind → Bool
  | .startAsClone, kind => kind = .sprite
  | .spriteClicked, kind => kind = .sprite
  | .stageClicked, kind => kind = .stage
  | _, _ => true

def display : Trigger → String
  | .message text => s!"message \"{text}\""
  | .keyPressed name => s!"key \"{name}\""
  | trigger => trigger.eventType

def rank : Trigger → Nat
  | .greenFlag => 0
  | .message _ => 1
  | .startAsClone => 2
  | .keyPressed _ => 3
  | .spriteClicked => 4
  | .stageClicked => 5

/-- Kinds of event first, then arguments by code point, which is also their order by byte. -/
def le (a b : Trigger) : Bool :=
  decide (a.rank < b.rank) || (a.rank == b.rank && decide (a.argument ≤ b.argument))

def sorted (triggers : List Trigger) : List Trigger :=
  (triggers.mergeSort le).foldr
    (fun t rest => match rest with
      | [] => [t]
      | next :: _ => if t = next then rest else t :: rest) []

end Trigger

end SpriteStage

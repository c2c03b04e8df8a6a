import SpriteStage.Asset

/-!
What can go wrong. A `CallError` is raised inside one running thread; a `ProjectError` is handed to
whoever drives the project; a `Report` is an entry of the project's list of failures.
-/

namespace SpriteStage

/-- What an actor wears: sprites have costumes, the stage has backdrops. -/
inductive Dress where
  | costume
  | backdrop
  deriving DecidableEq, Repr

def Dress.name : Dress → String
  | .costume => "costume"
  | .backdrop => "backdrop"

inductive CallError where
  | invalidKeyName (name hint : String)
  | emptyKeyName
  | cloneTarget (target : String)
  | unknownClass (name : String)
  | unknownAppearance (dress : Dress) (name className : String)
  | unknownSound (name className : String)
  | noSuchAttribute (name className : String)
  | invalidArgument (call reason : String)
  | spriteOnly (call : String)
  | instanceGone (label : String)
  deriving DecidableEq, Repr

def CallError.message : CallError → String
  | .invalidKeyName _ hint => s!"keyname must be a valid key; {hint}"
  | .emptyKeyName => "keyname must not be an empty string"
  | .cloneTarget target => s!"in create_clone_of({target}), the target must be a registered Sprite"
  | .unknownClass name => s!"class \"{name}\" is not registered"
  | .unknownAppearance dress name className =>
    s!"could not find {dress.name} \"{name}\" in class \"{className}\""
  | .unknownSound name className => s!"could not find sound \"{name}\" in class \"{className}\""
  | .noSuchAttribute name className =>
    s!"instance of \"{className}\" has no attribute \"{name}\""
  | .invalidArgument call reason => s!"{call}(): {reason}"
  | .spriteOnly call => s!"{call}() can only be used by a Sprite"
  | .instanceGone label => s!"instance {label} no longer exists"

inductive RegistrationError where
  | duplicateClassName (name : String)
  | unknownEventType (name : String)
  | badTriggerArgument (eventType reason : String)
  | triggerNotAllowed (eventType kind : String)
  | secondStage (name : String)
  | wrongKind (className declared expected : String)
  | unknownHandler (className function : String)
  | constructor (className reason : String)
  deriving DecidableEq, Repr

def RegistrationError.message : RegistrationError → String
  | .duplicateClassName name => s!"duplicate actor class name \"{name}\""
  | .unknownEventType name => s!"unknown event-type \"{name}\""
  | .badTriggerArgument eventType reason =>
    s!"bad argument for event-type \"{eventType}\": {reason}"
  | .triggerNotAllowed eventType kind => s!"event-type \"{eventType}\" cannot be used on a {kind}"
  | .secondStage name => s!"a stage is already registered (\"{name}\")"
  | .wrongKind className declared expected =>
    s!"class \"{className}\" is a {declared}, not a {expected}"
  | .unknownHandler className function => s!"class \"{className}\" has no function \"{function}\""
  | .constructor className reason => s!"constructor for \"{className}\" failed: {reason}"

inductive ProjectError where
  | registration (error : RegistrationError)
  | unknownActor (name : String)
  | runawayLoop (iterations max : Nat)
  | noPendingQuestion
  | config (reason : String)
  | script (reason : String)
  /-- The script cannot be read at all. -/
  | malformedScript
  /-- There is no configuration file. -/
  | unreadable
  /-- The configuration file is not well formed. -/
  | malformedConfig
  deriving DecidableEq, Repr

def ProjectError.message : ProjectError → String
  | .registration error => s!"registration error: {error.message}"
  | .unknownActor name => s!"no actor with class name \"{name}\""
  | .runawayLoop iterations max =>
    s!"your program has tried to execute {iterations} loop iterations, which exceeds " ++
    s!"the maximum allowed of {max}, so it seems likely that you have an infinite loop " ++
    "outside an event handler somewhere; if you have a long-running but finite loop, " ++
    "call set_max_import_loop_iterations() to increase the limit"
  | .noPendingQuestion => "no question is waiting for an answer"
  | .config reason => s!"configuration error: {reason}"
  | .script reason => s!"script error: {reason}"
  | .malformedScript => "script error"
  | .unreadable => "IO error"
  | .malformedConfig => "TOML parse error"

/-- Why a thread's body gave up: a refused call, or a chain of reasons with the outermost first. -/
inductive Failure where
  | call (error : CallError)
  | other (outermost : String) (causes : List String)
  deriving DecidableEq, Repr

namespace Failure

def text (message : String) : Failure := .other message []

def wrap (message : String) : Failure → Failure
  | .call error => .other message [error.message]
  | .other outermost causes => .other message (outermost :: causes)

def message : Failure → String
  | .call error => error.message
  | .other outermost causes => ": ".intercalate (outermost :: causes)

def headline : Failure → String
  | .call error => error.message
  | .other outermost _ => outermost

end Failure

inductive Origin where
  | thread (className label handler : String)
  | asset
  deriving DecidableEq, Repr

structure Report where
  origin : Origin
  message : String
  deriving DecidableEq, Repr

end SpriteStage

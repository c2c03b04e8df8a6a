import SpriteStage.Figure
import SpriteStage.Watcher

/-!
What a thread may ask of the world without pausing, and what it may pause for.
-/

namespace SpriteStage

inductive CloneSource where
  /-- The founder of a class. -/
  | className (name : String)
  | member (id : Nat)
  deriving DecidableEq, Repr

inductive Request where
  | className
  | isClone
  | instancesOf (className : String)
  | get (name : String)
  | set (name : String) (value : Value)
  | x
  | y
  | direction
  | move (motion : Motion)
  | wear (dress : Dress) (name : String)
  | appearanceName
  | boundingBox
  | touching (className : String)
  | broadcast (message : String)
  | createClone (source : CloneSource)
  | keyPressed (name : String)
  | showVariable (name : String) (label : Option String) (position : WatcherPosition)
  | hideVariable (name : String)
  | startSound (name : String)
  | setVolume (gain : Float)
  | volume
  | stopAllSounds

def Request.Reply : Request → Type
  | .className => String
  | .isClone => Bool
  | .instancesOf _ => List Nat
  | .get _ => Value
  | .x => Float
  | .y => Float
  | .direction => Float
  | .appearanceName => Option String
  | .boundingBox => Option Box
  | .touching _ => Bool
  | .createClone _ => Nat
  | .keyPressed _ => Bool
  | .setVolume _ => Float
  | .volume => Float
  | .set .. | .move _ | .wear .. | .broadcast _ | .showVariable .. | .hideVariable _ => Unit
  | .startSound _ | .stopAllSounds => Unit

inductive Wait where
  /-- Lets the rest of the frame run, if the loop rate says so. -/
  | yield
  | seconds (seconds : Float)
  | broadcastAndWait (message : String)
  | ask (prompt : Option String)
  | playUntilDone (name : String)
  | delete
  | stopAll
  /-- For something outside the project; the thread looks again on the next frame. -/
  | outside

def Wait.Reply : Wait → Type
  | .ask _ => String
  | _ => Unit

end SpriteStage

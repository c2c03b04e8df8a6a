import SpriteStage.Figure
import SpriteStage.Sound

/-!
What can be seen from outside while a project runs, in the order in which it happens.
-/

namespace SpriteStage

inductive Observation where
  /-- A mark whose meaning is known to whoever wrote the handler. -/
  | mark (mark : String)
  | text (s : String)
  | flag (b : Bool)
  | id (n : Nat)
  | ids (ns : List Nat)
  | value (v : Value)
  | number (x : Float)
  | name (s : Option String)
  | box (b : Option Box)
  | failure (f : Failure)

inductive Entry where
  | note (thread : Nat) (step : String) (observation : Observation)
  /-- The look of an instance while its constructor runs. -/
  | look (look : Look)
  | bus (call : BusCall)
  | request (kind : AssetKind) (locator : String)
  | print (text : String)
  | debug (text : String)

end SpriteStage

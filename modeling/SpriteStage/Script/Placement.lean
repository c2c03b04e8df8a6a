import SpriteStage.Script.Grammar
import SpriteStage.Script.Simplify

/-!
Where terms may stand: `this` only in functions, the ways out of a loop only in loops, and no
assignment to a constant. Also how a script as a whole is read.
-/

namespace SpriteStage.Script

structure Surroundings where
  inFunction : Bool
  inLoop : Bool := false
  /-- Variables in sight, the newest first, and whether each is a constant. -/
  scope : List (String × Bool) := []

namespace Surroundings

def declaring (s : Surroundings) (name : String) (constant : Bool) : Surroundings :=
  { s with scope := (name, constant) :: s.scope }

def declaringSome (s : Surroundings) : Option String → Surroundings
  | none => s
  | some name => s.declaring name false

def looping (s : Surroundings) : Surroundings := { s with inLoop := true }

def after (s : Surroundings) : Term → Surroundings
  | .declare name _ constant => s.declaring name constant
  | _ => s

def mayAssign (s : Surroundings) : Root → Bool
  | .var name => (s.scope.lookup name) ≠ some true
  | .this => s.inFunction

mutual

def admits (s : Surroundings) : Term → Bool
  | .literal _ | .var _ | .nothing => true
  | .this => s.inFunction
  | .list items | .template items => admitsAll s items
  | .map _ values => admitsAll s values
  | .unary _ operand => admits s operand
  | .binary _ left right | .both left right | .either left right | .orElse left right =>
    admits s left && admits s right
  | .call _ arguments => admitsAll s arguments
  | .chain root _ operands => admits s root && admitsAll s operands
  | .block body => admitsBody s body
  | .declare _ value _ => admitsOption s value
  | .assign _ root links operands right =>
    (if links.isEmpty then s.mayAssign root else root ≠ .this || s.inFunction) &&
      admitsAll s operands && admits s right
  | .cond test yes no => admits s test && admitsBody s yes && admitsBody s no
  | .repeating test body => admitsOption s test && admitsBody s.looping body
  | .repeated body test _ => admitsBody s.looping body && admits s test
  | .each name counter source body =>
    admits s source && admitsBody ((s.declaringSome counter).declaring name false).looping body
  | .leave value => s.inLoop && admitsOption s value
  | .again => s.inLoop
  | .give value | .throwing value => admitsOption s value
  | .attempt body name rescue => admitsBody s body && admitsBody (s.declaringSome name) rescue

def admitsOption (s : Surroundings) : Option Term → Bool
  | none => true
  | some t => admits s t

def admitsAll (s : Surroundings) : List Term → Bool
  | [] => true
  | t :: ts => admits s t && admitsAll s ts

def admitsBody (s : Surroundings) : List Term → Bool
  | [] => true
  | t :: ts => admits s t && admitsBody (s.after t) ts

end

end Surroundings

def Function.isWellPlaced (f : Function) : Bool :=
  Surroundings.admitsBody
    { inFunction := true, scope := f.params.map fun name => (name, false) } f.body

namespace Program

/-- Functions are told apart by their name and the number of their parameters. -/
def isWellPlaced (p : Program) : Bool :=
  Surroundings.admitsBody { inFunction := false } p.body && p.functions.all Function.isWellPlaced &&
    decide ((p.functions.map fun f => (f.name, f.params.length)).Nodup)

def ofText? (source : String) : Option Program :=
  match Token.ofText? source with
  | none => none
  | some tokens =>
    let fuel := 16 * tokens.length + 16
    match Reading.program fuel tokens with
    | none => none
    | some (program, _) => if program.isWellPlaced then some (program.simplified fuel) else none

end Program

end SpriteStage.Script

import SpriteStage.Script.Part

/-!
The state of a running script: what it is about to do, what it will do after that, the variables in
sight, and how much it has done.
-/

namespace SpriteStage.Script

structure Variable where
  name : String
  value : Value
  constant : Bool := false

structure Env where
  /-- Variables, the newest first. -/
  scope : List Variable := []
  this : Option Value := none

namespace Env

def find? (e : Env) (name : String) : Option Variable := e.scope.find? fun v => v.name = name

def bind (e : Env) (name : String) (value : Value) (constant : Bool) : Env :=
  { e with scope := ⟨name, value, constant⟩ :: e.scope }

def bindSome (e : Env) (name : Option String) (value : Value) : Env :=
  match name with
  | some name => e.bind name value false
  | none => e

/-- The variables of a function that has been called. -/
def ofCall (params : List String) (arguments : List Value) (this : Option Value) : Env :=
  { scope := ((params.zip arguments).map fun (name, value) => { name, value }).reverse
    this := this }

def replace (name : String) (value : Value) : List Variable → List Variable
  | [] => []
  | v :: vs => if v.name = name then { v with value := value } :: vs else v :: replace name value vs

/-- The value that a name stands for, and whether it can only be read: a variable, or else a function
of the script. -/
def read (e : Env) (program : Program) : Root → Except Fault (Value × Bool)
  | .var name =>
    match e.find? name with
    | some v => .ok (v.value, v.constant)
    | none => if program.names name then .ok (.routine name [], true) else .error (.unknownVariable name)
  | .this =>
    match e.this with
    | some value => .ok (value, false)
    | none => .error .unboundThis

def write (e : Env) (value : Value) : Root → Env
  | .var name => { e with scope := replace name value e.scope }
  | .this => { e with this := some value }

def size (e : Env) : Nat := e.scope.length

def shrink (e : Env) (size : Nat) : Env :=
  { e with scope := e.scope.drop (e.scope.length - size) }

theorem length_replace (name : String) (value : Value) (scope : List Variable) :
    (replace name value scope).length = scope.length := by
  induction scope with
  | nil => rfl
  | cons v vs ih =>
    simp only [replace]
    split <;> simp [ih]

theorem size_write (e : Env) (value : Value) (root : Root) : (e.write value root).size = e.size := by
  cases root with
  | var name => exact length_replace name value e.scope
  | this => rfl

theorem shrink_bind (e : Env) (name : String) (value : Value) (constant : Bool) :
    (e.bind name value constant).shrink e.size = e := by
  simp [bind, shrink, size]

end Env

inductive Source where
  | values (left : List Value)
  | span (next step : Int) (left : Nat)

namespace Source

/-- How many numbers there are from the first by steps to the last, which is not among them. -/
def count (first last step : Int) : Nat :=
  if 0 < step then ((last - first + step - 1) / step).toNat
  else if step < 0 then ((first - last - step - 1) / (-step)).toNat
  else 0

def of? : Value → Option Source
  | .list items => some (.values items)
  | .range first last closed =>
    some (.span first 1 ((if closed then last + 1 else last) - first).toNat)
  | .steps first last step => some (.span first step (count first last step))
  | .text s => some (.values (s.toList.map .char))
  | _ => none

def next? : Source → Option (Value × Source)
  | .values [] => none
  | .values (value :: left) => some (value, .values left)
  | .span _ _ 0 => none
  | .span n step (left + 1) => some (.int n, .span (n + step) step left)

end Source

inductive Use where
  | list
  | map (names : List String)
  | template
  | unary (op : UnaryOp)
  | binary (op : BinaryOp)
  /-- A call with arguments that are given before these. If there is a place, the argument in front of
  all others is there. -/
  | call (name : String) (given : List Value) (place : Option Root)
  /-- The arguments that a function keeps, beside those it has been given already. -/
  | curry (name : String) (given : List Value)
  | chain (root : Term) (links : List Link)
  | assign (op : Option BinaryOp) (root : Root) (links : List Link) (value : Value)

/-- A way from a value along its parts and methods: the wholes passed, the place where the outermost
came from, whether what is there can only be read, and what is left of the way. -/
structure Way where
  passed : List (Value × Part) := []
  place : Option Root := none
  fixed : Bool := false
  links : List Link
  operands : List Value

inductive Signal where
  | fault (fault : Fault)
  | leaves (value : Value)
  | repeats
  | returns (value : Value)
  | exits (value : Value)

inductive Control where
  | eval (term : Term)
  | give (value : Value)
  | follow (value : Value) (way : Way)
  | raise (signal : Signal)

inductive Frame where
  | sequence (rest : List Term)
  | close (size : Nat)
  | bind (name : String) (constant : Bool)
  | collect (done : List Value) (todo : List Term) (use : Use)
  /-- The arguments for a function that is known now: it is called, or it keeps them. -/
  | callee (keeps : Bool) (arguments : List Term)
  | follow (way : Way)
  | store (op : Option BinaryOp) (root : Root) (links : List Link) (operands : List Term)
  /-- The right operand is evaluated unless the left one settles the matter. -/
  | connect (settled : Bool) (right : Term)
  | expectTruth
  | orElse (right : Term)
  | branch (yes no : List Term)
  | test (loop : Term) (body : List Term)
  /-- One lap of a loop, which is evaluated again after it. -/
  | lap (size : Nat) (loop : Term)
  | lapThen (size : Nat) (test : Term) (expected : Bool) (loop : Term)
  | testAgain (expected : Bool) (loop : Term)
  | source (name : String) (counter : Option String) (body : List Term)
  | each (size : Nat) (name : String) (counter : Option String) (count : Nat) (left : Source)
      (body : List Term)
  | attempt (size : Nat) (name : Option String) (rescue : List Term)
  | rescue (size : Nat) (fault : Fault)
  | leave
  | give
  | throw
  /-- A call; the caller may go on along a way on which the callee's `this` is put back. -/
  | calling (function : String) (env : Env) (way : Option Way)

structure State where
  control : Control
  frames : List Frame := []
  env : Env
  depth : Nat := 0
  operations : Nat := 0
  issued : Nat := 0

namespace State

def eval (s : State) (term : Term) : State := { s with control := .eval term }

def give (s : State) (value : Value) : State := { s with control := .give value }

def raise (s : State) (signal : Signal) : State := { s with control := .raise signal }

def fault (s : State) (fault : Fault) : State := s.raise (.fault fault)

def push (s : State) (frame : Frame) : State := { s with frames := frame :: s.frames }

def shrink (s : State) (size : Nat) : State := { s with env := s.env.shrink size }

def follow (s : State) (value : Value) (way : Way) : State :=
  { s with control := .follow value way }

def settle (s : State) : Except Fault Value → State
  | .ok value => s.give value
  | .error e => s.fault e

end State

end SpriteStage.Script

import SpriteStage.Value

/-!
Scripts as trees. Statements are terms too: the value of a block is the value of its last statement.
-/

namespace SpriteStage.Script

inductive UnaryOp where
  | minus
  | plus
  | negate
  deriving DecidableEq, Repr

inductive BinaryOp where
  | add
  | sub
  | mul
  | div
  | rem
  | pow
  | shiftLeft
  | shiftRight
  | conj
  | disj
  | differ
  | eq
  | ne
  | lt
  | le
  | gt
  | ge
  /-- The range from the left to the right, without the right end. -/
  | upTo
  /-- The range from the left to the right, with the right end. -/
  | through
  /-- Whether the left holds the right. -/
  | contains
  deriving DecidableEq, Repr

def UnaryOp.symbol : UnaryOp → String
  | .minus => "-"
  | .plus => "+"
  | .negate => "!"

def BinaryOp.symbol : BinaryOp → String
  | .add => "+"
  | .sub => "-"
  | .mul => "*"
  | .div => "/"
  | .rem => "%"
  | .pow => "**"
  | .shiftLeft => "<<"
  | .shiftRight => ">>"
  | .conj => "&"
  | .disj => "|"
  | .differ => "^"
  | .eq => "=="
  | .ne => "!="
  | .lt => "<"
  | .le => "<="
  | .gt => ">"
  | .ge => ">="
  | .upTo => ".."
  | .through => "..="
  | .contains => "contains"

def BinaryOp.mayAssign : BinaryOp → Bool
  | .add | .sub | .mul | .div | .rem | .pow | .shiftLeft | .shiftRight | .conj | .disj
  | .differ => true
  | _ => false

/-- A step from a value to one of its parts, or a call of one of its methods. What an index or a
call takes is written apart, in the order of the steps. -/
inductive Link where
  | property (name : String)
  | index
  | method (name : String) (arity : Nat)
  /-- The end of the way if the value is the unit. -/
  | guard
  deriving DecidableEq, Repr

def Link.arity : Link → Nat
  | .property _ | .guard => 0
  | .index => 1
  | .method _ n => n

/-- Whether the step leads to a part, which may be assigned to. -/
def Link.isPart : Link → Bool
  | .property _ | .index => true
  | _ => false

inductive Root where
  | var (name : String)
  | this
  deriving DecidableEq, Repr

inductive Term where
  | literal (value : Value)
  | var (name : String)
  | this
  | list (items : List Term)
  | map (names : List String) (values : List Term)
  /-- A text put together from the texts of its pieces. -/
  | template (pieces : List Term)
  | unary (op : UnaryOp) (operand : Term)
  | binary (op : BinaryOp) (left right : Term)
  | both (left right : Term)
  | either (left right : Term)
  | orElse (left right : Term)
  | call (name : String) (arguments : List Term)
  | chain (root : Term) (links : List Link) (operands : List Term)
  | block (body : List Term)
  | declare (name : String) (value : Option Term) (constant : Bool)
  /-- Puts the right side into a place, combined with what is there if an operator is given. -/
  | assign (op : Option BinaryOp) (root : Root) (links : List Link) (operands : List Term)
      (right : Term)
  | cond (test : Term) (yes no : List Term)
  /-- Repeats while the test holds, without a test for ever. -/
  | repeating (test : Option Term) (body : List Term)
  /-- Repeats at least once, as long as the test gives the expected answer. -/
  | repeated (body : List Term) (test : Term) (expected : Bool)
  | each (name : String) (counter : Option String) (source : Term) (body : List Term)
  | leave (value : Option Term)
  | again
  | give (value : Option Term)
  | throwing (value : Option Term)
  | attempt (body : List Term) (name : Option String) (rescue : List Term)
  | nothing

namespace Term

/-- Whether a term may be a truth value, as far as its form tells. -/
def mayHold : Term → Bool
  | .literal (.bool _) => true
  | .literal _ | .list _ | .map .. | .template _ => false
  | _ => true

/-- Whether a term may be something to go through, as far as its form tells. -/
def mayIterate : Term → Bool
  | .literal (.text _) => true
  | .literal _ => false
  | _ => true

/-- Whether a term may be a key of a kind, as far as its form tells. -/
def mayBe (key : Value → Bool) : Term → Bool
  | .literal value => key value
  | .template _ => key (.text "")
  | .both .. | .either .. => false
  | _ => true

/-- Whether one term may be indexed by another, as far as their forms tell. -/
def mayIndex (index : Term) : Term → Bool
  | .map .. => index.mayBe (Value.has .text)
  | .list _ | .template _ | .literal (.int _) | .literal (.text _) => index.mayBe (Value.has .int)
  | _ => true

/-- The place that a term stands for, if it does. -/
def place? : Term → Option Root
  | .var name => some (.var name)
  | .this => some .this
  | _ => none

end Term

structure Function where
  name : String
  params : List String
  body : List Term

structure Program where
  functions : List Function
  body : List Term

def Program.function? (p : Program) (name : String) (arity : Nat) : Option Function :=
  p.functions.find? fun f => f.name == name && f.params.length == arity

def Program.names (p : Program) (name : String) : Bool :=
  p.functions.any fun f => f.name == name

end SpriteStage.Script

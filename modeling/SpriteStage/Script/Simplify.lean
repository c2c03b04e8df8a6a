import SpriteStage.Script.Part
import SpriteStage.Script.Purity
import SpriteStage.Script.Token.Basic

/-!
How a script is simplified before it runs. Statements that only give a value nobody asks for are left
out, and what is known beforehand takes the place of the term it is the value of. Scripts can tell:
what is left out cannot fail, and a truth value that decides about nothing is not looked at.
-/

namespace SpriteStage.Script

inductive Role where
  /-- It is a whole script or the body of a function. -/
  | whole
  /-- It is part of another block, and its value is asked for. -/
  | valued
  /-- It is part of another block, and its value is not asked for. -/
  | idle
  deriving DecidableEq, Repr

namespace Role

def ofInner (keep : Bool) : Role := if keep then .valued else .idle

def keeps (role : Role) : Bool := role ≠ .idle

/-- Whether a statement counts as one that does nothing. The variables of an inner block are nobody
else's concern. -/
def isQuiet (role : Role) : Term → Bool
  | .declare _ value _ => role ≠ .whole && value.all Term.isPure
  | t => t.isPure

/-- Whether a statement is a reason to keep declarations in front of it. -/
def isReason (role : Role) : Term → Bool
  | .declare name value constant =>
    !role.isQuiet (.declare name value constant) || value.all fun t => t.constant?.isSome
  | t => !role.isQuiet t || (t.isExpression && t.constant?.isNone)

end Role

/-- A pass over a term, which notes whether it changed anything. -/
abbrev Simplifying (α : Type) := StateM Bool α

namespace Simplifying

def changed {α : Type} (result : α) : Simplifying α := do
  set true
  return result

def fewer (before after : List Term) : Simplifying (List Term) :=
  if after.length = before.length then return before else changed after

mutual

/-- The statements of a block that declares nothing, or else the statement itself. -/
def opened : Term → List Term
  | .block body => if body.any Term.declares then [.block body] else unfolded body
  | t => [t]

/-- Statements without the bounds of the inner blocks that declare nothing. -/
def unfolded : List Term → List Term
  | [] => []
  | t :: ts => opened t ++ unfolded ts

end

def isOpen : Term → Bool
  | .block body => !body.any Term.declares
  | _ => false

/-- Statements up to the first one after which nothing is reached. -/
def reached : List Term → List Term
  | [] => []
  | t :: ts => if t.leavesBlock then [t] else t :: reached ts

/-- Leaves out statements that do nothing, but not the last one if the value of the block is asked
for. -/
def active (role : Role) (body : List Term) : List Term :=
  let numbered := body.zipIdx
  let first := ((numbered.filter fun (t, _) => role.isReason t).getLast?.map (·.2)).getD 0
  let stays (t : Term) (i : Nat) : Bool :=
    (role.keeps && i + 1 = body.length) || !(t.isPure || (role.isQuiet t && first ≤ i))
  (numbered.filter fun (t, i) => stays t i).map (·.1)

/-- Leaves out the last statements as far as they do nothing. The statements are given from the last
to the first. -/
def trimmed (role : Role) : List Term → Simplifying (List Term)
  | [] => return []
  | last :: rest => do
    let afterValue := rest.head?.any Term.givesValue
    if role = .idle then
      if role.isQuiet last then changed (← trimmed role rest) else return last :: rest
    else
      match role, last, afterValue with
      | .whole, .give none, true => changed (.nothing :: rest)
      | .whole, .give none, false => changed (← trimmed role rest)
      | .whole, .give (some value), _ => changed (value :: rest)
      | _, .nothing, true => return last :: rest
      | _, _, _ =>
        if last.givesValue || !role.isQuiet last then return last :: rest
        else if afterValue then changed (.nothing :: rest)
        else changed (← trimmed role rest)

def asStatement : List Term → Term
  | [] => .nothing
  | body => .block body

/-- What a single step takes out of a term, if that is known beforehand. -/
def taken? : Term → List Link → List Term → Option Term
  | .map names values, [.property name], _
  | .map names values, [.index], [.literal (.text name)] =>
    if values.all Term.isPure then
      some (((names.zip values).lookup name).getD (.literal .unit))
    else none
  | .list items, [.index], [.literal (.int i)] =>
    if items.all Term.isPure then (position? items.length i).bind (items[·]?) else none
  | .literal (.int n), [.index], [.literal (.int i)] =>
    (position? 64 i).map fun place => .literal (.bool (bit n place))
  | .literal (.text s), [.index], [.literal (.int i)] =>
    (position? s.length i).bind fun place => (s.toList[place]?).map fun c => .literal (.char c)
  | .literal .unit, .guard :: _, _ => some (.literal .unit)
  | root, [.method "type_of" 0], _ =>
    root.constant?.map fun value => .literal (.text value.typeName)
  | _, _, _ => none

def called? (name : String) (arguments : List Term) : Option Value :=
  match name, arguments.map Term.constant? with
  | "Fn", [some (.text s)] => if Token.isFunctionName s then some (.routine s []) else none
  | "type_of", [some value] => some (.text value.typeName)
  | "is_shared", [some _] => some (.bool false)
  | _, _ => none

/-- The value of an operation, if it is known beforehand and there is one. -/
def computed? (op : BinaryOp) (left right : Term) : Option Value :=
  match left.constant?, right.constant? with
  | some a, some b =>
    match op.onSimple a b with
    | some (.ok value) => some value
    | _ => none
  | _, _ => none

mutual

/-- Simplifies a block until nothing changes any more. -/
def block : Nat → Role → List Term → Simplifying (List Term)
  | 0, _, body => return body
  | n + 1, role, body => do
    if body.any isOpen then set true
    rounds n role (unfolded body)

def rounds : Nat → Role → List Term → Simplifying (List Term)
  | 0, _, body => return body
  | n + 1, role, body => do
    let before ← get
    set false
    let body ← fewer body (reached body)
    let body ← statements n role.keeps body
    let body ← fewer body (active role body)
    let body := (← trimmed role body.reverse).reverse
    if ← get then rounds n role body
    else
      set before
      return body

/-- Statements, of which only the last is asked for its value, if any. -/
def statements : Nat → Bool → List Term → Simplifying (List Term)
  | 0, _, body => return body
  | _, _, [] => return []
  | n + 1, keep, t :: ts => do
    return (← statement n (keep && ts.isEmpty) t) :: (← statements n keep ts)

def statement : Nat → Bool → Term → Simplifying Term
  | 0, _, t => return t
  | n + 1, keep, t => do
    let role := Role.ofInner keep
    match t with
    | .assign op root links operands right =>
      match op, root, links, right with
      | none, .var name, [], .binary operator (.var other) value =>
        if name = other ∧ operator.mayAssign then
          changed (.assign (some operator) root links operands value)
        else return .assign op root links operands (← expression n right)
      | _, _, _, _ =>
        return .assign op root links (← expressions n operands) (← expression n right)
    | .cond test [] [] =>
      let test ← expression n test
      changed (if keep then .block [test, .nothing] else test)
    | .cond (.literal (.bool b)) yes no =>
      changed (asStatement (← block n role (if b then yes else no)))
    | .cond test yes no =>
      return .cond (← expression n test) (← block n role yes) (← block n role no)
    | .repeating none body => return .repeating none (← block n .idle body)
    | .repeating (some (.literal (.bool false))) _ => changed .nothing
    | .repeating (some test) body =>
      let test ← expression n test
      let body ← block n .idle body
      match test with
      | .literal (.bool true) => return .repeating none body
      | _ => return .repeating (some test) body
    | .repeated body test expected =>
      let test ← expression n test
      return .repeated (← block n .idle body) test expected
    | .each name counter source body =>
      return .each name counter (← expression n source) (← block n .idle body)
    | .declare name (some value) constant =>
      return .declare name (some (← expression n value)) constant
    | .leave (some value) => return .leave (some (← expression n value))
    | .give (some value) => return .give (some (← expression n value))
    | .throwing (some value) => return .throwing (some (← expression n value))
    | .block body =>
      match ← block n role body with
      | [] => changed .nothing
      | [inner] => if inner.declares then return .block [inner] else changed inner
      | body => return .block body
    | .attempt body name rescue =>
      if Term.arePure body then changed (.block (← block n .idle body))
      else return .attempt (← block n .idle body) name (← block n .idle rescue)
    | _ => expression n t

def expressions : Nat → List Term → Simplifying (List Term)
  | 0, ts => return ts
  | _, [] => return []
  | n + 1, t :: ts => do return (← expression n t) :: (← expressions n ts)

def expression : Nat → Term → Simplifying Term
  | 0, t => return t
  | n + 1, t => do
    match t with
    | .block [] => changed (.literal .unit)
    | .block [inner] =>
      if inner.isExpression then changed (← expression n inner)
      else
        match ← block n .valued [inner] with
        | [inner] => if inner.isExpression then changed inner else return .block [inner]
        | body => return .block body
    | .block body =>
      match ← block n .valued body with
      | [inner] => if inner.isExpression then changed inner else return .block [inner]
      | body => return .block body
    | .list items =>
      match t.constant? with
      | some value => changed (.literal value)
      | none => return .list (← expressions n items)
    | .map names values =>
      match t.constant? with
      | some value => changed (.literal value)
      | none => return .map names (← expressions n values)
    | .template pieces => return .template (← expressions n pieces)
    | .unary .negate (.literal (.bool b)) => changed (.literal (.bool (!b)))
    | .unary op operand => return .unary op (← expression n operand)
    | .binary op left right =>
      match computed? op left right with
      | some value => changed (.literal value)
      | none => return .binary op (← expression n left) (← expression n right)
    | .both (.literal (.bool true)) right => changed (← expression n right)
    | .both (.literal (.bool false)) _ => changed (.literal (.bool false))
    | .both left (.literal (.bool true)) => changed (← expression n left)
    | .both left right => return .both (← expression n left) (← expression n right)
    | .either (.literal (.bool false)) right => changed (← expression n right)
    | .either (.literal (.bool true)) _ => changed (.literal (.bool true))
    | .either left (.literal (.bool false)) => changed (← expression n left)
    | .either left right => return .either (← expression n left) (← expression n right)
    | .orElse (.literal .unit) right => changed right
    | .orElse left right =>
      match left.constant? with
      | some value => changed (.literal value)
      | none => return .orElse left right
    | .call name arguments =>
      match called? name arguments with
      | some value => changed (.literal value)
      | none => return .call name (← expressions n arguments)
    | .chain root links operands =>
      match taken? root links operands with
      | some part => changed part
      | none =>
        let operands ← expressions n operands
        let root ← if root.place?.isSome then pure root else expression n root
        return .chain root links operands
    | _ => return t

end

end Simplifying

/-- A program as it runs. The fuel admits so many passes within one another. -/
def Program.simplified (fuel : Nat) (p : Program) : Program :=
  let whole (body : List Term) : List Term := (Simplifying.block fuel .whole body false).1
  { functions := p.functions.map fun f => { f with body := whole f.body }
    body := whole p.body }

end SpriteStage.Script

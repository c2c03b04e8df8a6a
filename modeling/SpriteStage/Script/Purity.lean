import SpriteStage.Script.Term

/-!
What the form of a term tells before it is evaluated: whether its value is known, whether it does
anything but give a value, and whether it gives one at all.
-/

namespace SpriteStage.Script.Term

mutual

/-- The value of a term that is made of literals alone. -/
def constant? : Term → Option Value
  | .literal value => some value
  | .list items => (constants? items).map .list
  | .map names values => (constants? values).map fun values => .map (Fields.ofList (names.zip values))
  | _ => none

def constants? : List Term → Option (List Value)
  | [] => some []
  | t :: ts =>
    match constant? t, constants? ts with
    | some value, some values => some (value :: values)
    | _, _ => none

end

mutual

/-- Whether a term counts as one that does nothing but give a value. A variable counts as one even
if there is no such variable. -/
def isPure : Term → Bool
  | .literal _ | .var _ | .nothing => true
  | .list items => (constants? items).isSome
  | .map _ values => (constants? values).isSome
  | .both left right | .either left right => isPure left && isPure right
  | .block body => arePure body
  | .cond test yes no => isPure test && arePure yes && arePure no
  | .repeating (some (.literal (.bool b))) _ => !b
  | .repeated body (.literal (.bool b)) expected => b != expected && arePure body
  | .each _ _ source body => isPure source && arePure body
  | .attempt body _ rescue => arePure body && arePure rescue
  | _ => false

def arePure : List Term → Bool
  | [] => true
  | t :: ts => isPure t && arePure ts

end

def isExpression : Term → Bool
  | .literal _ | .var _ | .this | .list _ | .map .. | .template _ | .unary .. | .binary .. | .both ..
  | .either .. | .orElse .. | .call .. | .chain .. => true
  | _ => false

def givesValue : Term → Bool
  | .block _ | .cond .. => true
  | t => t.isExpression

/-- Whether what follows a statement is never reached. -/
def leavesBlock : Term → Bool
  | .leave _ | .again | .give _ | .throwing _ => true
  | _ => false

def declares : Term → Bool
  | .declare .. => true
  | _ => false

theorem isPure_of_constant? {t : Term} {value : Value} (h : t.constant? = some value) :
    t.isPure = true := by
  cases t <;> simp_all [constant?, isPure, Option.isSome_iff_exists] <;>
    exact h.elim fun values hv => ⟨values, hv.1⟩

end SpriteStage.Script.Term

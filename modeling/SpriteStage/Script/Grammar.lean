import SpriteStage.Script.Term
import SpriteStage.Script.Token

/-!
The grammar of scripts: how words make up terms. A reading function takes what it reads off the
front of the words that are left. Every function counts down its fuel when it calls another, and
a word admits only so many calls, so that fuel in proportion to the words is enough.
-/

namespace SpriteStage.Script

abbrev Reading (α : Type) := StateT (List Token) Option α

namespace Reading

def peek : Reading (Option Token) := do return (← get).head?

def advance : Reading Unit := modify List.tail

def isNext (symbol : String) : Reading Bool := do
  return match ← peek with
    | some (.symbol s) => s == symbol
    | _ => false

def isKeyword (word : String) : Reading Bool := do
  return match ← peek with
    | some (.keyword s) => s == word
    | _ => false

def accept (symbol : String) : Reading Bool := do
  if ← isNext symbol then
    advance
    return true
  else return false

def acceptKeyword (word : String) : Reading Bool := do
  if ← isKeyword word then
    advance
    return true
  else return false

def expect (symbol : String) : Reading Unit := do
  if ← accept symbol then return () else failure

def expectKeyword (word : String) : Reading Unit := do
  if ← acceptKeyword word then return () else failure

def anyName : Reading String := do
  match ← peek with
  | some (.name s) =>
    advance
    return s
  | _ => failure

/-- A name that a script may give to things of its own. -/
def ownName : Reading String := do
  let s ← anyName
  if Token.languageFunctions.contains s then failure else return s

def atEnd : Reading Bool := do
  return match ← peek with
    | none => true
    | some (.symbol s) => s == ";" || s == "\x7d"
    | _ => false

def endHere : Reading Unit := do
  if ← atEnd then return () else failure

/-- The name of something inside a value; as a method it may be one of the language's own. -/
def memberName : Reading String := do
  let s ← anyName
  let called := (← isNext "(") || (← isNext "()")
  if Token.languageFunctions.contains s && !(called && Token.languageMethods.contains s) then
    failure
  else return s

end Reading

inductive Joint where
  | op (op : BinaryOp)
  /-- Whether the right operand holds the left one, or whether it does not. -/
  | within (holds : Bool)
  | both
  | either
  | orElse

namespace Joint

def ofToken? : Token → Option (Joint × Nat)
  | .symbol "||" => some (.either, 30)
  | .symbol "|" => some (.op .disj, 30)
  | .symbol "^" => some (.op .differ, 30)
  | .symbol "&&" => some (.both, 60)
  | .symbol "&" => some (.op .conj, 60)
  | .symbol "==" => some (.op .eq, 90)
  | .symbol "!=" => some (.op .ne, 90)
  | .keyword "in" => some (.within true, 110)
  | .symbol "!in" => some (.within false, 110)
  | .symbol "<" => some (.op .lt, 130)
  | .symbol "<=" => some (.op .le, 130)
  | .symbol ">" => some (.op .gt, 130)
  | .symbol ">=" => some (.op .ge, 130)
  | .symbol "??" => some (.orElse, 135)
  | .symbol ".." => some (.op .upTo, 140)
  | .symbol "..=" => some (.op .through, 140)
  | .symbol "+" => some (.op .add, 150)
  | .symbol "-" => some (.op .sub, 150)
  | .symbol "*" => some (.op .mul, 180)
  | .symbol "/" => some (.op .div, 180)
  | .symbol "%" => some (.op .rem, 180)
  | .symbol "**" => some (.op .pow, 190)
  | .symbol "<<" => some (.op .shiftLeft, 210)
  | .symbol ">>" => some (.op .shiftRight, 210)
  | _ => none

/-- Whether a chain of this joint is grouped from the right. -/
def toTheRight : Joint → Bool
  | .op .pow => true
  | _ => false

/-- Two operands joined. Terms that are plainly no truth values cannot be joined as such. -/
def join (left right : Term) : Joint → Option Term
  | .op operator => some (.binary operator left right)
  | .within true => some (.binary .contains right left)
  | .within false => some (.unary .negate (.binary .contains right left))
  | .both => if left.mayHold && right.mayHold then some (.both left right) else none
  | .either => if left.mayHold && right.mayHold then some (.either left right) else none
  | .orElse => some (.orElse left right)

end Joint

/-- The operator with which an assignment combines: none for a plain one. -/
def assignment? : Option Token → Option (Option BinaryOp)
  | some (.symbol "=") => some none
  | some (.symbol "+=") => some (some .add)
  | some (.symbol "-=") => some (some .sub)
  | some (.symbol "*=") => some (some .mul)
  | some (.symbol "/=") => some (some .div)
  | some (.symbol "%=") => some (some .rem)
  | some (.symbol "**=") => some (some .pow)
  | some (.symbol "<<=") => some (some .shiftLeft)
  | some (.symbol ">>=") => some (some .shiftRight)
  | some (.symbol "&=") => some (some .conj)
  | some (.symbol "|=") => some (some .disj)
  | some (.symbol "^=") => some (some .differ)
  | _ => none

/-- An assignment to what a term stands for: a variable, or a part of one without calls between. -/
def Term.assigned? (left : Term) (op : Option BinaryOp) (right : Term) : Option Term :=
  match left with
  | .chain root links operands =>
    if links.all Link.isPart then
      root.place?.map fun place => .assign op place links operands right
    else none
  | _ => left.place?.map fun place => .assign op place [] [] right

/-- A minus before a term; before a number it belongs to the number. -/
def Term.signed : Term → Term
  | .literal (.int n) =>
    if n = -(twoTo 63 : Int) then .literal (.float (-(Float.ofInt n))) else .literal (.int (-n))
  | .literal (.float x) => .literal (.float (-x))
  | term => .unary .minus term

def Term.positive : Term → Term
  | .literal (.int n) => .literal (.int n)
  | .literal (.float x) => .literal (.float x)
  | term => .unary .plus term

/-- A term with the steps that follow it. The first index is refused where its form shows that it
cannot fit. -/
def Term.chained? (root : Term) (links : List Link) (operands : List Term) : Option Term :=
  let fits := match links, operands with
    | .index :: _, index :: _ | .guard :: .index :: _, index :: _ => index.mayIndex root
    | _, _ => true
  if links.isEmpty then some root
  else if fits then some (.chain root links operands)
  else none

namespace Reading

mutual

def term : Nat → Reading Term
  | 0 => failure
  | n + 1 => do joined n 1 (← operand n)

/-- Takes joints and operands as long as they bind at least as strongly as what stands before. -/
def joined : Nat → Nat → Term → Reading Term
  | 0, _, _ => failure
  | n + 1, strength, left => do
    match (← peek).bind Joint.ofToken? with
    | none => return left
    | some (joint, own) =>
      if own < strength ∨ (own = strength ∧ ¬ joint.toTheRight) then return left
      advance
      let first ← operand n
      let right ← match (← peek).bind Joint.ofToken? with
        | none => pure first
        | some (_, next) =>
          if own < next ∨ (own = next ∧ joint.toTheRight) then joined n own first
          else pure first
      joined n strength (← joint.join left right)

def operand : Nat → Reading Term
  | 0 => failure
  | n + 1 => do
    if ← accept "-" then return (← operand n).signed
    else if ← accept "+" then return (← operand n).positive
    else if ← accept "!" then return .unary .negate (← operand n)
    else
      let root ← atom n
      let (links, operands) ← chainLinks n
      root.chained? links operands

def atom : Nat → Reading Term
  | 0 => failure
  | n + 1 => do
    match ← peek with
    | none => failure
    | some token =>
      match token with
      | .int i =>
        advance
        return .literal (.int i)
      | .float x =>
        advance
        return .literal (.float x)
      | .text s =>
        advance
        return .literal (.text s)
      | .char c =>
        advance
        return .literal (.char c)
      | .piece _ => return .template (← pieces n)
      | .keyword "true" =>
        advance
        return .literal (.bool true)
      | .keyword "false" =>
        advance
        return .literal (.bool false)
      | .keyword "this" =>
        advance
        return .this
      | .name s =>
        advance
        match ← arguments? n with
        | some arguments => return .call s arguments
        | none => if Token.languageFunctions.contains s then failure else return .var s
      | .symbol "()" =>
        advance
        return .literal .unit
      | .symbol "(" =>
        advance
        if ← accept ")" then return .literal .unit
        let inner ← term n
        expect ")"
        return inner
      | .symbol "[" =>
        advance
        return .list (← listed n "]")
      | .symbol "#\x7b" =>
        advance
        let fields ← mapFields n
        if (fields.map (·.1)).Nodup then
          return .map (fields.map (·.1)) (fields.map (·.2))
        else failure
      | .symbol "\x7b" => return .block (← block n)
      | .keyword "if" | .keyword "while" | .keyword "loop" | .keyword "do" | .keyword "for" =>
        return .block [(← control n token).1]
      | _ => failure

/-- The pieces of a template: texts, and blocks of code between them. -/
def pieces : Nat → Reading (List Term)
  | 0 => failure
  | n + 1 => do
    match ← peek with
    | some (.piece s) =>
      advance
      let code ← block n
      return .literal (.text s) :: .block code :: (← pieces n)
    | some (.text s) =>
      advance
      return [.literal (.text s)]
    | _ => failure

/-- The arguments of a call, if a call is in front. -/
def arguments? : Nat → Reading (Option (List Term))
  | 0 => failure
  | n + 1 => do
    if ← accept "()" then return some []
    else if ← accept "(" then return some (← listed n ")")
    else return none

/-- Terms between commas up to a closing symbol, which a comma may precede. -/
def listed : Nat → String → Reading (List Term)
  | 0, _ => failure
  | n + 1, closing => do
    if ← accept closing then return []
    let first ← term n
    if ← accept "," then return first :: (← listed n closing)
    expect closing
    return [first]

def mapFields : Nat → Reading (List (String × Term))
  | 0 => failure
  | n + 1 => do
    if ← accept "\x7d" then return []
    let name ← match ← peek with
      | some (.text s) =>
        advance
        pure s
      | _ => ownName
    expect ":"
    let value ← term n
    if ← accept "," then return (name, value) :: (← mapFields n)
    expect "\x7d"
    return [(name, value)]

/-- The steps to parts and the calls of methods that follow a term, and their operands. -/
def chainLinks : Nat → Reading (List Link × List Term)
  | 0 => failure
  | n + 1 => do
    if (← isNext "?.") || (← isNext "?[") then
      let (links, operands) ← chainLink n
      return (.guard :: links, operands)
    else if (← isNext ".") || (← isNext "[") then chainLink n
    else return ([], [])

/-- The step in front, which is one, and those that follow it. -/
def chainLink : Nat → Reading (List Link × List Term)
  | 0 => failure
  | n + 1 => do
    if (← accept ".") || (← accept "?.") then
      let name ← memberName
      let given ← arguments? n
      let (links, operands) ← chainLinks n
      match given with
      | some arguments =>
        return (.method name arguments.length :: links, arguments ++ operands)
      | none => return (.property name :: links, operands)
    else
      advance
      let index ← term n
      expect "]"
      let (links, operands) ← chainLinks n
      return (.index :: links, index :: operands)

def block : Nat → Reading (List Term)
  | 0 => failure
  | n + 1 => do
    expect "\x7b"
    statements n

def statements : Nat → Reading (List Term)
  | 0 => failure
  | n + 1 => do
    if ← accept "\x7d" then return []
    else if ← accept ";" then statements n
    else
      let (first, ended) ← statement n
      if !ended then endHere
      return first :: (← statements n)

/-- A statement, and whether it needs no further mark of its end. -/
def statement : Nat → Reading (Term × Bool)
  | 0 => failure
  | n + 1 => do
    match ← peek with
    | some (.symbol "\x7b") => return (.block (← block n), true)
    | some (.keyword "let") =>
      advance
      return (← declaration n false, false)
    | some (.keyword "const") =>
      advance
      return (← declaration n true, false)
    | some (.keyword "break") =>
      advance
      return (.leave (← anyTerm n), false)
    | some (.keyword "continue") =>
      advance
      return (.again, false)
    | some (.keyword "return") =>
      advance
      return (.give (← anyTerm n), false)
    | some (.keyword "throw") =>
      advance
      return (.throwing (← anyTerm n), false)
    | some (.keyword "try") =>
      advance
      let body ← block n
      expectKeyword "catch"
      let name ← if ← accept "(" then
          let name ← ownName
          expect ")"
          pure (some name)
        else pure none
      return (.attempt body name (← block n), true)
    | some token =>
      let isControl := match token with
        | .keyword s => ["if", "while", "loop", "do", "for"].contains s
        | _ => false
      if isControl then control n token
      else
        let left ← term n
        match assignment? (← peek) with
        | none => return (left, false)
        | some op =>
          advance
          return (← left.assigned? op (← term n), false)
    | none => failure

/-- A choice or a loop, and whether it needs no further mark of its end. -/
def control : Nat → Token → Reading (Term × Bool)
  | 0, _ => failure
  | n + 1, token => do
    advance
    match token with
    | .keyword "if" =>
      let test ← condition n
      let yes ← block n
      if ← acceptKeyword "else" then
        match ← peek with
        | some (.keyword "if") => return (.cond test yes [(← control n (.keyword "if")).1], true)
        | _ => return (.cond test yes (← block n), true)
      else return (.cond test yes [], true)
    | .keyword "while" =>
      let test ← condition n
      return (.repeating (some test) (← block n), true)
    | .keyword "loop" => return (.repeating none (← block n), true)
    | .keyword "do" =>
      let body ← block n
      if ← acceptKeyword "while" then return (.repeated body (← condition n) true, false)
      expectKeyword "until"
      return (.repeated body (← condition n) false, false)
    | .keyword "for" =>
      let (name, counter) ← if ← accept "(" then
          let name ← ownName
          expect ","
          let counter ← ownName
          expect ")"
          pure (name, some counter)
        else pure (← ownName, none)
      if counter = some name then failure
      expectKeyword "in"
      if ← isNext "\x7b" then failure
      let source ← term n
      if !source.mayIterate then failure
      return (.each name counter source (← block n), true)
    | _ => failure

/-- A term that may be a truth value, and is no block. -/
def condition : Nat → Reading Term
  | 0 => failure
  | n + 1 => do
    if ← isNext "\x7b" then failure
    let test ← term n
    if test.mayHold then return test else failure

def anyTerm : Nat → Reading (Option Term)
  | 0 => failure
  | n + 1 => do
    if ← atEnd then return none else return some (← term n)

def declaration : Nat → Bool → Reading Term
  | 0, _ => failure
  | n + 1, constant => do
    let name ← ownName
    if ← accept "=" then return .declare name (some (← term n)) constant
    else return .declare name none constant

end

def params : Nat → Reading (List String)
  | 0 => failure
  | n + 1 => do
    if ← accept ")" then return []
    let name ← ownName
    if ← accept "," then return name :: (← params n)
    expect ")"
    return [name]

def function (n : Nat) : Reading Function := do
  let name ← ownName
  let names ← if ← accept "()" then pure [] else
    expect "("
    params n
  if ¬ names.Nodup then failure
  return ⟨name, names, ← block n⟩

/-- Functions and statements up to the end of the script. -/
def program : Nat → Reading Program
  | 0 => failure
  | n + 1 => do
    match ← peek with
    | none => return ⟨[], []⟩
    | some (.symbol ";") =>
      advance
      program n
    | some token =>
      let isFunction ← match token with
        | .keyword "private" =>
          advance
          expectKeyword "fn"
          pure true
        | .keyword "fn" =>
          advance
          pure true
        | _ => pure false
      if isFunction then
        let first ← function n
        let rest ← program n
        return { rest with functions := first :: rest.functions }
      else
        let (first, ended) ← statement n
        if !ended then endHere
        let rest ← program n
        return { rest with body := first :: rest.body }

end Reading

end SpriteStage.Script

import SpriteStage.Toml.Literal

/-!
Reading configuration text. Each reader takes what it recognises off the front of the characters
and hands back the rest.
-/

namespace SpriteStage.Toml

abbrev Scan (α : Type) := StateT (List Char) Option α

/-- Characters that may stand in a comment or a quotation as they are. -/
def isPlain (c : Char) : Bool := c = '\t' || (0x20 ≤ c.toNat && c.toNat != 0x7f)

def isGap (c : Char) : Bool := c = ' ' || c = '\t'

def gap : Scan Unit := modify (·.dropWhile isGap)

def expect (c : Char) : Scan Unit := do
  match ← get with
  | d :: rest => if d = c then set rest else failure
  | [] => failure

/-- The end of a line: blanks, a comment, and a line break or the end of the text. -/
def lineEnd : Scan Unit := do
  gap
  match ← get with
  | '#' :: rest => set (rest.dropWhile isPlain)
  | _ => pure ()
  match ← get with
  | [] => pure ()
  | '\n' :: rest => set rest
  | '\r' :: '\n' :: rest => set rest
  | _ => failure

/-- Blanks, comments and line breaks between the elements of an array. -/
def wideGap (comment : Bool) : List Char → List Char
  | [] => []
  | c :: rest =>
    if c = '\n' then wideGap false rest
    else if c = '\r' ∧ rest.head? = some '\n' then wideGap false rest
    else if comment then if isPlain c then wideGap true rest else c :: rest
    else if isGap c then wideGap false rest
    else if c = '#' then wideGap true rest
    else c :: rest

/-- A kind of quotation: its mark, whether a backslash is an ordinary character in it, and whether
it is set off by three marks and may hold line breaks. -/
structure Quotation where
  mark : Char
  raw : Bool
  long : Bool

/-- Where a reader stands within a quotation. -/
inductive Place where
  /-- Among ordinary characters, after so many marks in a row that are content. -/
  | plain (marks : Nat)
  | escaped
  | code (left value : Nat)
  /-- In the white space after a backslash at the end of a line. -/
  | folded (broken : Bool)

inductive Move where
  | close (rest : List Char)
  | go (place : Place) (out : List Char)

def scalar? (n : Nat) : Option Char := if n.isValidChar then some (Char.ofNat n) else none

def escape? (c : Char) : Option Char :=
  match c with
  | 'b' => some '\x08'
  | 't' => some '\t'
  | 'n' => some '\n'
  | 'f' => some '\x0c'
  | 'r' => some '\r'
  | '"' => some '"'
  | '\\' => some '\\'
  | _ => none

def Quotation.plain? (q : Quotation) (marks : Nat) (c : Char) (rest : List Char) : Option Move :=
  if c = q.mark then
    if q.long then
      if rest.take 2 = [q.mark, q.mark] then
        if rest[2]? = some q.mark ∧ marks < 2 then some (.go (.plain (marks + 1)) [c])
        else some (.close (rest.drop 2))
      else some (.go (.plain (marks + 1)) [c])
    else some (.close rest)
  else if c = '\\' ∧ q.raw = false then some (.go .escaped [])
  else if isPlain c then some (.go (.plain 0) [c])
  else if q.long ∧ (c = '\n' ∨ (c = '\r' ∧ rest.head? = some '\n')) then some (.go (.plain 0) [c])
  else none

def Quotation.escaped? (q : Quotation) (c : Char) (rest : List Char) : Option Move :=
  if c = 'u' then some (.go (.code 4 0) [])
  else if c = 'U' then some (.go (.code 8 0) [])
  else match escape? c with
    | some d => some (.go (.plain 0) [d])
    | none =>
      if q.long ∧ (isGap c ∨ (c = '\r' ∧ rest.head? = some '\n')) then some (.go (.folded false) [])
      else if q.long ∧ c = '\n' then some (.go (.folded true) [])
      else none

def Quotation.move? (q : Quotation) (c : Char) (rest : List Char) : Place → Option Move
  | .plain marks => q.plain? marks c rest
  | .escaped => q.escaped? c rest
  | .code left value =>
    if isHex c then
      let value := 16 * value + digit c
      if left ≤ 1 then (scalar? value).map fun d => .go (.plain 0) [d]
      else some (.go (.code (left - 1) value) [])
    else none
  | .folded broken =>
    if isGap c ∨ (c = '\r' ∧ rest.head? = some '\n') then some (.go (.folded broken) [])
    else if c = '\n' then some (.go (.folded true) [])
    else if broken then q.plain? 0 c rest
    else none

def Quotation.body (q : Quotation) (place : Place) (out : List Char) :
    List Char → Option (String × List Char)
  | [] => none
  | c :: rest =>
    match q.move? c rest place with
    | none => none
    | some (.close rest) => some (String.ofList out.reverse, rest)
    | some (.go place more) => q.body place (more ++ out) rest

def quotation (mark : Char) : Scan String := do
  expect mark
  Quotation.body ⟨mark, mark ≠ '"', false⟩ (.plain 0) []

/-- A quotation, set off by three marks if it starts with three. A line break at the very start of a
long one does not count. -/
def longQuotation (mark : Char) : Scan String := do
  let cs ← get
  if cs.take 3 = [mark, mark, mark] then
    set (match cs.drop 3 with
      | '\n' :: rest => rest
      | '\r' :: '\n' :: rest => rest
      | rest => rest)
    Quotation.body ⟨mark, mark ≠ '"', true⟩ (.plain 0) []
  else quotation mark

def isBare (c : Char) : Bool := c.isAlphanum || c = '_' || c = '-'

def simpleKey : Scan String := do
  let cs ← get
  match cs with
  | '"' :: _ => quotation '"'
  | '\x27' :: _ => quotation '\x27'
  | _ =>
    let name := cs.takeWhile isBare
    if name.isEmpty then failure
    set (cs.dropWhile isBare)
    pure (String.ofList name)

/-- The parts of a dotted key before its last part, and that, if the key has no more than so many
parts. -/
def dottedKey : Nat → Scan (Path × String)
  | 0 => failure
  | parts + 1 => do
    gap
    let name ← simpleKey
    gap
    match ← get with
    | '.' :: rest =>
      set rest
      let (path, last) ← dottedKey parts
      pure (name :: path, last)
    | _ => pure ([], name)

/-- How deep arrays and inline tables may be nested, and how many parts a key may have. -/
def maxDepth : Nat := 79

def key : Scan (Path × String) := dottedKey maxDepth

mutual

/-- A value within which arrays and inline tables may be nested as deep as there is room. -/
def value : Nat → Nat → Scan Toml
  | 0, _ => failure
  | fuel + 1, room => do
    let cs ← get
    match cs, room with
    | '"' :: _, _ => return .text (← longQuotation '"')
    | '\x27' :: _, _ => return .text (← longQuotation '\x27')
    | '[' :: _, 0 => failure
    | '[' :: rest, room + 1 =>
      set rest
      return .array (← items fuel room)
    | '\x7b' :: _, 0 => failure
    | '\x7b' :: rest, room + 1 =>
      set (rest.dropWhile isGap)
      match ← get with
      | '\x7d' :: rest =>
        set rest
        return .table .inline []
      | _ => return .table .inline (← pairs fuel room [])
    | _, _ =>
      let (run, rest) := literalRun cs
      set rest
      (literal? run).elim failure pure

/-- The elements of an array, its opening bracket taken. -/
def items : Nat → Nat → Scan (List Toml)
  | 0, _ => failure
  | fuel + 1, room => do
    modify (wideGap false)
    match ← get with
    | ']' :: rest =>
      set rest
      return []
    | _ =>
      let item ← value fuel room
      modify (wideGap false)
      match ← get with
      | ',' :: rest =>
        set rest
        return item :: (← items fuel room)
      | ']' :: rest =>
        set rest
        return [item]
      | _ => failure

def pairs : Nat → Nat → Entries → Scan Entries
  | 0, _, _ => failure
  | fuel + 1, room, entries => do
    let (path, last) ← key
    expect '='
    gap
    let item ← value fuel room
    gap
    match insert .inline path last item entries with
    | none => failure
    | some entries =>
      match ← get with
      | ',' :: rest =>
        set rest
        pairs fuel room entries
      | '\x7d' :: rest =>
        set rest
        return entries
      | _ => failure

end

/-- The lines up to the next header, with their keys and values. -/
def linesUntilHeader : Nat → Scan (List (Path × String × Toml))
  | 0 => failure
  | fuel + 1 => do
    gap
    match ← get with
    | [] => return []
    | '[' :: _ => return []
    | c :: _ =>
      if c = '#' ∨ c = '\n' ∨ c = '\r' then
        lineEnd
        linesUntilHeader fuel
      else
        let (path, last) ← key
        expect '='
        gap
        let item ← value fuel maxDepth
        lineEnd
        return (path, last, item) :: (← linesUntilHeader fuel)

def blocks : Nat → Scan (List Block)
  | 0 => failure
  | fuel + 1 => do
    match ← get with
    | [] => return []
    | _ =>
      expect '['
      let repeated := (← get).head? = some '['
      if repeated then expect '['
      let (path, last) ← key
      expect ']'
      if repeated then expect ']'
      lineEnd
      let lines ← linesUntilHeader fuel
      return ⟨path, last, repeated, lines⟩ :: (← blocks fuel)

/-- The top table of a configuration text, which a byte order mark may precede. -/
def parse? (content : String) : Option Entries :=
  let cs := match content.toList with
    | '\ufeff' :: rest => rest
    | cs => cs
  let fuel := cs.length + 1
  ((do return (← linesUntilHeader fuel, ← blocks fuel) : Scan _).run cs).bind fun result =>
    assemble result.1.1 result.1.2

end SpriteStage.Toml

/-!
Tables of keys and values as configuration files state them. A table remembers how it came about,
because that decides whether later lines may still add to it.
-/

namespace SpriteStage

inductive TableForm where
  /-- Between braces, complete as written. -/
  | inline
  /-- Named by a header of its own. -/
  | header
  /-- Named only as a part of a longer header. -/
  | implied
  /-- Named only as a part of a dotted key. -/
  | dotted
  deriving DecidableEq, Repr

inductive Toml where
  | text (s : String)
  | int (n : Int)
  | float (x : Float)
  | bool (b : Bool)
  | moment
  | array (items : List Toml)
  | table (form : TableForm) (entries : List (String × Toml))
  | tables (items : List (List (String × Toml)))

namespace Toml

abbrev Entries := List (String × Toml)

abbrev Path := List String

def onLast {α : Type} (f : α → Option α) : List α → Option (List α)
  | [] => none
  | [x] => (f x).map ([·])
  | x :: y :: rest => (onLast f (y :: rest)).map (x :: ·)

def replace (key : String) (value : Toml) (entries : Entries) : Entries :=
  entries.map fun e => if e.1 = key then (key, value) else e

/--
Changes the table at the end of a path, making the tables on the way that are missing. A dotted key
must not reach into a table that has a header of its own.
-/
def descend (dotted : Bool) (change : TableForm → Entries → Option Entries) :
    Path → TableForm → Entries → Option Entries
  | [], form, entries => change form entries
  | key :: path, _, entries =>
    match entries.lookup key with
    | none =>
      let form := if dotted then TableForm.dotted else .implied
      (descend dotted change path form []).map fun sub => entries ++ [(key, .table form sub)]
    | some (.table form sub) =>
      if form = .inline ∨ (dotted = true ∧ form = .header) then none
      else (descend dotted change path form sub).map fun sub =>
        replace key (.table form sub) entries
    | some (.tables items) =>
      (onLast (descend dotted change path .header) items).map fun items =>
        replace key (.tables items) entries
    | some _ => none

/-- Adds a value under a possibly dotted key; a key is given once. -/
def insert (form : TableForm) (path : Path) (key : String) (value : Toml) (entries : Entries) :
    Option Entries :=
  descend true
    (fun reached entries =>
      if decide (reached = .dotted) = path.isEmpty ∨ (entries.lookup key).isSome then none
      else some (entries ++ [(key, value)]))
    path form entries

structure Block where
  path : Path
  key : String
  /-- Whether the header adds an element to an array of tables. -/
  repeated : Bool
  lines : List (Path × String × Toml)

def insertAll (form : TableForm) : List (Path × String × Toml) → Entries → Option Entries
  | [], entries => some entries
  | (path, key, value) :: rest, entries =>
    (insert form path key value entries).bind (insertAll form rest)

/-- Adds a block. A header may complete a table that longer headers implied, but no other. -/
def Block.place (block : Block) : Entries → Option Entries :=
  descend false
    (fun _ entries =>
      match entries.lookup block.key, block.repeated with
      | none, true =>
        (insertAll .header block.lines []).map fun sub => entries ++ [(block.key, .tables [sub])]
      | some (.tables items), true =>
        (insertAll .header block.lines []).map fun sub =>
          replace block.key (.tables (items ++ [sub])) entries
      | none, false =>
        (insertAll .header block.lines []).map fun sub =>
          entries ++ [(block.key, .table .header sub)]
      | some (.table .implied sub), false =>
        (insertAll .header block.lines sub).map fun sub =>
          replace block.key (.table .header sub) entries
      | _, _ => none)
    block.path .header

def assemble (lines : List (Path × String × Toml)) (blocks : List Block) : Option Entries :=
  (insertAll .header lines []).bind fun entries =>
    blocks.foldlM (fun entries block => block.place entries) entries

end Toml

end SpriteStage

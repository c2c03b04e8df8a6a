import SpriteStage.Error
import SpriteStage.Text.Blank

/-!
Names of keys. A name that is not valid is explained, where possible by the key that was meant:
case, spaces and punctuation do not count when a near miss is compared with the valid names.
-/

namespace SpriteStage.Key

def names : List String := [
  "a", "b", "c", "d", "e", "f", "g", "h", "i", "j", "k", "l", "m", "n", "o", "p", "q", "r",
  "s", "t", "u", "v", "w", "x", "y", "z", "0", "1", "2", "3", "4", "5", "6", "7", "8", "9",
  " ", "ArrowLeft", "ArrowDown", "ArrowUp", "ArrowRight"]

def isValid (name : String) : Bool := names.contains name

/--
The lower-case ASCII letter or digit that a character stands for. Two characters outside ASCII have
a lower case that holds an ASCII letter: the Kelvin sign and the dotted capital I.
-/
def core? (c : Char) : Option Char :=
  if c.isLower || c.isDigit then some c
  else if c.isUpper then some c.toLower
  else if c.toNat = 0x212a then some 'k'
  else if c.toNat = 0x130 then some 'i'
  else none

/-- The letters and digits of a name without regard to case. -/
def core (name : String) : List Char := name.toList.filterMap core?

/-- The lower case of a valid name, whose characters are all ASCII. -/
def lower (name : String) : List Char := name.toList.map Char.toLower

/-- The valid key that a near miss spells. -/
def suggestion? (name : String) : Option String :=
  match core name with
  | [] => none
  | cs => names.find? fun key => lower key == cs

def hint (name : String) : String :=
  if Text.allBlank name then
    "if you meant the spacebar, use \" \" (that's a string consisting of a single " ++
    "space character)"
  else match suggestion? name with
    | some key => s!"did you mean \"{key}\"?"
    | none =>
      "you can use keys from \"a\" to \"z\", from \"0\" to \"9\", the space key: \" \", " ++
      "or one of the following: \"ArrowLeft\", \"ArrowDown\", \"ArrowUp\", \"ArrowRight\""

def check (name : String) : Except CallError Unit :=
  if isValid name then .ok ()
  else if name = "" then .error .emptyKeyName
  else .error (.invalidKeyName name (hint name))

theorem isValid_iff {name : String} : isValid name = true ↔ name ∈ names := by
  simp [isValid]

theorem suggestion?_mem {name key : String} (h : suggestion? name = some key) : key ∈ names := by
  unfold suggestion? at h
  split at h
  · cases h
  · exact List.mem_of_find?_eq_some h

end SpriteStage.Key

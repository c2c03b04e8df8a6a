/-!
Images and sounds, and loads that finish some time after they were asked for. A load holds at most
one result; what a loader that left without answering means is settled when the load is looked at.
-/

namespace SpriteStage

inductive AssetKind where
  | image
  | sound
  deriving DecidableEq, Repr

def AssetKind.name : AssetKind → String
  | .image => "image"
  | .sound => "sound"

/-- A loaded asset; a sound has no extent. -/
structure Asset where
  kind : AssetKind
  locator : String
  width : Float
  height : Float

def Asset.image (locator : String) (width height : Float) : Asset :=
  ⟨.image, locator, width, height⟩

def Asset.sound (locator : String) : Asset := ⟨.sound, locator, 0.0, 0.0⟩

inductive AssetError where
  | notFound (kind : AssetKind) (locator : String)
  | abandoned (kind : AssetKind) (locator : String)
  deriving DecidableEq, Repr

def AssetError.message : AssetError → String
  | .notFound kind locator => s!"could not load {kind.name} \"{locator}\""
  | .abandoned kind locator => s!"loader dropped the request for {kind.name} \"{locator}\""

/-- What a load comes to. -/
abbrev Outcome := Except AssetError Asset

/-- A fixed table of assets. -/
structure Catalogue where
  images : List (String × Float × Float) := []
  sounds : List String := []

namespace Catalogue

/-- Of two images at one locator the later entry counts. -/
def find? (c : Catalogue) : AssetKind → String → Option Asset
  | .image, locator =>
    (c.images.reverse.find? (·.1 == locator)).map fun (_, width, height) =>
      .image locator width height
  | .sound, locator => if c.sounds.contains locator then some (.sound locator) else none

def fetch (c : Catalogue) (kind : AssetKind) (locator : String) : Outcome :=
  match c.find? kind locator with
  | some asset => .ok asset
  | none => .error (.notFound kind locator)

end Catalogue

/-- A load asked for. `attended` says that its loader may still answer. -/
structure Load where
  kind : AssetKind
  locator : String
  result : Option Outcome
  attended : Bool

namespace Load

def begun (kind : AssetKind) (locator : String) : Load := ⟨kind, locator, none, true⟩

def settled (kind : AssetKind) (locator : String) (outcome : Outcome) : Load :=
  ⟨kind, locator, some outcome, false⟩

/-- Whether a result would be accepted: the loader is there and nothing waits to be taken. -/
def accepts (l : Load) : Bool := l.attended && l.result.isNone

def answer (l : Load) (outcome : Outcome) : Load :=
  if l.accepts then { l with result := some outcome } else l

def abandon (l : Load) : Load := { l with attended := false }

/-- The result, if there is one by now. An unattended load without a result was abandoned. -/
def result? (l : Load) : Option Outcome :=
  match l.result with
  | some outcome => some outcome
  | none => if l.attended then none else some (.error (.abandoned l.kind l.locator))

/-- What stays of a load whose result has been taken. -/
def emptied (l : Load) : Load := { l with result := none }

theorem result?_begun (kind : AssetKind) (locator : String) : (begun kind locator).result? = none :=
  rfl

theorem result?_settled (kind : AssetKind) (locator : String) (outcome : Outcome) :
    (settled kind locator outcome).result? = some outcome := rfl

theorem result?_answer {l : Load} (h : l.accepts = true) (outcome : Outcome) :
    (l.answer outcome).result? = some outcome := by
  simp [answer, h, result?]

end Load

end SpriteStage

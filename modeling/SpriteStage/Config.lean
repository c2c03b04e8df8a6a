import SpriteStage.Error
import SpriteStage.Number.Style
import SpriteStage.Toml.Reader

/-!
The settings of a project: how they are checked, read and written, and the length of a frame.
-/

namespace SpriteStage

structure StageSize where
  width : Nat := 480
  height : Nat := 360
  deriving DecidableEq, Repr

def StageSize.halfWidth (s : StageSize) : Float := Float.ofNat s.width / 2.0

def StageSize.halfHeight (s : StageSize) : Float := Float.ofNat s.height / 2.0

structure Config where
  /-- Frames per second. -/
  frameRate : Float := 60.0
  /-- Loop iterations allowed outside any thread. -/
  maxImportLoopIterations : Nat := 1000
  /-- The loop rate every thread starts with; zero never yields. -/
  defaultLoopIterationsPerFrame : Nat := 1
  /-- Operations one call into a script may take. -/
  maxScriptOperations : Nat := 1000000
  stage : StageSize := {}

namespace Config

inductive Flaw where
  | frameRate (given : Float)
  | maxScriptOperations
  | stageSize

def Flaw.message : Flaw → String
  | .frameRate given => "frame_rate must be a positive number, got " ++ NumberStyle.message.write given
  | .maxScriptOperations => "max_script_operations must be at least 1"
  | .stageSize => "stage size must be non-zero"

def flaw? (c : Config) : Option Flaw :=
  if !(c.frameRate.isFinite && c.frameRate > 0.0) then some (.frameRate c.frameRate)
  else if c.maxScriptOperations = 0 then some .maxScriptOperations
  else if c.stage.width = 0 ∨ c.stage.height = 0 then some .stageSize
  else none

def check (c : Config) : Except ProjectError Unit :=
  match c.flaw? with
  | some flaw => .error (.config flaw.message)
  | none => .ok ()

def frameSeconds (c : Config) : Float := 1.0 / c.frameRate

/-- Time is counted in whole nanoseconds, fewer than `2 ^ 64` seconds of them. -/
def nanoseconds? (seconds : Float) : Option Nat :=
  match Binary64.ofFloat? seconds with
  | none => none
  | some b =>
    if b.negative ∧ b.mantissa ≠ 0 then none
    else
      let nanos := nearestEven (b.mantissa * tenTo 9 * twoTo b.exponent.toNat) (twoTo (-b.exponent).toNat)
      if nanos < twoTo 64 * tenTo 9 then some nanos else none

/-- The time one frame stands for, if it can be counted at all. -/
def frameDuration? (c : Config) : Option Nat := nanoseconds? c.frameSeconds

def natUpTo (limit : Nat) : Toml → Option Nat
  | .int n => if 0 ≤ n ∧ n < limit then some n.toNat else none
  | _ => none

def float? : Toml → Option Float
  | .int n => some (Float.ofInt n)
  | .float x => some x
  | _ => none

def setting {α : Type} (entries : Toml.Entries) (key : String) (read : Toml → Option α)
    (default : α) : Option α :=
  match entries.lookup key with
  | none => some default
  | some value => read value

/-- The stage may be given as a table or as a list of its width and height. A date says nothing. -/
def stageSize? : Toml → Option StageSize
  | .table _ entries => do
    let width ← setting entries "width" (natUpTo (twoTo 32)) 480
    let height ← setting entries "height" (natUpTo (twoTo 32)) 360
    return ⟨width, height⟩
  | .array items => do
    let width ← (items[0]?).elim (some 480) (natUpTo (twoTo 32))
    let height ← (items[1]?).elim (some 360) (natUpTo (twoTo 32))
    return ⟨width, height⟩
  | .moment => some {}
  | _ => none

def ofEntries? (entries : Toml.Entries) : Option Config := do
  let frameRate ← setting entries "frame_rate" float? 60.0
  let maxImport ← setting entries "max_import_loop_iterations" (natUpTo (twoTo 64)) 1000
  let perFrame ← setting entries "default_loop_iterations_per_frame" (natUpTo (twoTo 32)) 1
  let maxOperations ← setting entries "max_script_operations" (natUpTo (twoTo 64)) 1000000
  let stage ← setting entries "stage" stageSize? {}
  return ⟨frameRate, maxImport, perFrame, maxOperations, stage⟩

/-- Reads and checks a configuration. Keys it does not know are passed over. -/
def ofText (content : String) : Except ProjectError Config :=
  match (Toml.parse? content).bind ofEntries? with
  | none => .error .malformedConfig
  | some c => (c.check).map fun _ => c

/-- The configuration in a file, `none` standing for a file that is missing. -/
def load : Option String → Except ProjectError Config
  | none => .error .unreadable
  | some content => ofText content

def loadOrDefault (content : Option String) : Config :=
  match load content with
  | .ok c => c
  | .error _ => {}

def floatText (x : Float) : String :=
  if x.isNaN then "nan"
  else if x.isInf then if x < 0.0 then "-inf" else "inf"
  else (NumberStyle.mk (fun _ _ => false) true true).write x

/-- The text of a configuration; a file cannot hold counts from `2 ^ 63` on. -/
def toText? (c : Config) : Option String :=
  if c.maxImportLoopIterations < twoTo 63 ∧ c.maxScriptOperations < twoTo 63 then
    some (
      s!"frame_rate = {floatText c.frameRate}\n" ++
      s!"max_import_loop_iterations = {c.maxImportLoopIterations}\n" ++
      s!"default_loop_iterations_per_frame = {c.defaultLoopIterationsPerFrame}\n" ++
      s!"max_script_operations = {c.maxScriptOperations}\n\n[stage]\n" ++
      s!"width = {c.stage.width}\nheight = {c.stage.height}\n")
  else none

end Config

end SpriteStage

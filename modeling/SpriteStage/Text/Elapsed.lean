import SpriteStage.Config

/-!
Lengths of time in words. A length is cut into years of 365.25 days, months of 30.44 days, days,
hours, minutes, seconds and the three thousandths below; parts that are zero are left out.
-/

namespace SpriteStage.Text

/-- The units from the largest down, in nanoseconds, and whether their names are words. -/
def timeUnits : List (String × Nat × Bool) := [
  ("year", 31557600 * tenTo 9, true), ("month", 2630016 * tenTo 9, true),
  ("day", 86400 * tenTo 9, true), ("h", 3600 * tenTo 9, false), ("m", 60 * tenTo 9, false),
  ("s", tenTo 9, false), ("ms", tenTo 6, false), ("us", tenTo 3, false), ("ns", 1, false)]

/-- How often each unit fits into what the larger ones leave. -/
def timeParts : List (String × Nat × Bool) → Nat → List (Nat × String × Bool)
  | [], _ => []
  | (name, size, word) :: units, nanos =>
    (nanos / size, name, word) :: timeParts units (nanos % size)

def elapsed (nanos : Nat) : String :=
  let shown := (timeParts timeUnits nanos).filter (·.1 ≠ 0)
  if shown.isEmpty then "0s"
  else " ".intercalate <| shown.map fun (count, name, word) =>
    s!"{count}{name}" ++ if word && 1 < count then "s" else ""

/-- A number of seconds; one that cannot be counted in nanoseconds is rounded to whole seconds. -/
def seconds (x : Float) : String :=
  let atLeastZero := if x > 0.0 then x else 0.0
  match Config.nanoseconds? atLeastZero with
  | some nanos => elapsed nanos
  | none => wholeText x ++ "s"

theorem timeParts_total (units : List (String × Nat × Bool)) (nanos : Nat) :
    (timeParts units nanos).length = units.length := by
  induction units generalizing nanos with
  | nil => rfl
  | cons u us ih => simp [timeParts, ih]

end SpriteStage.Text

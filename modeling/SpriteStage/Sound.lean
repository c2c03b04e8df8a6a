/-!
The mix bus that plays sounds, and the gains of its buses. Every instance plays on a bus of its own.
-/

namespace SpriteStage

inductive PerformanceStatus where
  | playing
  | finished
  | failed (reason : String)
  deriving DecidableEq, Repr

inductive BusCall where
  | play (bus locator : String)
  | gain (bus : String) (value : Float)
  | stop

/-- A mix bus. Performances are numbered from one in the order in which they start. An inaudible
bus finishes each of them at once; on an audible one they play until something else is reported. -/
structure MixBus where
  audible : Bool := false
  played : Nat := 0
  reported : List (Nat × PerformanceStatus) := []

namespace MixBus

def play (b : MixBus) : Nat × MixBus := (b.played + 1, { b with played := b.played + 1 })

/-- The latest report on a performance counts. -/
def report (b : MixBus) (performance : Nat) (status : PerformanceStatus) : MixBus :=
  { b with reported := (performance, status) :: b.reported }

def status (b : MixBus) (performance : Nat) : PerformanceStatus :=
  if b.audible then (b.reported.lookup performance).getD .playing else .finished

theorem status_report {b : MixBus} (h : b.audible = true) (performance : Nat)
    (status : PerformanceStatus) : (b.report performance status).status performance = status := by
  simp [MixBus.status, report, h]

end MixBus

/-- Gains by bus; a bus that has none is at full volume. -/
abbrev Gains := List (String × Float)

namespace Gains

def get (g : Gains) (bus : String) : Float := (g.lookup bus).getD 1.0

/-- A gain brought into the range from zero to one; what is not a number is silence. -/
def clamp (gain : Float) : Float :=
  if gain.isNaN then 0.0 else if gain < 0.0 then 0.0 else if gain > 1.0 then 1.0 else gain

def set (g : Gains) (bus : String) (gain : Float) : Gains :=
  (bus, clamp gain) :: g.filter (·.1 ≠ bus)

def remove (g : Gains) (bus : String) : Gains := g.filter (·.1 ≠ bus)

theorem get_set (g : Gains) (bus : String) (gain : Float) : (g.set bus gain).get bus = clamp gain := by
  simp [get, set]

end Gains

end SpriteStage

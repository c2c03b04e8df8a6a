import SpriteStage.Text.Elapsed

/-!
Why a thread is paused, when it is resumed, and how often a loop lets the rest of the frame run.
-/

namespace SpriteStage

inductive Suspension where
  | nextFrame
  | timer (seconds : Float)
  | group (id : Nat)
  | answer (question : Nat)
  | performance (id : Nat)
  /-- The thread is to be discarded. -/
  | terminate

inductive ThreadState where
  | runnable
  | nextFrame
  | timer (remaining : Float)
  | group (id : Nat)
  | answer (question : Nat)
  | performance (id : Nat)

def ThreadState.ofSuspension? : Suspension → Option ThreadState
  | .nextFrame => some .nextFrame
  | .timer seconds => some (.timer seconds)
  | .group id => some (.group id)
  | .answer question => some (.answer question)
  | .performance id => some (.performance id)
  | .terminate => none

def performanceText (id : Nat) : String := s!"performance {id}"

def groupText (id : Nat) : String := s!"group {id}"

def threadText (id : Nat) : String := s!"thread {id}"

def ThreadState.display : ThreadState → String
  | .runnable => "runnable"
  | .nextFrame => "waiting for next frame"
  | .timer remaining => "waiting " ++ Text.seconds remaining
  | .group id => "waiting for " ++ groupText id
  | .answer question => s!"waiting for answer {question}"
  | .performance id => "waiting for " ++ performanceText id

/-- A loop rate and how many laps have been counted since it last yielded. -/
structure LoopRate where
  perFrame : Nat
  done : Nat := 0
  deriving DecidableEq, Repr

/-- Loop rates, the innermost on top. There is always one. -/
structure LoopRates where
  top : LoopRate
  below : List LoopRate := []
  deriving DecidableEq, Repr

namespace LoopRates

def new (perFrame : Nat) : LoopRates := ⟨⟨perFrame, 0⟩, []⟩

def push (r : LoopRates) (perFrame : Nat) : LoopRates := ⟨⟨perFrame, 0⟩, r.top :: r.below⟩

/-- The enclosing rates; none for the outermost one, which stays. -/
def pop? (r : LoopRates) : Option LoopRates :=
  match r.below with
  | [] => none
  | rate :: below => some ⟨rate, below⟩

def pop (r : LoopRates) : LoopRates := r.pop?.getD r

def depth (r : LoopRates) : Nat := r.below.length + 1

/-- Counts a lap and says whether the loop yields after it. A rate of zero never yields. -/
def lap (r : LoopRates) : Bool × LoopRates :=
  if r.top.perFrame = 0 then (false, r)
  else if r.top.perFrame ≤ r.top.done + 1 then (true, { r with top := { r.top with done := 0 } })
  else (false, { r with top := { r.top with done := r.top.done + 1 } })

theorem pop_push (r : LoopRates) (perFrame : Nat) : (r.push perFrame).pop = r := rfl

theorem depth_push (r : LoopRates) (perFrame : Nat) : (r.push perFrame).depth = r.depth + 1 := by
  simp [push, depth]

theorem lap_perFrame (r : LoopRates) : r.lap.2.top.perFrame = r.top.perFrame := by
  unfold lap
  split
  · rfl
  · split <;> rfl

theorem lap_done_lt {r : LoopRates} (h : r.top.done < r.top.perFrame) :
    r.lap.2.top.done < r.top.perFrame := by
  unfold lap
  split
  · exact h
  · split <;> simp <;> omega

end LoopRates

end SpriteStage

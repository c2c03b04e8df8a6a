import SpriteStage.Block
import SpriteStage.Proofs.Failure

namespace SpriteStage

open Project

namespace Behavior

def Awaiting : Behavior → Prop
  | .call c next => c.startsWait = false ∧ ∀ reply, (next reply).Awaiting
  | .pause _ next => ∀ outcome, (next outcome).Awaiting
  | .finish | .fail _ | .jump _ => True

def Own (h : Handle) : Behavior → Prop
  | .call c next => (∀ k wait, c = .start k wait → k = h) ∧ ∀ reply, (next reply).Own h
  | .pause _ next => ∀ outcome, (next outcome).Own h
  | .finish | .fail _ | .jump _ => True

end Behavior

namespace Conduct

def awaiting : Conduct := ⟨fun _ b => b.Awaiting, And.right, id⟩

def own : Conduct := ⟨fun h b => b.Own h, And.right, id⟩

theorem awaits_awaiting : awaiting.Awaits := fun _ _ _ h => h.1

end Conduct

namespace Script

theorem awaiting_behavior {α : Type} (i : Inquiry α) {k : α → Behavior}
    (hk : ∀ result, (k result).Awaiting) : (i.behavior k).Awaiting := by
  induction i with
  | done result => exact hk result
  | ask question next ih =>
    cases question with
    | call c awaits => exact ⟨awaits, fun reply => ih reply⟩
    | declare d => exact ih _
    | limitLoops max => exact ih _
    | countLoop => exact ih _

theorem awaiting_perform (h : Handle) (d : Directive) : (perform h d).Awaiting := by
  unfold perform
  dsimp only
  split <;> intro outcome <;> cases outcome <;> dsimp only <;> first | trivial | split <;> trivial

theorem awaiting_conclude (h : Handle) (function : String) (f : Finish) :
    (conclude h function f).Awaiting := by
  unfold conclude
  split
  · trivial
  · exact awaiting_perform h _
  · split <;> trivial

theorem lawful_library (setting : Setting) : Lawful .awaiting (library setting) :=
  fun _ target _ => awaiting_behavior _ (awaiting_conclude target.handle target.routine)

end Script

namespace Moment

variable {κ : Conduct} {m : Moment}

theorem reachable_load {source : String} {config : Config} {p : Project}
    (h : Project.load source config = (.ok (), p)) : Reachable .awaiting ⟨p, []⟩ := by
  have hlib : ∃ setting, p.library = Script.library setting := by
    refine load_invariant (I := fun p => ∃ setting, p.library = Script.library setting)
      (fun _ setting _ hl => ⟨setting, hl⟩) (fun p c kind _ hp => ?_) h
    have hc : Changes (.under .any) p (p.register c kind).2 :=
      changes_register p c kind fun _ _ _ => trivial
    rw [hc.library]
    exact hp
  obtain ⟨setting, hs⟩ := hlib
  refine .start (.script h ?_ fun _ _ => trivial)
  rw [hs]
  exact Script.lawful_library setting

end Moment

end SpriteStage

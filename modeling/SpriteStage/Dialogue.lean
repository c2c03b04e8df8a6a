/-!
Computations that put questions one after another and end in a result. Whoever runs one answers its
questions, keeping a state of its own.
-/

namespace SpriteStage

inductive Dialogue (Q : Type) (A : Q → Type) (α : Type) where
  | done (result : α)
  | ask (question : Q) (next : A question → Dialogue Q A α)

namespace Dialogue

variable {Q : Type} {A : Q → Type} {α β σ : Type}

def bind : Dialogue Q A α → (α → Dialogue Q A β) → Dialogue Q A β
  | .done result, f => f result
  | .ask question next, f => .ask question fun answer => (next answer).bind f

instance : Monad (Dialogue Q A) where
  pure := .done
  bind := bind

/-- Answers every question by a step on a state. -/
def run (answer : (question : Q) → σ → A question × σ) : Dialogue Q A α → σ → α × σ
  | .done result, s => (result, s)
  | .ask question next, s =>
    let (reply, s) := answer question s
    (next reply).run answer s

theorem run_bind (answer : (question : Q) → σ → A question × σ) (d : Dialogue Q A α)
    (f : α → Dialogue Q A β) (s : σ) :
    (d.bind f).run answer s = (f (d.run answer s).1).run answer (d.run answer s).2 := by
  induction d generalizing s with
  | done result => rfl
  | ask question next ih => simp only [bind, run]; exact ih _ _

end Dialogue

end SpriteStage

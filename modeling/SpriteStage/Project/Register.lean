import SpriteStage.Project.Basic

/-!
Registration of actor classes. The checks are made in a fixed order and the first that fails gives
the error; only the number of identities given out may change then.
-/

namespace SpriteStage.Project

def refusal? (w : World) (c : ActorClass) (expected : ActorKind) : Option RegistrationError :=
  if c.kind ≠ expected then some (.wrongKind c.name c.kind.name expected.name)
  else if (w.actorNamed? c.name).isSome then some (.duplicateClassName c.name)
  else if expected = .stage then w.stage?.map fun stage => .secondStage stage.name
  else none

def actorOf (c : ActorClass) (groups : List HandlerGroup) (id founder : Nat) : Actor where
  id := id
  name := c.name
  kind := c.kind
  groups := groups
  costumes := c.costumes
  sounds := c.sounds
  founder := founder
  instances := [founder]

/-- Registers a class as an actor of the expected kind, with its founder. -/
def register (p : Project) (c : ActorClass) (expected : ActorKind) :
    Except ProjectError Nat × Project :=
  match refusal? p.world c expected with
  | some e => (.error (.registration e), p)
  | none =>
    let founder := p.world.lastInstance + 1
    let p := p.updateWorld fun w => { w with lastInstance := founder }
    match c.groups with
    | .error e => (.error (.registration e), p)
    | .ok groups =>
      let (looks, figure) := c.init {}
      let p := p.updateWorld fun w => looks.foldl (fun w look => w.record (.look look)) w
      match figure with
      | .error failure => (.error (.registration (.constructor c.name failure.headline)), p)
      | .ok figure =>
        let id := p.world.actors.length
        (.ok id, p.updateWorld fun w =>
          { w with
            actors := w.actors ++ [actorOf c groups id founder]
            instances := w.instances ++ [⟨founder, id, none, figure⟩] })

end SpriteStage.Project

import SpriteStage.Proofs.Lineage
import SpriteStage.Proofs.Procedure
import SpriteStage.Proofs.Trampoline

namespace SpriteStage

namespace Script

-- A fault that is raised leaves nothing behind in the project.
def Attempt.Spares {α : Type} (a : Attempt α) : Prop :=
  ∀ p q fault, a.run Query.answer p = (.error fault, q) → q = p

-- Nor in the script that meets it.
def Spares (found : Option (Inquiry Effect)) : Prop :=
  ∀ routine ∈ found, ∀ p q effect fault, routine.run Query.answer p = (effect, q) →
    effect.value = .error fault → effect = .fault fault ∧ q = p

namespace Attempt

theorem spares_done {α : Type} (result : Except Fault α) : Spares (.done result) := by
  rintro p q fault ⟨⟩
  rfl

theorem spares_request (h : Handle) (r : Request) : (request h r).Spares := by
  intro p q fault hr
  have hrun : (request h r).run Query.answer p =
      ((p.answer (.request h r)).1.mapError fun e => .text e.message,
        (p.answer (.request h r)).2) := rfl
  rw [hrun] at hr
  cases ha : p.world.answer h.owner r with
  | ok reply =>
    simp only [Project.answer, ha] at hr
    cases hr
  | error e =>
    rw [Project.answer_error ha] at hr
    cases hr
    rfl

theorem spares_always (c : Call) (awaits : c.startsWait = false) : (always c awaits).Spares := by
  rintro p q fault ⟨⟩

theorem Spares.map {α β : Type} {a : Attempt α} (ha : a.Spares) (f : α → β) :
    (a.andThen fun result => .ok (f result)).Spares := by
  intro p q fault hr
  unfold andThen at hr
  rw [Dialogue.run_bind] at hr
  cases hd : a.run Query.answer p with
  | mk result q' =>
    rw [hd] at hr
    cases result with
    | ok result => cases hr
    | error e =>
      cases hr
      exact ha _ _ _ hd

end Attempt

namespace Spares

theorem none : Spares none := nofun

theorem pure (value : Value) : Spares (Routine.pure value) := by
  rintro routine ⟨⟩ p q effect fault ⟨⟩ ⟨⟩

theorem fail (fault : Fault) : Spares (Routine.fail fault) := by
  rintro routine ⟨⟩ p q effect fault' ⟨⟩ ⟨⟩
  exact ⟨rfl, rfl⟩

theorem attempt {a : Attempt Value} (ha : a.Spares) : Spares (Routine.attempt a) := by
  rintro routine ⟨⟩ p q effect fault hrun he
  rw [Dialogue.run_bind] at hrun
  cases hd : a.run Query.answer p with
  | mk result q' =>
    rw [hd] at hrun
    cases hrun
    cases he
    exact ⟨rfl, ha _ _ _ hd⟩

theorem orElse {a b : Option (Inquiry Effect)} (ha : Spares a) (hb : Spares b) :
    Spares (a <|> b) := by
  cases a with
  | none => exact hb
  | some routine => exact ha

section Tables

variable (name : String) (arguments : List Value) (h : Handle)

theorem asking (r : Request) (value : r.Reply → Value) : Spares (Routine.asking h r value) :=
  attempt ((Attempt.spares_request h r).map value)

theorem telling (r : Request) : Spares (Routine.telling h r) := asking h r _

theorem moving (what : String) (value : Value) (motion : Float → Motion) :
    Spares (Routine.moving h what value motion) := by
  unfold Routine.moving
  split
  · exact telling h _
  · exact fail _

theorem ofState : Spares (Routine.ofState h name arguments) := by
  unfold Routine.ofState
  split <;> first | exact asking h _ _ | exact telling h _ | exact pure _ | exact none

theorem ofFigure : Spares (Routine.ofFigure h name arguments) := by
  unfold Routine.ofFigure
  split
  · -- Both arguments are read before anything is asked.
    split
    · exact telling h _
    · exact fail _
    · exact fail _
  all_goals first | exact telling h _ | exact moving h _ _ _ | exact none

theorem ofStage : Spares (Routine.ofStage h name arguments) := by
  unfold Routine.ofStage
  split <;> (try split) <;>
    first | exact asking h _ _ | exact telling h _ | exact fail _ | exact none

theorem ofPace : Spares (Routine.ofPace h name arguments) := by
  unfold Routine.ofPace
  split <;> (try split) <;>
    first
      | exact asking h _ _ | exact telling h _ | exact fail _ | exact none
      | exact attempt ((Attempt.spares_always _ _).map _)

theorem ofInstance : Spares (Routine.ofInstance h name arguments) :=
  orElse (ofState name arguments h) (orElse (ofFigure name arguments h)
    (orElse (ofStage name arguments h) (ofPace name arguments h)))

end Tables

end Spares

section Finding

variable {name : String} {arguments : List Value} {routine : Inquiry Effect}

theorem find?_of_ofInstance {h : Handle} (hr : Routine.ofInstance h name arguments = some routine)
    (inProject : Bool) :
    Routine.find? inProject name (.handle h :: arguments) = some routine := by
  have hp : (if inProject then Routine.ofProject name (.handle h :: arguments) else none) = none := by
    cases inProject with
    | false => rfl
    | true =>
      rw [if_pos rfl, Routine.ofProject]
      all_goals nofun
  simp only [Routine.find?, hp, hr]
  rfl

theorem find?_of_ofDeclaration {d : Declaration Value}
    (hr : Routine.ofDeclaration d name arguments = some routine) (inProject : Bool) :
    Routine.find? inProject name (.decl d :: arguments) = some routine := by
  have hp : (if inProject then Routine.ofProject name (.decl d :: arguments) else none) = none := by
    cases inProject with
    | false => rfl
    | true =>
      rw [if_pos rfl, Routine.ofProject]
      · rintro d' rfl ⟨⟩
        cases hr
      all_goals nofun
  simp only [Routine.find?, hp, hr]
  rfl

end Finding

namespace Part

theorem spares_get (part : Part) (h : Handle) : (part.get (.handle h)).Spares := by
  cases part with
  | property name =>
    unfold get
    dsimp only
    cases property? name (.handle h) with
    | none => exact Attempt.spares_request h _
    | some value => exact Attempt.spares_done _
  | index key =>
    cases key with
    | text name => exact Attempt.spares_request h _
    | _ => exact Attempt.spares_done _

theorem spares_set (part : Part) (h : Handle) (value : Value) :
    (part.set (.handle h) value).Spares := by
  have hwrite (name : String) (value : Value) :
      ((Attempt.request h (.set name value)).andThen fun _ => .ok (Value.handle h)).Spares :=
    (Attempt.spares_request h (.set name value)).map _
  cases part with
  | property name =>
    unfold set
    dsimp only
    split
    · exact Attempt.spares_done _
    · rename_i heq
      cases heq
      exact hwrite _ _
    · exact Attempt.spares_done _
  | index key =>
    cases key with
    | text name => exact hwrite name value
    | _ => exact Attempt.spares_done _

end Part

-- The machine raises the fault and is otherwise as it was: nothing is put back, nothing is counted.
theorem State.run_callRoutine {s : State} {routine : Inquiry Effect} {p q : Project} {fault : Fault}
    (hr : routine.run Query.answer p = (.fault fault, q)) (name : String) (arguments : List Value)
    (putBack : State → Value → Attempt State) (next : State → Value → State) :
    (s.callRoutine (some routine) name arguments putBack next).run Query.answer p =
      (.on (s.fault fault), q) := by
  simp only [callRoutine]
  rw [Dialogue.run_bind, hr]
  rfl

-- What a method makes of a declaration, and what becomes of the one that it is called on.
inductive Amends (d : Declaration Value) (amend : Routine.Amending Unit) : Inquiry Effect → Prop where
  | amended {d' : Declaration Value} (h : amend.run d = .ok () d') :
      Amends d amend (.done { value := .ok (.decl d'), receiver := some (.decl d') })
  | raised {fault : Fault} (h : amend.run d = .error fault d) : Amends d amend (.done (.fault fault))

theorem amends_of_ofDeclaration {d : Declaration Value} {name : String} {arguments : List Value}
    {routine : Inquiry Effect} (hr : Routine.ofDeclaration d name arguments = some routine) :
    ∃ amend, Routine.amending? name arguments = some amend ∧ Amends d amend routine := by
  obtain ⟨amend, result, ha, hrun, ht⟩ := Routine.amending_of_ofDeclaration hr
  refine ⟨amend, ha, ?_⟩
  cases result with
  | ok d' =>
    cases ht
    exact .amended hrun
  | error fault =>
    cases ht
    exact .raised hrun

end Script

namespace Project

open Script

-- What is refused at a moment leaves no trace, although every call is carried out one access after
-- another: the project is as it was, and whoever made the call goes on from there.
structure Spares (p : Project) : Prop where
  requests : ∀ h r, p.answer (.request h r) = outcome ((within (World.steps h.owner r)).run p)
  waits : ∀ h wait, p.begin h wait = begun (outcome ((waiting h wait).run p))
  refused : ∀ {h : Handle} {r : Request} {e : CallError} {q : Project},
    p.answer (.request h r) = (.error e, q) →
      q = p ∧ ∀ k next, run k (.call (.request h r) next) p = run k (next (.error e)) p
  declined : ∀ {h : Handle} {wait : Wait} {e : CallError} {q : Project},
    p.begin h wait = (.passes (.error e), q) →
      q = p ∧ p.answer (.start h wait) = (some (.error e), p) ∧
        ∀ next, run h (.pause wait next) p = run h (next (.error e)) p
  methods : ∀ {h : Handle} {name : String} {arguments : List Value} {routine : Inquiry Effect}
    {effect : Effect} {fault : Fault} {q : Project},
    Routine.ofInstance h name arguments = some routine →
      routine.run Query.answer p = (effect, q) → effect.value = .error fault →
        q = p ∧ ∀ (s : State) inProject putBack next,
          (s.callRoutine (Routine.find? inProject name (.handle h :: arguments)) name
            (.handle h :: arguments) putBack next).run Query.answer p = (.on (s.fault fault), p)
  attributes : ∀ {part : Part} {h : Handle} {fault : Fault} {q : Project},
    (part.get (.handle h)).run Query.answer p = (.error fault, q) → q = p
  assignments : ∀ {part : Part} {h : Handle} {value : Value} {fault : Fault} {q : Project},
    (part.set (.handle h) value).run Query.answer p = (.error fault, q) → q = p

theorem spares_of_registered {p : Project} (hw : p.world.Registered) : p.Spares where
  requests := answer_eq_outcome hw
  waits := begin_eq_outcome p
  refused {h r e q} hr := by
    obtain rfl := answer_of_refused hr
    refine ⟨rfl, fun k next => ?_⟩
    simp only [run, hr]
  declined {h wait e q} hb := by
    obtain rfl := begin_of_refused hb
    refine ⟨rfl, ?_, fun next => ?_⟩
    · simp only [answer, hb]
      rfl
    · simp only [run, hb]
  methods {h name arguments routine effect fault q} hi hr he := by
    obtain ⟨rfl, rfl⟩ := Spares.ofInstance name arguments h routine hi _ _ _ _ hr he
    refine ⟨rfl, fun s inProject putBack next => ?_⟩
    rw [find?_of_ofInstance hi]
    exact State.run_callRoutine hr _ _ _ _
  attributes {part h fault q} hr := Part.spares_get part h _ _ _ hr
  assignments {part h value fault q} hr := Part.spares_set part h value _ _ _ hr

end Project

-- A method of a declaration amends it, or raises and leaves it and the script around it as they were.
structure Script.Corrects (d : Declaration Value) (name : String) (arguments : List Value)
    (routine : Inquiry Effect) : Prop where
  amends : ∃ amend, Routine.amending? name arguments = some amend ∧ Amends d amend routine
  raises : ∀ {fault : Fault}, routine = .done (.fault fault) →
    ∀ (s : State) inProject putBack next,
      s.callRoutine (Routine.find? inProject name (.decl d :: arguments)) name
        (.decl d :: arguments) putBack next = (s.fault fault).go

theorem Script.corrects_of_ofDeclaration {d : Declaration Value} {name : String}
    {arguments : List Value} {routine : Inquiry Effect}
    (hr : Routine.ofDeclaration d name arguments = some routine) :
    Corrects d name arguments routine where
  amends := amends_of_ofDeclaration hr
  raises {fault} hraises s inProject putBack next := by
    rw [find?_of_ofDeclaration hr, hraises]
    rfl

namespace Moment

open Project Script

variable {κ : Conduct} {m : Moment} {p : Project}

theorem Reachable.refusals_spare (hm : Reachable κ m) (hq : Changes (.under κ) m.project p) :
    p.Spares ∧ ∀ (d : Declaration Value) name arguments routine,
      Routine.ofDeclaration d name arguments = some routine →
        Corrects d name arguments routine :=
  ⟨spares_of_registered (hm.registered_indexed hq).1, fun _ _ _ _ => corrects_of_ofDeclaration⟩

-- There is no class to clone, and the clone that is not made costs no identity.
theorem ghost_refused :
    let p := haunted "boo" fun _ => .finish
    p.answer (.request ⟨1, 1⟩ (.createClone (.className "Nobody"))) =
        (.error (.cloneTarget "Nobody"), p) ∧
      p.Spares ∧ ∀ (d : Declaration Value) name arguments routine,
        Routine.ofDeclaration d name arguments = some routine →
          Corrects d name arguments routine := by
  intro p
  have hm : Reachable .any ⟨p, []⟩ :=
    reachable_haunted (fun _ => trivial) (fun _ _ _ => trivial) "boo"
  exact ⟨rfl, Reachable.refusals_spare hm .refl⟩

end Moment

end SpriteStage

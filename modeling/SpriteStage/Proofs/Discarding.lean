import SpriteStage.Proofs.Invocation

namespace SpriteStage.Script

def Plain (found : Option (Inquiry Effect)) : Prop :=
  ∀ i ∈ found, i.All fun e : Effect => e.issues = false

namespace Plain

@[simp]
theorem none : Plain none := nofun

@[simp]
theorem pure (value : Value) : Plain (Routine.pure value) := by
  rintro i ⟨⟩
  rfl

@[simp]
theorem fail (fault : Fault) : Plain (Routine.fail fault) := by
  rintro i ⟨⟩
  rfl

@[simp]
theorem changing (receiver value : Value) : Plain (Routine.changing receiver value) := by
  rintro i ⟨⟩
  rfl

@[simp]
theorem settle (result : Except Fault Value) : Plain (Routine.settle result) := by
  rintro i ⟨⟩
  rfl

@[simp]
theorem exit (value : Value) : Plain (Routine.exit value) := by
  rintro i ⟨⟩
  rfl

@[simp]
theorem attempt (a : Attempt Value) : Plain (Routine.attempt a) := by
  rintro i ⟨⟩
  exact (Dialogue.All.trivial a fun _ => True.intro).bind fun _ _ => rfl

@[simp]
theorem bind {α : Type} {o : Option α} {f : α → Option (Inquiry Effect)} (h : ∀ a, Plain (f a)) :
    Plain (o.bind f) := by
  cases o with
  | none => exact none
  | some a => exact h a

theorem orElse {a b : Option (Inquiry Effect)} (ha : Plain a) (hb : Plain b) :
    Plain (a <|> b) := by
  cases a with
  | none => exact hb
  | some i => exact ha

section Tables

variable (name : String) (arguments : List Value)

@[simp]
theorem byName : Plain (Routine.byName name) := by
  unfold Routine.byName
  repeat' split
  all_goals simp

theorem onAnything : Plain (Routine.onAnything name arguments) := by
  unfold Routine.onAnything
  split <;> simp [Routine.recording]

theorem onList (items : List Value) : Plain (Routine.onList items name arguments) := by
  unfold Routine.onList
  split <;> (try split) <;> simp

theorem onMap (fields : List (String × Value)) : Plain (Routine.onMap fields name arguments) := by
  unfold Routine.onMap
  split <;> simp

theorem onText (s : String) : Plain (Routine.onText s name arguments) := by
  unfold Routine.onText
  dsimp only
  split <;> (try split) <;> simp

theorem onRange (range : Value) : Plain (Routine.onRange range name arguments) := by
  unfold Routine.onRange
  split <;> simp

theorem onKind : Plain (Routine.onKind name arguments) := by
  unfold Routine.onKind
  split <;> simp [onList, onMap, onText, onRange]

theorem onInt (n : Int) : Plain (Routine.onInt n name arguments) := by
  unfold Routine.onInt
  split <;> (try split) <;> simp

theorem onFloat (x : Float) : Plain (Routine.onFloat x name arguments) := by
  unfold Routine.onFloat
  split <;> (try split) <;> simp

theorem onNumber : Plain (Routine.onNumber name arguments) := by
  unfold Routine.onNumber
  split <;> simp [onInt, onFloat]

theorem general : Plain (Routine.general name arguments) :=
  orElse (onAnything name arguments) (orElse (onKind name arguments) (onNumber name arguments))

theorem newDeclaration : Plain (Routine.newDeclaration name arguments) := by
  unfold Routine.newDeclaration
  split <;> simp

theorem trying (result : Except Fault (Declaration Value)) : Plain (Routine.trying result) := by
  unfold Routine.trying
  split <;> simp [Routine.declaring]

theorem ofDeclaration (d : Declaration Value) : Plain (Routine.ofDeclaration d name arguments) := by
  unfold Routine.ofDeclaration
  split <;> simp [Routine.declaring, trying]

variable (h : Handle)

theorem asking (r : Request) (value : r.Reply → Value) : Plain (Routine.asking h r value) :=
  attempt _

theorem telling (r : Request) : Plain (Routine.telling h r) := attempt _

theorem moving (what : String) (value : Value) (motion : Float → Motion) :
    Plain (Routine.moving h what value motion) := by
  unfold Routine.moving
  split
  · exact telling h _
  · exact fail _

theorem ofState : Plain (Routine.ofState h name arguments) := by
  unfold Routine.ofState
  split <;> first | exact asking h _ _ | exact telling h _ | exact pure _ | exact none

theorem ofFigure : Plain (Routine.ofFigure h name arguments) := by
  unfold Routine.ofFigure
  split
  · split
    · exact telling h _
    · exact fail _
    · exact fail _
  all_goals first | exact telling h _ | exact moving h _ _ _ | exact none

theorem ofStage : Plain (Routine.ofStage h name arguments) := by
  unfold Routine.ofStage
  split <;> (try split) <;>
    first | exact asking h _ _ | exact telling h _ | exact fail _ | exact none

theorem ofPace : Plain (Routine.ofPace h name arguments) := by
  unfold Routine.ofPace
  split <;> (try split) <;>
    first | exact asking h _ _ | exact telling h _ | exact attempt _ | exact fail _ | exact none

theorem ofInstance : Plain (Routine.ofInstance h name arguments) :=
  orElse (ofState name arguments h) (orElse (ofFigure name arguments h)
    (orElse (ofStage name arguments h) (ofPace name arguments h)))

end Tables

end Plain

-- What a routine that adds to the count comes to: a directive, or the refusal of what follows it.
inductive Effect.Directs (e : Effect) : Prop where
  | built {d : Directive} (hi : e.issues = true) (hv : e.value = .ok (.directive d))
  | refused {next : Value} {fault : Fault} (hi : e.issues = true)
      (hc : Routine.continuation next = .error fault) (hv : e.value = .error fault)

def Direct (found : Option (Inquiry Effect)) : Prop :=
  ∀ i ∈ found, i.All fun e : Effect => e.issues = true → e.Directs

namespace Direct

variable {found : Option (Inquiry Effect)}

theorem of_plain (h : Plain found) : Direct found := fun i hi =>
  (h i hi).imp fun e he hissues => by
    rw [he] at hissues
    cases hissues

theorem orElse {a b : Option (Inquiry Effect)} (ha : Direct a) (hb : Direct b) :
    Direct (a <|> b) := by
  cases a with
  | none => exact hb
  | some i => exact ha

theorem last (pause : Pause) : Direct (Routine.last pause) := by
  rintro i ⟨⟩
  exact fun _ => .built rfl rfl

theorem andThen (pause : Except Fault Pause) (next : Value) :
    Direct (Routine.andThen pause next) := by
  unfold Routine.andThen
  split
  · exact of_plain (.fail _)
  · split
    · rintro i ⟨⟩
      exact fun _ => .built rfl rfl
    · rename_i fault hc
      rintro i ⟨⟩
      exact fun _ => .refused rfl hc rfl

theorem ofDirective (name : String) (arguments : List Value) :
    Direct (Routine.ofDirective name arguments) := by
  unfold Routine.ofDirective
  split
  case h_3 =>
    split
    · exact last _
    · exact of_plain (.fail _)
  all_goals first | exact last _ | exact andThen _ _ | exact of_plain .none

theorem ofProject (name : String) (arguments : List Value) :
    Direct (Routine.ofProject name arguments) := by
  unfold Routine.ofProject
  split
  · rintro i ⟨⟩ reply
    cases reply <;> exact nofun
  · rintro i ⟨⟩ reply
    exact nofun
  · rintro i ⟨⟩ reply
    cases reply with
    | none => exact fun _ => .built rfl rfl
    | some counted => cases counted <;> exact nofun
  · exact of_plain .none

theorem find? (inProject : Bool) (name : String) (arguments : List Value) :
    Direct (Routine.find? inProject name arguments) := by
  unfold Routine.find?
  dsimp only
  refine .orElse ?_ (.orElse ?_ (.orElse ?_ (.orElse ?_ ?_)))
  · split
    · exact ofProject _ _
    · exact of_plain .none
  · split
    · exact of_plain (.ofInstance _ _ _)
    · exact of_plain (.ofDeclaration _ _ _)
    · exact of_plain .none
  · exact of_plain (.newDeclaration _ _)
  · exact ofDirective _ _
  · exact of_plain (.general _ _)

end Direct

theorem Tabled.direct {routine : Inquiry Effect} (h : Tabled routine) :
    routine.All fun e => e.issues = true → e.Directs := by
  obtain ⟨inProject, name, arguments, hf⟩ := h
  exact Direct.find? inProject name arguments routine hf

theorem Effect.Directs.issues {e : Effect} (h : e.Directs) : e.issues = true := by
  cases h <;> assumption

-- The failure of a call that gives back no directive although it has built one.
def unreturned (function : String) : Failure :=
  .text (s!"in {function}(): a pausing call only takes effect when returned, " ++
    "e.g. \x60return next_frame(\"f\")\x60")

namespace Calling

variable {setting : Setting} {h : Handle} {c : Calling}

theorem issued_ne_zero_iff :
    (c.result setting h).1.issued ≠ 0 ↔ ∃ e ∈ c.effects setting h, e.Directs := by
  rw [issued_result, ← Nat.pos_iff_ne_zero, List.countP_pos_iff]
  constructor
  · rintro ⟨e, he, hissues⟩
    exact ⟨e, he, of_mem_effects (P := fun e => e.issues = true → e.Directs)
      (fun _ ht => ht.direct) he hissues⟩
  · rintro ⟨e, he, hdirects⟩
    exact ⟨e, he, hdirects.issues⟩

theorem run_perform_ne (d : Directive) (q : Project) (message : String) :
    (Project.run h (perform h d) q).1 ≠ .failed (.text message) := by
  obtain ⟨k, hk, hfail, hgo⟩ : ∃ k, perform h d = .pause d.pause.wait k ∧
      (∀ e, k (.error e) = .fail (.call e)) ∧
      ∀ reply, k (.ok reply) = .finish ∨ ∃ target, k (.ok reply) = .jump target := by
    obtain ⟨pause, next⟩ := d
    cases pause <;> cases next <;>
      exact ⟨_, rfl, fun _ => rfl, fun _ => by first | exact .inl rfl | exact .inr ⟨_, rfl⟩⟩
  rw [hk]
  simp only [Project.run]
  split
  · rename_i outcome mid hb
    cases outcome with
    | error e =>
      rw [hfail]
      intro hf
      cases hf
    | ok reply =>
      rcases hgo reply with he | ⟨target, he⟩ <;> rw [he] <;> intro hf <;> cases hf
  · intro hf
    cases hf

-- What a thread does that calls a function of the script.
def ended (setting : Setting) (h : Handle) (c : Calling) : Halt :=
  (Project.run h (library setting (c.jump h)) c.project).1

theorem ended_of_error {fault : Fault} (hr : (c.result setting h).1.result = .error fault) :
    c.ended setting h = .failed (.text (s!"in {c.function}(): " ++ fault.message)) := by
  rw [ended, run_library, conclude, hr]
  rfl

theorem ended_ne_of_directive {d : Directive} {message : String}
    (hr : (c.result setting h).1.result = .ok (.directive d)) :
    c.ended setting h ≠ .failed (.text message) := by
  rw [ended, run_library, conclude, hr]
  exact run_perform_ne d _ _

theorem ended_of_ok {value : Value} (hr : (c.result setting h).1.result = .ok value)
    (hv : ∀ d, value ≠ .directive d) :
    c.ended setting h =
      if (c.result setting h).1.issued = 0 then .finished
      else .failed (unreturned c.function) := by
  rw [ended, run_library, conclude, hr]
  cases value with
  | directive d => exact absurd rfl (hv d)
  | _ =>
    dsimp only
    split <;> rfl

-- How a call ends its thread: with its own fault, or with the directive that it gives back, or else
-- with the failure for those that it does not give back, if it has asked for any.
theorem discarding_reported (setting : Setting) (h : Handle) (c : Calling) :
    match (c.result setting h).1.result with
    | .error fault =>
      c.ended setting h = .failed (.text (s!"in {c.function}(): " ++ fault.message))
    | .ok value => c.ended setting h = .failed (unreturned c.function) ↔
        (∀ d, value ≠ .directive d) ∧ ∃ e ∈ c.effects setting h, e.Directs := by
  cases hr : (c.result setting h).1.result with
  | error fault => exact ended_of_error hr
  | ok value =>
    dsimp only
    by_cases hd : ∃ d, value = .directive d
    · obtain ⟨d, rfl⟩ := hd
      constructor
      · intro hfailed
        exact absurd hfailed (ended_ne_of_directive hr)
      · rintro ⟨hnone, -⟩
        exact absurd rfl (hnone d)
    · have hnone : ∀ d, value ≠ .directive d := fun d hv => hd ⟨d, hv⟩
      rw [ended_of_ok hr hnone, ← issued_ne_zero_iff]
      split
      · rename_i hzero
        exact ⟨nofun, fun ⟨_, hissued⟩ => absurd hzero hissued⟩
      · rename_i hissued
        exact ⟨fun _ => ⟨hnone, hissued⟩, fun _ => rfl⟩

end Calling

section Discarder

def Effect.builds (e : Effect) : Bool :=
  match e.value with
  | .ok (.directive _) => true
  | _ => false

-- One function gives back the second of its two directives. The other one asks for a single
-- directive, which is refused.
def discarder : String :=
  "fn f() \x7b next_frame(); next_frame(\"f\") \x7d " ++
    "fn g() \x7b try \x7b next_frame(42) \x7d catch \x7b \x7d \x7d " ++
    "register(sprite(\"A\").when(\"green-flag\", \"f\").when(\"green-flag\", \"g\"));"

def discarding (function : String) : Calling :=
  ⟨function, [], (Project.load discarder {}).2.greenFlag⟩

def Finish.directs (f : Finish) : Bool :=
  match f.result with
  | .ok (.directive _) => true
  | _ => false

def Finish.issuesOnly (f : Finish) : Bool :=
  match f with
  | ⟨.ok .unit, 1⟩ => true
  | _ => false

def discards (program : Program) : Bool :=
  let setting : Setting := ⟨program, true, ({} : Config).maxScriptOperations⟩
  ((discarding "f").effects setting ⟨1, 1⟩).countP (·.builds) = 2 &&
    ((discarding "f").result setting ⟨1, 1⟩).1.directs &&
    (((discarding "g").effects setting ⟨2, 1⟩).countP (·.builds) = 0 &&
      ((discarding "g").result setting ⟨2, 1⟩).1.issuesOnly)

theorem discards_discarder : (Program.ofText? discarder).any discards = true := by
  decide +kernel

theorem discarder_misreported :
    ∃ program, Program.ofText? discarder = some program ∧
      let setting : Setting := ⟨program, true, ({} : Config).maxScriptOperations⟩
      let built (h : Handle) (c : Calling) := (c.effects setting h).countP (·.builds)
      (built ⟨1, 1⟩ (discarding "f") = 2 ∧
        (discarding "f").ended setting ⟨1, 1⟩ ≠ .failed (unreturned "f")) ∧
      built ⟨2, 1⟩ (discarding "g") = 0 ∧
        (discarding "g").ended setting ⟨2, 1⟩ = .failed (unreturned "g") := by
  obtain ⟨program, hparse, hdiscards⟩ := (Option.any_eq_true _ _).1 discards_discarder
  simp only [discards, Bool.and_eq_true, decide_eq_true_eq] at hdiscards
  obtain ⟨⟨htwo, hdirects⟩, hnone, hissues⟩ := hdiscards
  refine ⟨program, hparse, ⟨htwo, ?_⟩, hnone, ?_⟩
  · unfold Finish.directs at hdirects
    split at hdirects
    · rename_i hr
      exact Calling.ended_ne_of_directive hr
    · cases hdirects
  · unfold Finish.issuesOnly at hissues
    split at hissues
    · rename_i hf
      have hr := congrArg Finish.result hf
      refine (Calling.ended_of_ok hr nofun).trans ?_
      rw [hf]
      rfl
    · cases hissues

end Discarder

end SpriteStage.Script

import SpriteStage.Proofs.Trampoline

namespace SpriteStage

section Outcomes

variable {Q : Type} {A : Q → Type} {α β σ : Type}

-- Whatever the answers are, the result is of a kind.
def Dialogue.All (P : α → Prop) : Dialogue Q A α → Prop
  | .done result => P result
  | .ask _ next => ∀ answer, (next answer).All P

namespace Dialogue.All

variable {P : α → Prop} {R : β → Prop} {d : Dialogue Q A α}

theorem imp {P' : α → Prop} (h : d.All P) (hP : ∀ a, P a → P' a) : d.All P' := by
  induction d with
  | done result => exact hP _ h
  | ask question next ih => exact fun answer => ih answer (h answer)

theorem trivial (d : Dialogue Q A α) (hP : ∀ a, P a) : d.All P := by
  induction d with
  | done result => exact hP result
  | ask question next ih => exact fun answer => ih answer

theorem bind {f : α → Dialogue Q A β} (h : d.All P) (hf : ∀ a, P a → (f a).All R) :
    (d.bind f).All R := by
  induction d with
  | done result => exact hf _ h
  | ask question next ih => exact fun answer => ih answer (h answer)

theorem run (h : d.All P) (answer : (question : Q) → σ → A question × σ) (s : σ) :
    P (d.run answer s).1 := by
  induction d generalizing s with
  | done result => exact h
  | ask question next ih => exact ih _ (h _) _

end Dialogue.All

end Outcomes

namespace Script

def Progress.issued : Progress → Nat
  | .on s => s.issued
  | .over _ issued => issued

def Tabled (routine : Inquiry Effect) : Prop :=
  ∃ inProject name arguments, Routine.find? inProject name arguments = some routine

-- What a step adds to the count: nothing, unless it calls a routine that adds to it.
def Counts (n : Nat) (found : Option (Inquiry Effect)) (i : Inquiry Progress) : Prop :=
  match found with
  | none => i.All (·.issued = n)
  | some routine => Tabled routine ∧ ∃ next : Effect → Inquiry Progress, i = routine.bind next ∧
      ∀ effect, (next effect).All (·.issued = n + if effect.issues then 1 else 0)

namespace State

section Finding

variable (setting : Setting) (s : State)

-- The routine that is called where a function of this name is.
def callFinds (name : String) (arguments : List Value) : Option (Inquiry Effect) :=
  match setting.program.function? name arguments.length, s.known? setting name arguments with
  | none, none => Routine.find? setting.inProject name arguments
  | _, _ => none

def methodFinds (value : Value) (name : String) (arguments : List Value) :
    Option (Inquiry Effect) :=
  match setting.program.function? name arguments.length with
  | none => Routine.find? setting.inProject name (value :: arguments)
  | some _ => none

def namedFinds (value : Value) (name : String) (arguments : List Value) :
    Option (Inquiry Effect) :=
  match name, value, arguments with
  | "call", .routine function given, _ => s.callFinds setting function (given ++ arguments)
  | "call", _, .routine function given :: more => methodFinds setting value function (given ++ more)
  | "call", _, [] => none
  | "call", _, _ :: _ => none
  | "curry", .routine _ _, _ => none
  | "curry", _, _ => none
  | "is_shared", _, [] => none
  | _, .map fields, _ =>
    match Fields.get? fields name with
    | some (.routine function given) => methodFinds setting value function (given ++ arguments)
    | _ => methodFinds setting value name arguments
  | _, _, _ => methodFinds setting value name arguments

def linkFinds (value : Value) (way : Way) : Option (Inquiry Effect) :=
  match way.links with
  | .method name arity :: _ => s.namedFinds setting value name (way.operands.take arity)
  | _ => none

def useFinds (values : List Value) (use : Use) : Option (Inquiry Effect) :=
  match use, values with
  | .binary .contains, [whole, part] =>
    match BinaryOp.contains.onSimple whole part with
    | some _ => none
    | none => s.callFinds setting "contains" [whole, part]
  | .call name given none, _ => s.callFinds setting name (given ++ values)
  | .call name _ (some root), _ =>
    match s.env.read setting.program root with
    | .error _ => none
    | .ok (first, _) => s.callFinds setting name (first :: values)
  | _, _ => none

def collectFinds (done : List Value) (todo : List Term) (use : Use) : Option (Inquiry Effect) :=
  match todo with
  | [] => s.useFinds setting done.reverse use
  | _ :: _ => none

def beginCallFinds (name : String) (given : List Value) (arguments : List Term) :
    Option (Inquiry Effect) :=
  match given, arguments with
  | [], first :: others =>
    match first.place? with
    | none => none
    | some .this =>
      if s.env.this.isNone then none
      else s.collectFinds setting [] others (.call name [] (some .this))
    | some place => s.collectFinds setting [] others (.call name [] (some place))
  | _, _ => s.collectFinds setting [] arguments (.call name given none)

def beginFinds : Term → Option (Inquiry Effect)
  | .call "call" (_ :: _) => none
  | .call "curry" (_ :: _ :: _) => none
  | .call name arguments => s.beginCallFinds setting name [] arguments
  | _ => none

def receiveFinds (value : Value) : Frame → Option (Inquiry Effect)
  | .collect done todo use => s.collectFinds setting (value :: done) todo use
  | .callee false arguments =>
    match value with
    | .routine name given => s.beginCallFinds setting name given arguments
    | _ => none
  | _ => none

-- The routine that the next step calls, if it calls one.
def finds : Option (Inquiry Effect) :=
  match s.control with
  | .eval term =>
    if setting.maxOperations ≤ s.operations then none
    else { s with operations := s.operations + 1 }.beginFinds setting term
  | .follow value way => s.linkFinds setting value way
  | .give value =>
    match s.frames with
    | [] => none
    | frame :: frames => { s with frames := frames }.receiveFinds setting value frame
  | .raise _ => none

end Finding

section Counting

variable {setting : Setting} {s : State} {n : Nat}

theorem counts_go (h : s.issued = n) : Counts n none s.go := h

theorem counts_settle (result : Except Fault Value) :
    Counts s.issued none (s.settle result).go := by
  cases result <;> rfl

theorem counts_after {α : Type} {a : Attempt α} {next : α → State} {P : α → Prop}
    (ha : a.All fun r => ∀ result, r = .ok result → P result)
    (hn : ∀ result, P result → (next result).issued = n) (hs : s.issued = n) :
    Counts n none (s.after a next) := by
  refine ha.bind fun r hr => ?_
  cases r with
  | ok result => exact hn result (hr result rfl)
  | error fault => exact hs

theorem issued_enter {f : Function} {arguments : List Value} {this : Option Value}
    {way : Option Way} {next : State → State} (hn : ∀ s, (next s).issued = s.issued) :
    (s.enter f arguments this way next).issued = s.issued := by
  unfold enter
  split
  · exact hn _
  · split <;> rfl

theorem issued_writeBack (s : State) (way : Way) (value : Value) :
    (s.writeBack way value).All fun r => ∀ back, r = .ok back → back.issued = s.issued := by
  have hall : (Part.putBack way.passed value).All fun _ => True := .trivial _ fun _ => trivial
  refine hall.bind fun r _ => ?_
  cases r with
  | error fault => exact nofun
  | ok changed =>
    rintro back ⟨⟩
    unfold write
    split <;> rfl

theorem counts_callRoutine {found : Option (Inquiry Effect)} {name : String}
    {arguments : List Value} {putBack : State → Value → Attempt State}
    {next : State → Value → State}
    (hf : ∀ routine, found = some routine → Tabled routine)
    (hp : ∀ s value, (putBack s value).All fun r => ∀ back, r = .ok back → back.issued = s.issued)
    (hn : ∀ s value, (next s value).issued = s.issued) :
    Counts s.issued found (s.callRoutine found name arguments putBack next) := by
  cases found with
  | none => exact counts_go rfl
  | some routine =>
    refine ⟨hf routine rfl, _, rfl, fun effect => ?_⟩
    have hs : (if effect.issues then { s with issued := s.issued + 1 } else s).issued =
        s.issued + if effect.issues then 1 else 0 := by
      split <;> rfl
    generalize (s.issued + if effect.issues then 1 else 0) = m at hs ⊢
    dsimp only
    generalize (if effect.issues then { s with issued := s.issued + 1 } else s) = s' at hs ⊢
    split
    · exact hs
    · split
      · exact hs
      · split
        · exact (hn _ _).trans hs
        · exact counts_after (hp _ _) (fun back hb => (hn _ _).trans (hb.trans hs)) hs

theorem counts_call (name : String) (arguments : List Value) (place : Option Root) :
    Counts s.issued (s.callFinds setting name arguments) (s.call setting name arguments place) := by
  unfold call callFinds
  cases setting.program.function? name arguments.length with
  | some f => exact counts_go (issued_enter fun _ => rfl)
  | none =>
    cases s.known? setting name arguments with
    | some result => exact counts_settle result
    | none =>
      refine counts_callRoutine (fun _ hf => ⟨_, _, _, hf⟩) (fun s value => ?_) fun _ _ => rfl
      rintro back ⟨⟩
      unfold write
      split <;> rfl

theorem counts_callMethod (value : Value) (way : Way) (name : String) (arguments : List Value)
    (rest : Way) : Counts s.issued (methodFinds setting value name arguments)
      (s.callMethod setting value way name arguments rest) := by
  unfold callMethod methodFinds
  cases setting.program.function? name arguments.length with
  | some f => exact counts_go (issued_enter fun _ => rfl)
  | none =>
    refine counts_callRoutine (fun _ hf => ⟨_, _, _, hf⟩) (fun s value => ?_) fun _ _ => rfl
    split
    · exact nofun
    · exact issued_writeBack s way value

theorem counts_callNamed (value : Value) (way : Way) (name : String) (arguments : List Value)
    (rest : Way) : Counts s.issued (s.namedFinds setting value name arguments)
      (s.callNamed setting value way name arguments rest) := by
  unfold callNamed
  split <;> rw [namedFinds] <;> try assumption
  · exact counts_call (s := s.push _) _ _ _
  · exact counts_callMethod _ _ _ _ _
  · exact counts_go rfl
  · exact counts_go rfl
  · exact counts_go rfl
  · exact counts_go rfl
  · exact counts_go rfl
  · rename_i fields _ _ _ _ _
    dsimp only
    generalize Fields.get? fields name = field
    cases field with
    | none => exact counts_callMethod _ _ _ _ _
    | some value => cases value <;> exact counts_callMethod _ _ _ _ _
  · exact counts_callMethod _ _ _ _ _

theorem counts_followLink (value : Value) (way : Way) :
    Counts s.issued (s.linkFinds setting value way) (s.followLink setting value way) := by
  have hpart : ∀ (part : Part) (next : Value → State), (∀ v, (next v).issued = s.issued) →
      Counts s.issued none (s.after (part.get value) next) := fun part next hn =>
    counts_after (P := fun _ => True) (.trivial _ fun _ _ _ => trivial) (fun v _ => hn v) rfl
  unfold followLink linkFinds
  cases way.links with
  | nil => exact counts_go rfl
  | cons link links =>
    cases link with
    | guard =>
      dsimp only
      split <;> exact counts_go rfl
    | property name => exact hpart _ _ fun _ => rfl
    | index =>
      dsimp only
      split
      · exact counts_go rfl
      · exact hpart _ _ fun _ => rfl
    | method name arity => exact counts_callNamed _ _ _ _ _

theorem counts_use (values : List Value) (use : Use) :
    Counts s.issued (s.useFinds setting values use) (s.apply setting values use) := by
  cases use with
  | list => exact counts_go rfl
  | map names => exact counts_go rfl
  | template => exact counts_go rfl
  | unary op =>
    rcases values with _ | ⟨value, _ | ⟨second, rest⟩⟩
    · exact counts_go rfl
    · exact counts_settle _
    · exact counts_go rfl
  | binary op =>
    rcases values with _ | ⟨left, _ | ⟨right, _ | ⟨third, rest⟩⟩⟩
    · cases op <;> exact counts_go rfl
    · cases op <;> exact counts_go rfl
    · cases op with
      | contains =>
        unfold apply useFinds
        dsimp only
        cases BinaryOp.contains.onSimple left right with
        | some result => exact counts_settle _
        | none => exact counts_call _ _ _
      | _ => exact counts_settle _
    · cases op <;> exact counts_go rfl
  | call name given place =>
    cases place with
    | none => exact counts_call _ _ _
    | some root =>
      unfold apply useFinds
      dsimp only
      cases s.env.read setting.program root with
      | error fault => exact counts_go rfl
      | ok first => exact counts_call _ _ _
  | curry name given => exact counts_go rfl
  | chain root links => exact counts_go rfl
  | assign op root links value =>
    unfold apply
    dsimp only
    split
    · exact counts_go rfl
    · exact counts_go rfl
    · refine counts_after (P := fun _ => True) (.trivial _ fun _ _ _ => trivial) (fun _ _ => ?_) ?_
      · split <;> rfl
      · split <;> rfl

theorem counts_collect (done : List Value) (todo : List Term) (use : Use) :
    Counts s.issued (s.collectFinds setting done todo use) (s.collect setting done todo use) := by
  cases todo with
  | nil => exact counts_use _ _
  | cons term todo => exact counts_go rfl

theorem counts_beginCall (name : String) (given : List Value) (arguments : List Term) :
    Counts s.issued (s.beginCallFinds setting name given arguments)
      (s.beginCall setting name given arguments) := by
  cases given with
  | cons value given => exact counts_collect _ _ _
  | nil =>
    cases arguments with
    | nil => exact counts_collect [] [] (.call name [] none)
    | cons first others =>
      unfold beginCall beginCallFinds
      dsimp only
      cases first.place? with
      | none => exact counts_collect [] (first :: others) _
      | some place =>
        cases place with
        | var name => exact counts_collect _ _ _
        | this =>
          dsimp only
          split
          · exact counts_go rfl
          · exact counts_collect _ _ _

-- Most values are gathered for something else than a call.
theorem counts_gather {use : Use} (hu : ∀ values, s.useFinds setting values use = none)
    (done : List Value) (todo : List Term) :
    Counts s.issued none (s.collect setting done todo use) := by
  cases todo with
  | nil =>
    have hc : Counts s.issued (s.useFinds setting done.reverse use) _ := counts_use _ _
    rwa [hu] at hc
  | cons term todo => exact counts_go rfl

theorem counts_begin (term : Term) :
    Counts s.issued (s.beginFinds setting term) (s.begin setting term) := by
  cases term with
  | call name arguments =>
    simp only [begin]
    split <;> rw [beginFinds] <;> try assumption
    · exact counts_go rfl
    · exact counts_go rfl
    · exact counts_beginCall _ _ _
  | var name => exact counts_settle _
  | this => exact counts_settle _
  | list items => exact counts_gather (fun _ => rfl) [] items
  | map names values => exact counts_gather (fun _ => rfl) [] values
  | template pieces => exact counts_gather (fun _ => rfl) [] pieces
  | chain root links operands => exact counts_gather (fun _ => rfl) [] operands
  | block body => cases body <;> exact counts_go rfl
  | declare name value constant => cases value <;> exact counts_go rfl
  | assign op root links operands right =>
    unfold begin
    dsimp only
    split <;> exact counts_go rfl
  | repeating test body => cases test <;> exact counts_go rfl
  | leave value => cases value <;> exact counts_go rfl
  | give value => cases value <;> exact counts_go rfl
  | throwing value => cases value <;> exact counts_go rfl
  | _ => exact counts_go rfl

theorem counts_decide {value : Value} {next : Bool → State}
    (hn : ∀ b, (next b).issued = s.issued) : Counts s.issued none (s.decide value next) := by
  unfold decide
  split
  · exact counts_go (hn _)
  · exact counts_go rfl

theorem issued_nextLap (s : State) (size : Nat) (name : String) (counter : Option String)
    (count : Nat) (left : Source) (body : List Term) :
    (s.nextLap size name counter count left body).issued = s.issued := by
  unfold nextLap
  split <;> rfl

theorem counts_returnTo (env : Env) (way : Option Way) (value : Value) :
    Counts s.issued none (s.returnTo env way value) := by
  unfold returnTo
  dsimp only
  split
  · exact counts_after (issued_writeBack _ _ _) (fun back hb => hb) rfl
  · exact counts_go rfl

theorem counts_receive (value : Value) (frame : Frame) :
    Counts s.issued (s.receiveFinds setting value frame) (s.receive setting value frame) := by
  cases frame with
  | sequence rest => cases rest <;> exact counts_go rfl
  | collect done todo use => exact counts_collect _ _ _
  | callee keeps arguments =>
    cases value with
    | routine name given =>
      cases keeps with
      | true => exact counts_gather (fun _ => rfl) [] arguments
      | false => exact counts_beginCall _ _ _
    | _ => cases keeps <;> exact counts_go rfl
  | store op root links operands => exact counts_gather (fun _ => rfl) [] operands
  | connect settled right =>
    refine counts_decide fun b => ?_
    split <;> rfl
  | expectTruth => exact counts_decide fun _ => rfl
  | orElse right => cases value <;> exact counts_go rfl
  | branch yes no => exact counts_decide fun _ => rfl
  | test loop body =>
    refine counts_decide fun b => ?_
    split <;> rfl
  | testAgain expected loop =>
    refine counts_decide fun b => ?_
    split <;> rfl
  | source name counter body =>
    unfold receive
    dsimp only
    split
    · exact counts_go (issued_nextLap _ _ _ _ _ _ _)
    · exact counts_go rfl
  | each size name counter count left body => exact counts_go (issued_nextLap _ _ _ _ _ _ _)
  | calling function env way => exact counts_returnTo _ _ _
  | _ => exact counts_go rfl

theorem counts_pass (signal : Signal) (frame : Frame) :
    Counts s.issued none (s.pass signal frame) := by
  unfold pass
  split
  · exact counts_go rfl
  · exact counts_go rfl
  · exact counts_go rfl
  · exact counts_go rfl
  · exact counts_go rfl
  · exact counts_go (issued_nextLap _ _ _ _ _ _ _)
  · split
    · exact counts_go rfl
    · exact counts_go rfl
  · exact counts_go rfl
  · exact counts_returnTo _ _ _
  · exact counts_go rfl
  · exact counts_go rfl

theorem counts_step (setting : Setting) (s : State) :
    Counts s.issued (s.finds setting) (s.step setting) := by
  obtain ⟨control, frames, env, depth, operations, issued⟩ := s
  cases control with
  | eval term =>
    unfold step finds
    dsimp only
    split
    · exact counts_go rfl
    · exact counts_begin _
  | follow value way => exact counts_followLink _ _
  | give value =>
    cases frames with
    | nil => exact (rfl : _ = _)
    | cons frame frames => exact counts_receive (s := ⟨_, frames, _, _, _, _⟩) _ _
  | raise signal =>
    cases frames with
    | nil => exact (rfl : _ = _)
    | cons frame frames => exact counts_pass (s := ⟨_, frames, _, _, _, _⟩) _ _

end Counting

end State

section Runs

variable {setting : Setting} {s : State} {p : Project}

-- What the routine comes to that the next step calls, if it calls one.
def State.effects (setting : Setting) (s : State) (p : Project) : List Effect :=
  ((s.finds setting).map fun routine => (routine.run Query.answer p).1).toList

def effectsFor (setting : Setting) : Nat → State → Project → List Effect
  | 0, _, _ => []
  | steps + 1, s, p =>
    s.effects setting p ++
      match (s.step setting).run Query.answer p with
      | (.on next, p) => effectsFor setting steps next p
      | (.over _ _, _) => []

theorem runFor_succ (setting : Setting) (steps : Nat) (s : State) :
    runFor setting (steps + 1) s = (s.step setting).bind fun
      | .over result issued => .done ⟨result, issued⟩
      | .on next => runFor setting steps next := by
  simp only [runFor]
  cases s.step setting with
  | done progress => cases progress <;> rfl
  | ask query next => rfl

theorem issued_step (setting : Setting) (s : State) (p : Project) :
    ((s.step setting).run Query.answer p).1.issued =
      s.issued + (s.effects setting p).countP (·.issues) := by
  have hc := s.counts_step setting
  unfold State.effects
  cases hf : s.finds setting with
  | none =>
    rw [hf] at hc
    exact hc.run Query.answer p
  | some routine =>
    rw [hf] at hc
    obtain ⟨-, next, hstep, hnext⟩ := hc
    rw [hstep, Dialogue.run_bind]
    refine ((hnext _).run Query.answer _).trans ?_
    simp only [Option.map_some, Option.toList_some, List.countP_singleton]

theorem issued_runFor (setting : Setting) (steps : Nat) (s : State) (p : Project) :
    ((runFor setting steps s).run Query.answer p).1.issued =
      s.issued + (effectsFor setting steps s p).countP (·.issues) := by
  induction steps generalizing s p with
  | zero => rfl
  | succ steps ih =>
    have hstep := issued_step setting s p
    rw [runFor_succ, Dialogue.run_bind, effectsFor, List.countP_append]
    cases hr : (s.step setting).run Query.answer p with
    | mk progress q =>
      rw [hr] at hstep
      rcases progress with next | ⟨result, issued⟩
      · refine (ih next q).trans ?_
        rw [show next.issued = _ from hstep, Nat.add_assoc]
      · exact hstep

-- What every routine of the table comes to, those come to that a run calls.
theorem of_mem_effectsFor {P : Effect → Prop} (hP : ∀ routine, Tabled routine → routine.All P)
    {steps : Nat} {e : Effect} (he : e ∈ effectsFor setting steps s p) : P e := by
  induction steps generalizing s p with
  | zero => cases he
  | succ steps ih =>
    rcases List.mem_append.1 he with he | he
    · have hc := s.counts_step setting
      unfold State.effects at he
      cases hf : s.finds setting with
      | none =>
        rw [hf] at he
        cases he
      | some routine =>
        rw [hf] at he hc
        obtain rfl := List.mem_singleton.1 he
        exact (hP routine hc.1).run Query.answer p
    · split at he
      · exact ih he
      · cases he

end Runs

namespace Calling

variable {setting : Setting} {h : Handle} {c : Calling}

def effects (setting : Setting) (h : Handle) (c : Calling) : List Effect :=
  match setting.program.function? c.function c.arguments.length with
  | none => []
  | some f =>
    effectsFor setting (16 * setting.maxOperations + twoTo 17)
      { control := .eval (.block f.body)
        env := .ofCall f.params c.arguments (some (.handle h)) } c.project

-- The count starts anew with each call, and goes up with the routines that it calls.
theorem issued_result (setting : Setting) (h : Handle) (c : Calling) :
    (c.result setting h).1.issued = (c.effects setting h).countP (·.issues) := by
  unfold result effects Program.callFor
  cases setting.program.function? c.function c.arguments.length with
  | none => rfl
  | some f => exact (issued_runFor _ _ _ _).trans (Nat.zero_add _)

theorem of_mem_effects {P : Effect → Prop} (hP : ∀ routine, Tabled routine → routine.All P)
    {e : Effect} (he : e ∈ c.effects setting h) : P e := by
  unfold effects at he
  split at he
  · cases he
  · exact of_mem_effectsFor hP he

end Calling

end Script

end SpriteStage

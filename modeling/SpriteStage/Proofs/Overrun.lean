import Mathlib.Data.List.Induction
import SpriteStage.Proofs.Fixture

namespace SpriteStage

open Project Script

namespace Dialogue

variable {Q : Type} {A : Q → Type} {α σ : Type}

-- The questions of a dialogue, in the order in which a run of it comes to them.
def asked (answer : (question : Q) → σ → A question × σ) : Dialogue Q A α → σ → List Q
  | .done _, _ => []
  | .ask question next, s =>
    question :: (next (answer question s).1).asked answer (answer question s).2

end Dialogue

-- The cap that was set last, or the one that there was.
def inForce (cap : Nat) (caps : List Nat) : Nat := caps.getLastD cap

theorem inForce_append (cap : Nat) (caps later : List Nat) :
    inForce cap (caps ++ later) = inForce (inForce cap caps) later := by
  simp only [inForce, List.getLastD_eq_getLast?, List.getLast?_append]
  cases later.getLast? <;> rfl

namespace Script

variable {α : Type} {cap n max : Nat} {queries : List Query}

namespace Query

def loops : Query → Bool
  | .countLoop => true
  | _ => false

def cap? : Query → Option Nat
  | .limitLoops max => some max.toNat
  | _ => none

end Query

-- One of the loop iterations was one too many for the cap of the time.
def Overruns (cap : Nat) (queries : List Query) (n max : Nat) : Prop :=
  ∃ front back, queries = front ++ .countLoop :: back ∧ n = front.countP Query.loops + 1 ∧
    max = inForce cap (front.filterMap Query.cap?) ∧ max < n

-- What the loading of a script has to say about loops.
structure Meter where
  cap : Nat
  loops : Nat
  failure : Option ProjectError

namespace Meter

def note (m : Meter) : Query → Meter
  | .limitLoops max => { m with cap := max.toNat }
  | .countLoop => { m with
      loops := m.loops + 1
      failure :=
        if m.cap < m.loops + 1 then some (.runawayLoop (m.loops + 1) m.cap) else m.failure }
  | _ => m

end Meter

def Loading.meter (l : Loading) : Meter :=
  ⟨l.project.world.config.maxImportLoopIterations, l.project.world.importLoops, l.failure⟩

theorem meter_answer (query : Query) (l : Loading) :
    (Loading.answer query l).2.meter = l.meter.note query := by
  cases query with
  | call c awaits =>
    have hf := sameFixture_call l.project c
    simp only [Loading.meter, Loading.answer, Meter.note, hf.config, hf.importLoops]
  | declare d => rfl
  | limitLoops max => rfl
  | countLoop =>
    simp only [Loading.answer, Loading.meter, Meter.note, noteImportLoop, World.noteImportLoop]
    by_cases hlt : l.project.world.config.maxImportLoopIterations < l.project.world.importLoops + 1
    · simp only [if_pos hlt]
      exact congrArg (Meter.mk _ _) (if_pos hlt).symm
    · simp only [if_neg hlt]
      exact congrArg (Meter.mk _ _) (if_neg hlt).symm

theorem meter_run (d : Inquiry α) (l : Loading) :
    (d.run Loading.answer l).2.meter = (d.asked Loading.answer l).foldl Meter.note l.meter := by
  induction d generalizing l with
  | done result => rfl
  | ask query next ih =>
    rw [Dialogue.asked, List.foldl_cons, ← meter_answer]
    exact ih _ _

namespace Meter

theorem foldl_note (queries : List Query) (m : Meter) :
    (queries.foldl note m).cap = inForce m.cap (queries.filterMap Query.cap?) ∧
      (queries.foldl note m).loops = m.loops + queries.countP Query.loops := by
  induction queries generalizing m with
  | nil => exact ⟨rfl, rfl⟩
  | cons query queries ih =>
    obtain ⟨hcap, hloops⟩ := ih (m.note query)
    rw [List.foldl_cons, hcap, hloops, List.countP_cons, List.filterMap_cons]
    cases query with
    | limitLoops max => exact ⟨List.getLastD_cons.symm, rfl⟩
    | countLoop => exact ⟨rfl, Nat.add_right_comm _ _ _⟩
    | _ => exact ⟨rfl, rfl⟩

end Meter

theorem overruns_concat {query : Query} : Overruns cap (queries ++ [query]) n max ↔
    Overruns cap queries n max ∨ query = .countLoop ∧ n = queries.countP Query.loops + 1 ∧
      max = inForce cap (queries.filterMap Query.cap?) ∧ max < n := by
  constructor
  · rintro ⟨front, back, hq, hrest⟩
    rcases List.eq_nil_or_concat back with rfl | ⟨back, last, rfl⟩
    · obtain ⟨rfl, hlast⟩ := List.append_inj' hq rfl
      exact .inr ⟨List.singleton_inj.1 hlast, hrest⟩
    · rw [List.concat_eq_append, ← List.cons_append, ← List.append_assoc] at hq
      exact .inl ⟨front, back, (List.append_inj' hq rfl).1, hrest⟩
  · rintro (⟨front, back, rfl, hrest⟩ | ⟨rfl, hrest⟩)
    · exact ⟨front, back ++ [query], by rw [List.append_assoc, List.cons_append], hrest⟩
    · exact ⟨queries, [], rfl, hrest⟩

-- A failure stands for an overrun of the past, and there is one as soon as there was any.
structure Notes (cap : Nat) (queries : List Query) (failure : Option ProjectError) : Prop where
  noted : ∀ e, failure = some e → ∃ n max, e = .runawayLoop n max ∧ Overruns cap queries n max
  clean : failure = none → ∀ n max, ¬ Overruns cap queries n max

namespace Notes

variable {failure : Option ProjectError} {query : Query}

theorem nil (cap : Nat) : Notes cap [] none := by
  refine ⟨fun e he => absurd he.symm (Option.some_ne_none e), fun _ n max => ?_⟩
  rintro ⟨front, back, hq, -⟩
  exact List.cons_ne_nil _ _ (List.append_eq_nil_iff.1 hq.symm).2

-- What has been noted stays, whatever the cap is later.
theorem concat (h : Notes cap queries failure)
    (hq : query = .countLoop → ¬ inForce cap (queries.filterMap Query.cap?) <
      queries.countP Query.loops + 1) : Notes cap (queries ++ [query]) failure := by
  refine ⟨fun e he => ?_, fun he n max ho => ?_⟩
  · obtain ⟨n, max, rfl, ho⟩ := h.noted e he
    exact ⟨n, max, rfl, overruns_concat.2 (.inl ho)⟩
  · rcases overruns_concat.1 ho with ho | ⟨hc, rfl, rfl, ho⟩
    · exact h.clean he n max ho
    · exact hq hc ho

theorem overrun (hlt : inForce cap (queries.filterMap Query.cap?) <
    queries.countP Query.loops + 1) : Notes cap (queries ++ [.countLoop])
      (some (.runawayLoop (queries.countP Query.loops + 1)
        (inForce cap (queries.filterMap Query.cap?)))) := by
  refine ⟨fun e he => ?_, fun he => by cases he⟩
  cases he
  exact ⟨_, _, rfl, overruns_concat.2 (.inr ⟨rfl, rfl, rfl, hlt⟩)⟩

end Notes

theorem notes_foldl (cap : Nat) (queries : List Query) :
    Notes cap queries (queries.foldl Meter.note ⟨cap, 0, none⟩).failure := by
  induction queries using List.reverseRecOn with
  | nil => exact .nil cap
  | append_singleton queries query ih =>
    obtain ⟨hcap, hloops⟩ := Meter.foldl_note queries ⟨cap, 0, none⟩
    rw [Nat.zero_add] at hloops
    rw [List.foldl_append, List.foldl_cons, List.foldl_nil]
    cases query with
    | countLoop =>
      rw [Meter.note]
      dsimp only
      rw [hcap, hloops]
      split
      · rename_i hlt
        exact .overrun hlt
      · rename_i hlt
        exact ih.concat fun _ => hlt
    | _ => exact ih.concat fun h => by cases h

end Script

namespace Project

-- What the top level of a script asks for while it is loaded.
def asked (source : String) (config : Config) : List Query :=
  match Project.new config, Program.ofText? source with
  | .ok p, some program =>
    (Program.runBody ⟨program, true, config.maxScriptOperations⟩).asked Loading.answer
      { project := p }
  | _, _ => []

theorem register_error {p q : Project} {c : ActorClass} {kind : ActorKind} {e : ProjectError}
    (h : p.register c kind = (.error e, q)) : ∃ fault, e = .registration fault := by
  unfold register at h
  split at h
  · cases h
    exact ⟨_, rfl⟩
  · dsimp only at h
    split at h
    · cases h
      exact ⟨_, rfl⟩
    · split at h
      · cases h
        exact ⟨_, rfl⟩
      · cases h

theorem registerAll_error {program : Program} {ds : List (Declaration Value)} {p q : Project}
    {e : ProjectError} (h : registerAll program ds p = (.error e, q)) :
    ∃ fault, e = .registration fault := by
  induction ds generalizing p with
  | nil => cases h
  | cons d ds ih =>
    simp only [registerAll] at h
    split at h
    · cases h
      exact ⟨_, rfl⟩
    · split at h
      · rename_i hr
        cases h
        exact register_error hr
      · exact ih h

theorem new_eq_error {config : Config} {e : ProjectError} (h : Project.new config = .error e) :
    ∃ reason, e = .config reason := by
  unfold Project.new Config.check at h
  split at h <;> cases h
  exact ⟨_, rfl⟩

-- Either nothing is run at all, or what the run has to say about loops goes before everything else.
inductive Loaded (source : String) (config : Config) :
    Except ProjectError Unit × Project → Prop where
  | unread {e : ProjectError} {p : Project} (ha : asked source config = [])
      (he : ∀ n max, e ≠ .runawayLoop n max) : Loaded source config (.error e, p)
  | failed {l : Loading} {e : ProjectError} (hf : l.failure = some e)
      (hm : l.meter = (asked source config).foldl Meter.note
        ⟨config.maxImportLoopIterations, 0, none⟩) : Loaded source config (.error e, l.project)
  | broken {l : Loading} {reason : String} (hf : l.failure = none)
      (hm : l.meter = (asked source config).foldl Meter.note
        ⟨config.maxImportLoopIterations, 0, none⟩) :
      Loaded source config (.error (.script reason), l.project)
  | registers {l : Loading} (program : Program) (library : Library) (hf : l.failure = none)
      (hm : l.meter = (asked source config).foldl Meter.note
        ⟨config.maxImportLoopIterations, 0, none⟩) :
      Loaded source config (registerAll program l.declared { l.project with library := library })

theorem asked_of_new_error {source : String} {config : Config} {e : ProjectError}
    (h : Project.new config = .error e) : asked source config = [] := by
  unfold asked
  rw [h]

theorem asked_of_unread {source : String} {config : Config}
    (h : Program.ofText? source = none) : asked source config = [] := by
  unfold asked
  rw [h]
  cases Project.new config <;> rfl

theorem meter_asked {source : String} {config : Config} {p : Project} {program : Program}
    (hp : Project.new config = .ok p) (h : Program.ofText? source = some program) :
    ((Program.runBody ⟨program, true, config.maxScriptOperations⟩).run Loading.answer
      { project := p }).2.meter =
      (asked source config).foldl Meter.note ⟨config.maxImportLoopIterations, 0, none⟩ := by
  have hfirst : Loading.meter { project := p } = ⟨config.maxImportLoopIterations, 0, none⟩ := by
    rw [new_eq_ok hp]
    rfl
  unfold asked
  rw [hp, h, meter_run, hfirst]

theorem loaded (source : String) (config : Config) :
    Loaded source config (load source config) := by
  have hmeter := @meter_asked source config
  have hrefused := @asked_of_new_error source config
  have hunread := @asked_of_unread source config
  have hnew := @new_eq_error config
  unfold load
  -- These three stay closed: on an unknown script the kernel would go on evaluating them.
  obtain ⟨made, hmade⟩ : ∃ made, Project.new config = made := ⟨_, rfl⟩
  obtain ⟨parsed, hparsed⟩ : ∃ parsed, Program.ofText? source = parsed := ⟨_, rfl⟩
  obtain ⟨run, hrun⟩ : ∃ run, Dialogue.run Loading.answer = run := ⟨_, rfl⟩
  rw [hmade, hparsed, hrun]
  rw [hmade, hparsed, hrun] at hmeter
  rw [hmade] at hrefused hnew
  rw [hparsed] at hunread
  cases made with
  | error e =>
    obtain ⟨reason, rfl⟩ := hnew rfl
    exact .unread (hrefused rfl) fun _ _ he => by cases he
  | ok p =>
    cases parsed with
    | none => exact .unread (hunread rfl) fun _ _ he => by cases he
    | some program =>
      have hm := hmeter rfl rfl
      dsimp only
      generalize run _ _ = ran at hm
      obtain ⟨finish, l⟩ := ran
      dsimp only at hm ⊢
      split
      · rename_i hf
        exact .failed hf hm
      · rename_i hf _
        exact .broken hf hm
      · rename_i hf _
        exact .registers program _ hf hm

variable {source : String} {config : Config} {n max : Nat} {p : Project}

theorem overruns_of_error (h : (load source config).1 = .error (.runawayLoop n max)) :
    Overruns config.maxImportLoopIterations (asked source config) n max := by
  have hnotes := notes_foldl config.maxImportLoopIterations (asked source config)
  have hl := loaded source config
  generalize load source config = result at h hl
  cases hl with
  | unread ha he =>
    cases h
    exact absurd rfl (he n max)
  | failed hf hm =>
    cases h
    rw [← hm] at hnotes
    obtain ⟨_, _, he, ho⟩ := hnotes.noted _ hf
    cases he
    exact ho
  | broken hf hm => cases h
  | registers program library hf hm =>
    obtain ⟨fault, hfault⟩ := registerAll_error (Prod.ext h rfl)
    cases hfault

theorem error_of_overruns
    (h : Overruns config.maxImportLoopIterations (asked source config) n max) :
    ∃ n max, (load source config).1 = .error (.runawayLoop n max) := by
  have hnotes := notes_foldl config.maxImportLoopIterations (asked source config)
  have hl := loaded source config
  generalize load source config = result at hl
  cases hl with
  | unread ha he =>
    rw [ha] at hnotes h
    exact absurd h (hnotes.clean rfl n max)
  | failed hf hm =>
    rw [← hm] at hnotes
    obtain ⟨n, max, rfl, -⟩ := hnotes.noted _ hf
    exact ⟨n, max, rfl⟩
  | broken hf hm =>
    rw [← hm] at hnotes
    exact absurd h (hnotes.clean hf n max)
  | registers program library hf hm =>
    rw [← hm] at hnotes
    exact absurd h (hnotes.clean hf n max)

-- What a script has counted and set by the time it is loaded.
theorem meter_load (h : load source config = (.ok (), p)) :
    p.world.importLoops = (asked source config).countP Query.loops ∧
      p.world.config.maxImportLoopIterations =
        inForce config.maxImportLoopIterations ((asked source config).filterMap Query.cap?) := by
  have hl := loaded source config
  generalize hresult : load source config = result at hl
  rw [h] at hresult
  cases hl with
  | registers program library hf hm =>
    rename_i l
    have hsame : l.project.world.SameFixture p.world := by
      refine registerAll_invariant (I := fun q => l.project.world.SameFixture q.world)
        (fun q c kind _ hq => hq.trans (sameFixture_register q c kind)) ?_ hresult.symm
      exact .refl _
    obtain ⟨hcap, hloops⟩ := Meter.foldl_note (asked source config)
      ⟨config.maxImportLoopIterations, 0, none⟩
    rw [← hm] at hcap hloops
    rw [hsame.importLoops, hsame.config]
    exact ⟨hloops.trans (Nat.zero_add _), hcap⟩
  | _ => cases hresult

end Project

namespace Event

def loops : Event → Bool
  | .operate .countLoop => true
  | _ => false

def cap? : Event → Option Nat
  | .operate (.limitLoops max) => some max
  | _ => none

end Event

namespace Moment

variable {m n : Moment} {e : Event} {events : List Event}

theorem act?_loops (h : m.act? e = some n) :
    n.project.world.importLoops = m.project.world.importLoops + [e].countP Event.loops ∧
      n.project.world.config.maxImportLoopIterations =
        inForce m.project.world.config.maxImportLoopIterations ([e].filterMap Event.cap?) := by
  have hkept (hw : m.project.world.SameFixture n.project.world) (hl : e.loops = false)
      (hc : e.cap? = none) : n.project.world.importLoops =
        m.project.world.importLoops + [e].countP Event.loops ∧
      n.project.world.config.maxImportLoopIterations =
        inForce m.project.world.config.maxImportLoopIterations ([e].filterMap Event.cap?) := by
    rw [hw.importLoops, hw.config, List.countP_cons, hl, List.filterMap_cons, hc]
    exact ⟨rfl, rfl⟩
  cases does_of_act? h with
  | operate op =>
    rename_i p
    cases op with
    | limitLoops max => exact ⟨rfl, rfl⟩
    | countLoop => exact ⟨rfl, rfl⟩
    | press | release | click => exact ⟨rfl, rfl⟩
    | _ => exact hkept (Operation.sameFixture rfl p) rfl rfl
  | frame =>
    rename_i p
    have hw := sameFixture_prepare p
    exact ⟨hw.importLoops, congrArg Config.maxImportLoopIterations hw.config⟩
  | turn ht => exact hkept (sameFixture_turn ht) rfl rfl

theorem acts?_loops (h : m.acts? events = some n) :
    n.project.world.importLoops = m.project.world.importLoops + events.countP Event.loops ∧
      n.project.world.config.maxImportLoopIterations =
        inForce m.project.world.config.maxImportLoopIterations (events.filterMap Event.cap?) := by
  induction events generalizing m with
  | nil =>
    cases h
    exact ⟨rfl, rfl⟩
  | cons e events ih =>
    obtain ⟨mid, hmid, hn⟩ := Option.bind_eq_some_iff.1 h
    obtain ⟨hloops, hcap⟩ := act?_loops hmid
    rw [← List.singleton_append, List.countP_append, List.filterMap_append, inForce_append, ← hcap,
      ← Nat.add_assoc, ← hloops]
    exact ih hn

-- Only the top level of a script counts its loops, and only there it sets the cap; afterwards that
-- is up to the host.
theorem runaway_iff (source : String) (config : Config) :
    ((∃ n max, (Project.load source config).1 = .error (.runawayLoop n max)) ↔
      ∃ n max, Overruns config.maxImportLoopIterations (asked source config) n max) ∧
    (∀ n max, (Project.load source config).1 = .error (.runawayLoop n max) →
      Overruns config.maxImportLoopIterations (asked source config) n max) ∧
    ∀ {p : Project} {events : List Event} {m : Moment}, Project.load source config = (.ok (), p) →
      acts? events ⟨p, []⟩ = some m →
        m.project.world.importLoops =
          (asked source config).countP Query.loops + events.countP Event.loops ∧
        m.project.world.config.maxImportLoopIterations =
          inForce (inForce config.maxImportLoopIterations
            ((asked source config).filterMap Query.cap?)) (events.filterMap Event.cap?) := by
  refine ⟨⟨?_, ?_⟩, fun n max => overruns_of_error, fun hload hm => ?_⟩
  · rintro ⟨n, max, h⟩
    exact ⟨n, max, overruns_of_error h⟩
  · rintro ⟨n, max, h⟩
    exact error_of_overruns h
  · obtain ⟨hloops, hcap⟩ := meter_load hload
    rw [← hloops, ← hcap]
    exact acts?_loops hm

-- It catches the error, raises the cap and fails for another reason.
def unrepentant : String :=
  "set_max_import_loop_iterations(1); yield_until_next_frame(); " ++
    "try \x7b yield_until_next_frame() \x7d catch \x7b \x7d " ++
    "set_max_import_loop_iterations(9); throw \"late\""

theorem unrepentant_runs_away :
    (Project.load unrepentant {}).1 = .error (.runawayLoop 2 1) ∧
      Overruns ({} : Config).maxImportLoopIterations (asked unrepentant {}) 2 1 := by
  have hload : (Project.load unrepentant {}).1 = .error (.runawayLoop 2 1) := by decide +kernel
  exact ⟨hload, (runaway_iff unrepentant {}).2.1 2 1 hload⟩

end Moment

end SpriteStage

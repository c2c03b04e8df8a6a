import SpriteStage.Proofs.Moment

namespace SpriteStage

structure World.Blank (w : World) : Prop where
  actors : w.actors = []
  instances : w.instances = []
  groups : w.groups = []
  spawns : w.spawns = []
  deleted : w.deleted = []
  stopRequested : w.stopRequested = false
  questions : w.questions = []
  errors : w.errors = []

structure Project.Blank (p : Project) : Prop where
  threads : p.threads = []
  world : p.world.Blank

namespace World

variable {w w' : World}

theorem Blank.sameCast (hw : w.Blank) (h : w.SameCast w') : w'.Blank :=
  ⟨h.actors.trans hw.actors, h.instances.trans hw.instances, h.groups.trans hw.groups,
    h.spawns.trans hw.spawns, h.deleted.trans hw.deleted, h.stopRequested.trans hw.stopRequested,
    h.questions.trans hw.questions, h.errors.trans hw.errors⟩

theorem Blank.member (hw : w.Blank) (id : Nat) : w.member id = .error (.instanceGone (idText id)) := by
  simp [World.member, instance?, hw.instances]

theorem Blank.dispatch (hw : w.Blank) (trigger : Trigger) : w.dispatch trigger = (none, w) := by
  simp [World.dispatch, starts, hw.actors, queueGroup]

theorem Blank.answer (hw : w.Blank) {id : Nat} {r : Request} {reply : r.Reply}
    (h : w.answer id r = .ok (reply, w')) : w'.Blank := by
  cases grants_of_answer h with
  | tells => exact hw
  | reshapes change =>
    refine ⟨hw.actors, ?_, hw.groups, hw.spawns, hw.deleted, hw.stopRequested, hw.questions,
      hw.errors⟩
    simp [reshape, hw.instances]
  | sends =>
    rw [hw.dispatch]
    exact hw
  | clones hr hm =>
    rw [hw.member] at hm
    cases hm
  | _ => exact hw.sameCast ⟨rfl, rfl, rfl, rfl, rfl, rfl, rfl, rfl, rfl, rfl, rfl⟩

end World

namespace Project

variable {p : Project}

theorem Blank.answer (hp : p.Blank) {c : Call} (hc : c.startsWait = false) :
    (p.answer c).2.Blank := by
  cases c with
  | request h r =>
    simp only [Project.answer]
    split
    · rename_i ha
      exact ⟨hp.threads, hp.world.answer ha⟩
    · exact hp
  | start h wait => cases hc
  | pushRate h perFrame =>
    exact ⟨by simp [Project.answer, updateMailbox, updateThread, hp.threads], hp.world⟩
  | popRate h =>
    exact ⟨by simp [Project.answer, updateMailbox, updateThread, hp.threads], hp.world⟩
  | keep name h =>
    exact ⟨hp.threads, hp.world.sameCast ⟨rfl, rfl, rfl, rfl, rfl, rfl, rfl, rfl, rfl, rfl, rfl⟩⟩
  | kept name => exact hp
  | record entry =>
    exact ⟨hp.threads, hp.world.sameCast ⟨rfl, rfl, rfl, rfl, rfl, rfl, rfl, rfl, rfl, rfl, rfl⟩⟩

end Project

namespace Dialogue

theorem run_invariant {Q : Type} {A : Q → Type} {α σ : Type} {I : σ → Prop}
    {answer : (question : Q) → σ → A question × σ} (h : ∀ question s, I s → I (answer question s).2)
    (d : Dialogue Q A α) {s : σ} (hs : I s) : I (d.run answer s).2 := by
  induction d generalizing s with
  | done result => exact hs
  | ask question next ih => exact ih _ (h question s hs)

end Dialogue

theorem Script.Loading.blank_answer (query : Script.Query) (l : Script.Loading)
    (hl : l.project.Blank) : (Script.Loading.answer query l).2.project.Blank := by
  cases query with
  | call c awaits => exact hl.answer awaits
  | declare d => exact hl
  | limitLoops max =>
    exact ⟨hl.threads, hl.world.sameCast ⟨rfl, rfl, rfl, rfl, rfl, rfl, rfl, rfl, rfl, rfl, rfl⟩⟩
  | countLoop =>
    have hn : l.project.noteImportLoop.2.Blank :=
      ⟨hl.threads, hl.world.sameCast ⟨rfl, rfl, rfl, rfl, rfl, rfl, rfl, rfl, rfl, rfl, rfl⟩⟩
    simp only [answer]
    split
    · rename_i heq
      rwa [heq] at hn
    · rename_i heq
      rwa [heq] at hn

namespace Project

variable {σ : Scope} {p q : Project}

theorem blank_of_new {config : Config} (h : Project.new config = .ok p) : p.Blank := by
  unfold Project.new at h
  cases hc : config.check with
  | error e => rw [hc] at h; cases h
  | ok _ =>
    rw [hc] at h
    cases h
    exact ⟨rfl, rfl, rfl, rfl, rfl, rfl, rfl, rfl, rfl⟩

def Jumps (c : ActorClass) : Prop :=
  ∀ d ∈ c.handlers, ∃ function, d.handler.body = fun h => .jump ⟨h, function, []⟩

theorem jumps_actorClass {d : Declaration Value} {program : Script.Program} {c : ActorClass}
    (h : d.actorClass program = .ok c) : Jumps c := by
  unfold Declaration.actorClass at h
  split at h
  · cases h
  · cases h
    intro e he
    obtain ⟨n, -, rfl⟩ := List.mem_map.1 he
    exact ⟨n.function, rfl⟩

-- A class as a script declares it, for an actor of some kind.
inductive Written : ActorClass → ActorKind → Prop where
  | mk {d : Declaration Value} {program : Script.Program} {c : ActorClass}
      (h : d.actorClass program = .ok c) : Written c d.kind

theorem Written.jumps {c : ActorClass} {kind : ActorKind} (h : Written c kind) : Jumps c := by
  cases h with
  | mk h => exact jumps_actorClass h

theorem registerAll_written {I : Project → Prop} {program : Script.Program}
    {ds : List (Declaration Value)}
    (register : ∀ p c kind, Written c kind → I p → I (Project.register p c kind).2) (hp : I p)
    (h : registerAll program ds p = (.ok (), q)) : I q := by
  induction ds generalizing p with
  | nil =>
    cases h
    exact hp
  | cons d ds ih =>
    simp only [registerAll] at h
    split at h
    · cases h
    · rename_i c hc
      have hr := register p c d.kind (.mk hc) hp
      split at h
      · cases h
      · rename_i p' heq
        rw [heq] at hr
        exact ih hr h

theorem registerAll_invariant {I : Project → Prop} {program : Script.Program}
    {ds : List (Declaration Value)}
    (register : ∀ p c kind, Jumps c → I p → I (Project.register p c kind).2) (hp : I p)
    (h : registerAll program ds p = (.ok (), q)) : I q :=
  registerAll_written (fun p c kind hc => register p c kind hc.jumps) hp h

-- What holds while the top level of a script runs, and then while its classes are registered.
theorem load_written {J I : Project → Prop} {source : String} {config : Config}
    (new : ∀ p, Project.new config = .ok p → J p)
    (answer : ∀ query (l : Script.Loading), J l.project → J (Script.Loading.answer query l).2.project)
    (start : ∀ p setting, J p → I { p with library := Script.library setting })
    (register : ∀ p c kind, Written c kind → I p → I (Project.register p c kind).2)
    (h : Project.load source config = (.ok (), p)) : I p := by
  have hkept (setting : Script.Setting) {p : Project} (hp : J p) :
      J ((Script.Program.runBody setting).run Script.Loading.answer { project := p }).2.project :=
    Dialogue.run_invariant (I := fun l : Script.Loading => J l.project) answer _ hp
  unfold load at h
  -- These three stay closed: on an unknown script the kernel would go on evaluating them.
  obtain ⟨made, hmade⟩ : ∃ made, Project.new config = made := ⟨_, rfl⟩
  obtain ⟨parsed, hparsed⟩ : ∃ parsed, Script.Program.ofText? source = parsed := ⟨_, rfl⟩
  obtain ⟨run, hrun⟩ : ∃ run, Dialogue.run Script.Loading.answer = run := ⟨_, rfl⟩
  rw [hmade, hparsed, hrun] at h
  rw [hrun] at hkept
  cases made with
  | error e => cases h
  | ok p' =>
    cases parsed with
    | none => cases h
    | some program =>
      have hlast := hkept ⟨program, true, config.maxScriptOperations⟩ (new _ hmade)
      dsimp only at h
      split at h
      · cases h
      · cases h
      · exact registerAll_written register (start _ _ hlast) h

theorem load_induction {J I : Project → Prop} {source : String} {config : Config}
    (new : ∀ p, Project.new config = .ok p → J p)
    (answer : ∀ query (l : Script.Loading), J l.project → J (Script.Loading.answer query l).2.project)
    (start : ∀ p setting, J p → I { p with library := Script.library setting })
    (register : ∀ p c kind, Jumps c → I p → I (Project.register p c kind).2)
    (h : Project.load source config = (.ok (), p)) : I p :=
  load_written new answer start (fun p c kind hc => register p c kind hc.jumps) h

theorem load_invariant {I : Project → Prop} {source : String} {config : Config}
    (start : ∀ p setting, Blank p → p.library = Script.library setting → I p)
    (register : ∀ p c kind, Jumps c → I p → I (Project.register p c kind).2)
    (h : Project.load source config = (.ok (), p)) : I p :=
  load_induction (fun _ => blank_of_new) Script.Loading.blank_answer
    (fun _ setting hb => start _ setting ⟨hb.threads, hb.world⟩ rfl) register h

theorem changes_load {source : String} {config : Config}
    (hj : ∀ h function, σ.conduct.keeps h (.jump ⟨h, function, []⟩))
    (h : Project.load source config = (.ok (), p)) : ∃ p₀, p₀.Blank ∧ Changes σ p₀ p := by
  refine load_invariant (I := fun p => ∃ p₀, p₀.Blank ∧ Changes σ p₀ p)
    (fun p _ hp _ => ⟨p, hp, .refl⟩) (fun p c kind hc hp => ?_) h
  obtain ⟨p₀, hb, hr⟩ := hp
  refine ⟨p₀, hb, hr.trans (changes_register p c kind fun d hd k => ?_)⟩
  obtain ⟨function, hbody⟩ := hc d hd
  rw [hbody]
  exact hj k function

end Project

end SpriteStage

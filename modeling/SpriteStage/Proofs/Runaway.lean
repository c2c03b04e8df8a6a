import SpriteStage.Proofs.Stopping
import SpriteStage.Proofs.Trampoline

namespace SpriteStage

open Project Script

namespace Project

variable {h : Handle} {p q r : Project} {laps laps' : Nat}

section Laps

theorem runOn?_mono (hle : laps ≤ laps') {b : Behavior} {result : Resumption × Project}
    (hr : runOn? h laps b p = some result) : runOn? h laps' b p = some result := by
  induction laps generalizing laps' b p with
  | zero => cases hr
  | succ laps ih =>
    cases laps' with
    | zero => cases hle
    | succ laps' =>
      simp only [runOn?] at hr ⊢
      split at hr
      · exact hr
      · exact hr
      · exact hr
      · exact ih (Nat.le_of_succ_le_succ hle) hr

theorem step?_mono (hle : laps ≤ laps') {id : Nat} (hs : p.step? laps id = some q) :
    p.step? laps' id = some q := by
  cases ht : p.thread? id with
  | none =>
    unfold step? at hs ⊢
    rw [ht] at hs ⊢
    exact hs
  | some t =>
    obtain ⟨r, p', hr, rfl⟩ := step?_eq_some ht hs
    exact step?_of_runOn ht (runOn?_mono hle hr)

theorem turn?_mono (hle : laps ≤ laps') {id : Nat} {result : Bool × Project}
    (ht : p.turn? laps id = some result) : p.turn? laps' id = some result := by
  unfold turn? at ht ⊢
  split at ht
  · exact ht
  · exact ht
  · exact ht
  · obtain ⟨q, hq, rfl⟩ := Option.map_eq_some_iff.1 ht
    exact Option.map_eq_some_iff.2 ⟨q, step?_mono hle hq, rfl⟩

theorem pass?_mono (hle : laps ≤ laps') {ids resumed : List Nat}
    (h : pass? laps ids p = some (resumed, q)) : pass? laps' ids p = some (resumed, q) := by
  induction ids generalizing p resumed with
  | nil => exact h
  | cons id ids ih =>
    obtain ⟨b, r, rest, ht, hp, rfl⟩ := pass?_cons h
    simp only [pass?, turn?_mono hle ht, ih hp, Option.map_some]

theorem pass?_unique {ids resumed resumed' : List Nat}
    (hp : pass? laps ids p = some (resumed, q)) (hp' : pass? laps' ids p = some (resumed', r)) :
    resumed = resumed' ∧ q = r := by
  have h := pass?_mono (Nat.le_max_left laps laps') hp
  rw [pass?_mono (Nat.le_max_right laps laps') hp'] at h
  cases h
  exact ⟨rfl, rfl⟩

end Laps

section Turn

variable {setting : Setting} {id : Nat}

-- A due thread comes to call after call of the script and never to a pause.
inductive Runaway (setting : Setting) (p : Project) (id : Nat) : Prop where
  | mk {t : Thread} {p' : Project} {c : Calling} (hd : p.readiness id = (.due, p'))
      (ht : p'.thread? id = some t)
      (hr : run t.handle (p'.woken t).1 (p'.woken t).2 = (.jumps (c.jump t.handle), c.project))
      (he : c.Endless setting t.handle) : Runaway setting p id

theorem library_readiness (p : Project) (id : Nat) : (p.readiness id).2.library = p.library := by
  obtain ⟨change, hchange, -⟩ := readiness_eq_updateThread p id
  rw [hchange]
  rfl

theorem jumps_of_runOn {b : Behavior} (hb : b.Loyal h) (hlib : p.library = Script.library setting)
    (hn : ∀ laps, runOn? h laps b p = none) :
    ∃ c : Calling, run h b p = (.jumps (c.jump h), c.project) ∧ c.Endless setting h := by
  have hone := hn 1
  simp only [runOn?] at hone
  split at hone
  · cases hone
  · cases hone
  · cases hone
  · rename_i target r hr
    have hloyal : target.handle = h := by
      obtain ⟨mid, -, hc⟩ := deeds_run (κ := .loyal) hb p
      rw [hr] at hc
      cases hc with
      | jumps ht => exact ht
    have hrlib : r.library = Script.library setting := by
      have hl := library_of_run h b p
      rw [hr] at hl
      exact hl.trans hlib
    obtain ⟨handle, routine, arguments⟩ := target
    obtain rfl : handle = h := hloyal
    refine ⟨⟨routine, arguments, r⟩, hr, (Calling.endless_iff hrlib).1 fun laps => ?_⟩
    have hlater := hn (laps + 1)
    simp only [runOn?, hr, hrlib] at hlater
    exact hlater

theorem runOn?_of_endless {b : Behavior} {c : Calling} (hlib : p.library = Script.library setting)
    (hr : run h b p = (.jumps (c.jump h), c.project)) (he : c.Endless setting h) (laps : Nat) :
    runOn? h laps b p = none := by
  have hrlib : c.project.library = Script.library setting := by
    have hl := library_of_run h b p
    rw [hr] at hl
    exact hl.trans hlib
  cases laps with
  | zero => rfl
  | succ laps =>
    simp only [runOn?, hr, hrlib]
    exact (Calling.endless_iff hrlib).2 he laps

theorem runaway_of_start {t : Thread} {p' : Project} {function : String}
    (hd : p.readiness id = (.due, p')) (ht : p'.thread? id = some t)
    (hb : t.body = .start (.jump ⟨t.handle, function, []⟩))
    (he : Calling.Endless setting t.handle ⟨function, [], (p'.woken t).2⟩) :
    Runaway setting p id := by
  refine .mk hd ht ?_ he
  have hw : (p'.woken t).1 = .jump ⟨t.handle, function, []⟩ := by
    unfold woken wake
    rw [hb]
  rw [hw]
  rfl

theorem step?_eq_none_iff {t : Thread} (ht : p.thread? id = some t) :
    p.step? laps id = none ↔ runOn? t.handle laps (p.woken t).1 (p.woken t).2 = none := by
  rw [step?_eq ht, Option.map_eq_none_iff]

theorem due_of_stuck (hn : ∀ laps, p.turn? laps id = none) :
    ∃ p' t, p.readiness id = (.due, p') ∧ p'.thread? id = some t ∧
      ∀ laps, runOn? t.handle laps (p'.woken t).1 (p'.woken t).2 = none := by
  cases hd : p.readiness id with
  | mk readiness p' =>
    simp only [turn?, hd] at hn
    cases readiness with
    | due =>
      simp only [Option.map_eq_none_iff] at hn
      cases ht : p'.thread? id with
      | none =>
        have hstep := hn 0
        unfold step? at hstep
        rw [ht] at hstep
        cases hstep
      | some t => exact ⟨p', t, rfl, ht, fun laps => (step?_eq_none_iff ht).1 (hn laps)⟩
    | _ => cases hn 0

theorem turn?_eq_none_iff (hp : p.Obeys .loyal) (hlib : p.library = Script.library setting) :
    (∀ laps, p.turn? laps id = none) ↔ Runaway setting p id := by
  have hready := obeys_readiness hp id
  have hrlib := (library_readiness p id).trans hlib
  constructor
  · intro hn
    obtain ⟨p', t, hd, ht, hstuck⟩ := due_of_stuck hn
    rw [hd] at hready hrlib
    have hmem : t ∈ p'.threads := List.mem_of_find?_eq_some ht
    obtain ⟨c, hr, he⟩ := jumps_of_runOn (keeps_woken (hready.bodies t hmem))
      ((library_woken p' t).trans hrlib) hstuck
    exact .mk hd ht hr he
  · rintro ⟨hd, ht, hr, he⟩ laps
    rename_i t p' c
    rw [hd] at hrlib
    unfold turn?
    rw [hd]
    dsimp only
    rw [Option.map_eq_none_iff, step?_eq_none_iff ht]
    exact runOn?_of_endless ((library_woken p' t).trans hrlib) hr he laps

end Turn

def rates? (p : Project) (h : Handle) : Option LoopRates :=
  (p.thread? h.thread).map (·.mailbox.rates)

end Project

def World.Cloned (w : World) (id : Nat) : Prop :=
  ∀ i ∈ w.instances, i.id = id → i.isClone = true

theorem Project.Changes.cloned {σ : Scope} {p q : Project} (hc : Changes σ p q) {id : Nat}
    (hid : id ≤ p.world.lastInstance) (h : p.world.Cloned id) : q.world.Cloned id := by
  intro j hj hjid
  obtain ⟨i, hi, hij, -, hpar⟩ := hc.precedes.survivors j hj (hjid ▸ hid)
  have hclone := h i hi (hij.trans hjid)
  rwa [Instance.isClone, hpar] at hclone

theorem LoopRates.lap_of_carries {rates : LoopRates} (hz : rates.top.perFrame ≠ 0)
    (hl : rates.lap.1 = false) : rates.top.done + 1 < rates.top.perFrame ∧
      rates.lap.2.top = { rates.top with done := rates.top.done + 1 } := by
  unfold lap at hl ⊢
  rw [if_neg hz] at hl ⊢
  split at hl
  · cases hl
  · rename_i hlt
    rw [if_neg hlt]
    exact ⟨Nat.lt_of_not_le hlt, rfl⟩

namespace Script.Calling

variable {setting : Setting} {h : Handle} {c c' : Calling} {pause : Pause}
  {calls : Nat → Calling} {pauses : Nat → Pause}

theorem Leads.changes (hl : c.Leads setting h pause c') :
    Changes (.under .any) c.project c'.project := by
  obtain ⟨q, hd, hc⟩ := deeds_run (κ := .any) (h := h) trivial c.project
    (b := Script.library setting (c.jump h))
  rw [run_of_leads hl] at hc
  have hq := changes_of_deeds (σ := .under .any) (licensed_under _ h) hd
  cases hc with
  | jumps ht => exact hq

theorem Leads.passes (hl : c.Leads setting h pause c') :
    pause = .nextFrame ∨ pause = .deleteThisClone := by
  cases hl with
  | mk hr hd hn hp =>
    generalize Directive.pause _ = pause at hp
    cases hp with
    | yield ht hl => exact .inl rfl
    | kept hi hc => exact .inr rfl

theorem world_of_kept {q : Project} {i : Instance} (hi : q.world.instance? h.owner = some i)
    (hc : i.isClone = false) : (q.begin h Pause.deleteThisClone.wait).2.world = q.world := by
  simp only [Pause.wait, begin, World.deleteInstance_founder hi hc, if_true]
  rfl

theorem Leads.nextFrame (hl : c.Leads setting h pause c') (hc : c'.project.world.Cloned h.owner) :
    pause = .nextFrame := by
  cases hl with
  | mk hr hd hn hp =>
    rename_i f q d function
    obtain ⟨pause, next⟩ := d
    cases hp with
    | yield ht hl => rfl
    | kept hi hk =>
      obtain ⟨hmem, hid⟩ := World.mem_of_instance? hi
      rw [world_of_kept hi hk] at hc
      rw [hc _ hmem hid] at hk
      cases hk

theorem Leads.rates (hl : c.Leads setting h .nextFrame c') :
    ∃ rates, (c.result setting h).2.rates? h = some rates ∧ rates.lap.1 = false ∧
      c'.project.rates? h = some rates.lap.2 := by
  generalize hpause : Pause.nextFrame = pause at hl
  cases hl with
  | mk hr hd hn hp =>
    rename_i f q d function
    obtain ⟨pause, next⟩ := d
    cases hp with
    | kept hi hk => cases hpause
    | yield ht hl =>
      rename_i t
      refine ⟨t.mailbox.rates, ?_, hl, ?_⟩
      · rw [hr, rates?, ht]
        rfl
      · simp only [Pause.wait, begin, ht, hl, Bool.false_eq_true, if_false, rates?, updateMailbox]
        rw [thread?_updateThread, ht]
        · rfl
        · exact fun _ => rfl

theorem endless_of_delete {function : String} {issued : Nat} {p : Project} {i : Instance}
    (hcall : Program.callFor setting h function [] =
      .done ⟨.ok (.directive ⟨.deleteThisClone, some function⟩), issued⟩)
    (hi : p.world.instance? h.owner = some i) (hc : i.isClone = false) :
    Calling.Endless setting h ⟨function, [], p⟩ := by
  refine endless_of_progress (P := fun c => c.function = function ∧ c.arguments = [] ∧
    c.project.world.instance? h.owner = some i) ?_ ⟨rfl, rfl, hi⟩
  rintro ⟨again, _, q⟩ ⟨rfl, rfl, hq⟩
  have hresult : result setting h ⟨again, [], q⟩ =
      (⟨.ok (.directive ⟨.deleteThisClone, some again⟩), issued⟩, q) := by
    simp only [result, hcall]
    rfl
  refine ⟨.deleteThisClone, _, .mk (d := ⟨.deleteThisClone, some again⟩) hresult rfl rfl
    (.kept hq hc), rfl, rfl, ?_⟩
  exact (congrArg (·.instance? h.owner) (world_of_kept hq hc)).trans hq

namespace Spins

theorem changes (hs : Spins setting h calls pauses) (n : Nat) :
    Changes (.under .any) (calls 0).project (calls n).project := by
  induction n with
  | zero => exact .refl
  | succ n ih => exact ih.trans (hs n).changes

theorem nextFrame (hs : Spins setting h calls pauses)
    (hid : h.owner ≤ (calls 0).project.world.lastInstance)
    (hc : (calls 0).project.world.Cloned h.owner) (n : Nat) : pauses n = .nextFrame :=
  (hs n).nextFrame ((hs.changes (n + 1)).cloned hid hc)

theorem counts (hs : Spins setting h calls pauses) {m : Nat} (hp : pauses m = .nextFrame)
    (hk : ((calls m).result setting h).2.rates? h = (calls m).project.rates? h)
    (hz : ∀ rates, (calls m).project.rates? h = some rates → rates.top.perFrame ≠ 0) :
    ∃ rates rates', (calls m).project.rates? h = some rates ∧
      (calls (m + 1)).project.rates? h = some rates' ∧ rates.top.done + 1 < rates.top.perFrame ∧
        rates'.top = { rates.top with done := rates.top.done + 1 } := by
  have hl := hs m
  rw [hp] at hl
  obtain ⟨rates, hr, hlap, hr'⟩ := hl.rates
  rw [hk] at hr
  obtain ⟨hlt, htop⟩ := LoopRates.lap_of_carries (hz rates hr) hlap
  exact ⟨rates, rates.lap.2, hr, hr', hlt, htop⟩

theorem recurs (hs : Spins setting h calls pauses) (n : Nat) :
    ∃ m, n ≤ m ∧ (pauses m = .deleteThisClone ∨
      ((calls m).result setting h).2.rates? h ≠ (calls m).project.rates? h ∨
        ∃ rates, (calls m).project.rates? h = some rates ∧ rates.top.perFrame = 0) := by
  by_contra hno
  have hn : ∀ m, n ≤ m → pauses m = .nextFrame ∧
      ((calls m).result setting h).2.rates? h = (calls m).project.rates? h ∧
        ∀ rates, (calls m).project.rates? h = some rates → rates.top.perFrame ≠ 0 :=
    fun m hm => by
      refine ⟨(hs m).passes.resolve_right fun hp => hno ⟨m, hm, .inl hp⟩, ?_, fun rates hr hz =>
        hno ⟨m, hm, .inr (.inr ⟨rates, hr, hz⟩)⟩⟩
      exact Classical.byContradiction fun hne => hno ⟨m, hm, .inr (.inl hne)⟩
  have hcounts := fun m hm => hs.counts (hn m hm).1 (hn m hm).2.1 (hn m hm).2.2
  -- A rate that nothing else touches counts the laps, and would have yielded by now.
  obtain ⟨first, -, hfirst, -⟩ := hcounts n (Nat.le_refl n)
  have hall : ∀ k, ∃ rates, (calls (n + k)).project.rates? h = some rates ∧
      rates.top.perFrame = first.top.perFrame ∧ k ≤ rates.top.done := fun k => by
    induction k with
    | zero => exact ⟨first, hfirst, rfl, Nat.zero_le _⟩
    | succ k ih =>
      obtain ⟨rates, hr, hrate, hdone⟩ := ih
      obtain ⟨_, rates', hr₁, hr', -, htop⟩ := hcounts (n + k) (Nat.le_add_right n k)
      rw [hr] at hr₁
      cases hr₁
      exact ⟨rates', hr', by rw [htop]; exact hrate, by rw [htop]; exact Nat.succ_le_succ hdone⟩
  obtain ⟨rates, hr, hrate, hdone⟩ := hall first.top.perFrame
  obtain ⟨_, -, hr₁, -, hlt, -⟩ := hcounts _ (Nat.le_add_right n first.top.perFrame)
  rw [hr] at hr₁
  cases hr₁
  omega

end Spins

end Script.Calling

theorem Project.library_load {source : String} {config : Config} {p : Project}
    (h : Project.load source config = (.ok (), p)) :
    ∃ program, Program.ofText? source = some program ∧
      p.library = Script.library ⟨program, true, config.maxScriptOperations⟩ := by
  unfold load at h
  -- These three stay closed: on an unknown script the kernel would go on evaluating them.
  obtain ⟨made, hmade⟩ : ∃ made, Project.new config = made := ⟨_, rfl⟩
  obtain ⟨parsed, hparsed⟩ : ∃ parsed, Program.ofText? source = parsed := ⟨_, rfl⟩
  obtain ⟨run, hrun⟩ : ∃ run, Dialogue.run Loading.answer = run := ⟨_, rfl⟩
  rw [hmade, hparsed, hrun] at h
  cases made with
  | error e => cases h
  | ok p' =>
    cases parsed with
    | none => cases h
    | some program =>
      refine ⟨program, hparsed, ?_⟩
      dsimp only at h
      split at h
      · cases h
      · cases h
      · refine registerAll_invariant
          (I := fun p => p.library = Script.library ⟨program, true, config.maxScriptOperations⟩)
          (fun p c kind _ hp => ?_) rfl h
        have hc : Changes (.under .any) p (p.register c kind).2 :=
          changes_register p c kind fun _ _ _ => trivial
        exact hc.library.trans hp

theorem Project.load_of_isOk {source : String} {config : Config}
    (h : (Project.load source config).1.isOk = true) :
    Project.load source config = (.ok (), (Project.load source config).2) := by
  cases hl : (Project.load source config).1 with
  | error e =>
    rw [hl] at h
    cases h
  | ok u => exact Prod.ext hl rfl

namespace Moment

variable {setting : Setting} {p q r : Project} {id : Nat} {ids : List Nat} {m : Moment}

theorem reachable_loyal {source : String} {config : Config}
    (h : Project.load source config = (.ok (), p)) : Reachable .loyal ⟨p, []⟩ := by
  obtain ⟨program, -, hlib⟩ := library_load h
  refine .start (.script h ?_ fun _ _ => rfl)
  rw [hlib]
  exact lawful_loyal _

theorem Reachable.pass_stuck (hm : Reachable .loyal ⟨p, ids⟩)
    (hlib : p.library = Script.library setting) :
    (∀ laps, pass? laps ids p = none) ↔ ∃ laps before id after earlier r,
      ids = before ++ id :: after ∧ pass? laps before p = some (earlier, r) ∧
        Runaway setting r id := by
  constructor
  · intro hn
    induction ids generalizing p with
    | nil => cases hn 0
    | cons id ids ih =>
      by_cases hs : ∀ laps, p.turn? laps id = none
      · exact ⟨0, [], id, ids, [], p, rfl, rfl, (turn?_eq_none_iff hm.obeys hlib).1 hs⟩
      · obtain ⟨laps, hs⟩ := not_forall.1 hs
        obtain ⟨⟨b, q⟩, hq⟩ := Option.ne_none_iff_exists'.1 hs
        have hstep : Step .loyal ⟨p, id :: ids⟩ ⟨q, ids⟩ := .turn hq
        have hrest : ∀ laps', pass? laps' ids q = none := fun laps' => by
          cases hp : pass? laps' ids q with
          | none => rfl
          | some result =>
            have hfirst := hn (max laps laps')
            simp only [pass?, turn?_mono (Nat.le_max_left laps laps') hq,
              pass?_mono (Nat.le_max_right laps laps') hp, Option.map_some] at hfirst
            cases hfirst
        obtain ⟨laps', before, id', after, earlier, r, rfl, hb, hr⟩ :=
          ih (hm.step hstep) ((hm.changes_of_step hstep).library.trans hlib) hrest
        refine ⟨max laps laps', id :: before, id', after, if b then id :: earlier else earlier, r,
          rfl, ?_, hr⟩
        simp only [pass?, turn?_mono (Nat.le_max_left laps laps') hq,
          pass?_mono (Nat.le_max_right laps laps') hb, Option.map_some]
  · rintro ⟨laps, before, id, after, earlier, r, rfl, hb, hr⟩ laps'
    cases hp : pass? laps' (before ++ id :: after) p with
    | none => rfl
    | some result =>
      obtain ⟨resumed, q⟩ := result
      obtain ⟨earlier', later, r', hb', ha, -⟩ := pass?_append hp
      obtain ⟨rfl, rfl⟩ := pass?_unique hb hb'
      obtain ⟨b, r', rest, ht, -, -⟩ := pass?_cons ha
      have hsteps : Relation.ReflTransGen (Step .loyal) ⟨p, before ++ id :: after⟩
          ⟨r, id :: after⟩ := path_pass (fun _ ht => .turn ht) hb
      have hrlib : r.library = Script.library setting :=
        (hm.changes_of_steps hsteps).library.trans hlib
      rw [(turn?_eq_none_iff (hm.steps hsteps).obeys hrlib).2 hr] at ht
      cases ht

theorem Reachable.cloned (hm : Reachable .loyal m) {i : Instance}
    (hi : m.project.world.instance? id = some i) (hc : i.isClone = true) :
    m.project.world.Cloned id := by
  obtain ⟨hmem, hid⟩ := World.mem_of_instance? hi
  intro j hj hjid
  rwa [hm.registered.eq_of_id hmem hj (hjid.trans hid.symm)]

-- What a resumption that never ends goes through.
structure Revolves (setting : Setting) (p : Project) (t : Thread) (calls : Nat → Calling)
    (pauses : Nat → Pause) : Prop where
  spins : Calling.Spins setting t.handle calls pauses
  passing : ∀ n, pauses n = .nextFrame ∨ pauses n = .deleteThisClone
  clone : ∀ {i : Instance}, p.world.instance? t.owner = some i → i.isClone = true →
    ∀ n, pauses n = .nextFrame
  recurs : ∀ n, ∃ m, n ≤ m ∧ (pauses m = .deleteThisClone ∨
    ((calls m).result setting t.handle).2.rates? t.handle ≠ (calls m).project.rates? t.handle ∨
      ∃ rates, (calls m).project.rates? t.handle = some rates ∧ rates.top.perFrame = 0)

theorem Reachable.revolves (hm : Reachable .loyal ⟨r, id :: ids⟩) (hr : Runaway setting r id) :
    ∃ t ∈ r.threads, t.id = id ∧ ∃ calls pauses, Revolves setting r t calls pauses := by
  obtain ⟨hd, ht, hrun, calls, pauses, rfl, hs⟩ := hr
  rename_i t' p'
  have hready : Changes (.under .any) r p' := by
    have hc : Changes (.under .any) r (r.readiness id).2 := changes_readiness trivial
    rwa [hd] at hc
  have hfirst : Changes (.under .any) r (calls 0).project := by
    obtain ⟨q, hdeeds, hcloses⟩ := deeds_run (κ := .any) (h := t'.handle) (b := (p'.woken t').1)
      trivial (p'.woken t').2
    rw [hrun] at hcloses
    have hq := changes_of_deeds (σ := .under .any) (licensed_under _ t'.handle) hdeeds
    cases hcloses with
    | jumps _ => exact hready.trans ((changes_woken trivial).trans hq)
  obtain ⟨change, hchange, hc⟩ := readiness_eq_updateThread r id
  rw [hd] at hchange
  have hmem' : t' ∈ (r.updateThread id change).threads := by
    rw [← hchange]
    exact List.mem_of_find?_eq_some ht
  obtain ⟨t, hmem, hcont⟩ := continues_of_mem_updateThread (fun t => (hc t).1) hmem'
  have hhandle : t.handle = t'.handle := by rw [Thread.handle, Thread.handle, hcont.id, hcont.owner]
  rw [← hhandle] at hs
  refine ⟨t, hmem, hcont.id.symm.trans (id_of_thread? ht), calls, pauses, hs, fun n => (hs n).passes,
    fun {i} hi hclone => ?_, hs.recurs⟩
  obtain ⟨himem, hiid⟩ := World.mem_of_instance? hi
  have hle : t.owner ≤ r.world.lastInstance := hiid ▸ hm.registered.allocated i himem
  exact hs.nextFrame (Nat.le_trans hle hfirst.precedes.lastInstance)
    (hfirst.cloned hle (hm.cloned hi hclone))

theorem scripted_frame_returns {source : String} {config : Config} {p₀ : Project}
    (hload : Project.load source config = (.ok (), p₀))
    (hs : Relation.ReflTransGen (Step .loyal) ⟨p₀, []⟩ m) :
    ∃ program, Program.ofText? source = some program ∧
      let setting : Setting := ⟨program, true, config.maxScriptOperations⟩
      (∀ {p : Project}, m = ⟨p, []⟩ → ((∀ laps, p.frame? laps = none) ↔
        ∃ laps before id after earlier r, p.prepare.threads.map (·.id) = before ++ id :: after ∧
          pass? laps before p.prepare = some (earlier, r) ∧ Runaway setting r id)) ∧
      ∀ {r : Project} {id : Nat} {ids : List Nat}, m = ⟨r, id :: ids⟩ →
        ((∀ laps, r.turn? laps id = none) ↔ Runaway setting r id) ∧
          (Runaway setting r id →
            ∃ t ∈ r.threads, t.id = id ∧ ∃ calls pauses, Revolves setting r t calls pauses) := by
  obtain ⟨program, hparse, hlib⟩ := library_load hload
  have hm : Reachable .loyal m := (reachable_loyal hload).steps hs
  have hmlib : m.project.library = Script.library ⟨program, true, config.maxScriptOperations⟩ :=
    ((reachable_loyal hload).changes_of_steps hs).library.trans hlib
  refine ⟨program, hparse, ?_, ?_⟩
  · rintro p rfl
    have hstart : Step .loyal ⟨p, []⟩ ⟨p.prepare, p.prepare.threads.map (·.id)⟩ := .frame
    exact (hm.step hstart).pass_stuck ((hm.changes_of_step hstart).library.trans hmlib)
  · rintro r id ids rfl
    exact ⟨turn?_eq_none_iff hm.obeys hmlib, hm.revolves⟩

section Spinning

-- On an original the deletion does nothing, and the function is called again.
def spinner : String :=
  "fn f() \x7b delete_this_clone(\"f\") \x7d register(sprite(\"A\").when(\"green-flag\", \"f\"));"

def spinning : Project := (Project.load spinner {}).2.greenFlag

def respins : Inquiry Finish → Bool
  | .done ⟨.ok (.directive ⟨.deleteThisClone, some "f"⟩), _⟩ => true
  | _ => false

def spinsFirst (t : Thread) : Bool :=
  match t.body with
  | .start (.jump ⟨⟨1, 1⟩, "f", []⟩) => t.id = 1 && t.owner = 1
  | _ => false

theorem load_spinner : Project.load spinner {} = (.ok (), (Project.load spinner {}).2) :=
  load_of_isOk (by decide +kernel)

theorem step_spinning : Step .loyal ⟨(Project.load spinner {}).2, []⟩ ⟨spinning, []⟩ := by
  have hflag : ∀ p : Project, Step .loyal ⟨p, []⟩ ⟨Operation.greenFlag.apply p, []⟩ := fun _ =>
    .operate trivial
  exact hflag _

theorem callFor_spinner {program : Program} (hp : Program.ofText? spinner = some program) :
    ∃ issued, Program.callFor ⟨program, true, ({} : Config).maxScriptOperations⟩ ⟨1, 1⟩ "f" [] =
      .done ⟨.ok (.directive ⟨.deleteThisClone, some "f"⟩), issued⟩ := by
  have hall : (Program.ofText? spinner).all (fun program => respins (Program.callFor
      ⟨program, true, ({} : Config).maxScriptOperations⟩ ⟨1, 1⟩ "f" [])) = true := by
    decide +kernel
  rw [hp, Option.all_some] at hall
  unfold respins at hall
  split at hall
  · rename_i issued he
    exact ⟨issued, he⟩
  · cases hall

theorem prepared_spinning : spinning.prepare.threads.map (·.id) = [1] ∧
    (spinning.prepare.readiness 1).1 = .due ∧
    ((spinning.prepare.readiness 1).2.thread? 1).any spinsFirst = true ∧
    (spinning.prepare.world.instance? 1).any (fun i => !i.isClone) = true := by
  decide +kernel

theorem runaway_spinning {program : Program} (hp : Program.ofText? spinner = some program) :
    Runaway ⟨program, true, ({} : Config).maxScriptOperations⟩ spinning.prepare 1 := by
  obtain ⟨-, hdue, hthread, hinstance⟩ := prepared_spinning
  obtain ⟨t, ht, hfirst⟩ := (Option.any_eq_true _ _).1 hthread
  obtain ⟨i, hi, hkept⟩ := (Option.any_eq_true _ _).1 hinstance
  unfold spinsFirst at hfirst
  split at hfirst
  · rename_i hbody
    have hhandle : t.handle = ⟨1, 1⟩ := by
      simp only [Bool.and_eq_true, decide_eq_true_eq] at hfirst
      rw [Thread.handle, hfirst.1, hfirst.2]
    obtain ⟨issued, hcall⟩ := callFor_spinner hp
    have hworld : ((spinning.prepare.readiness 1).2.woken t).2.world.instance? 1 = some i := by
      rw [world_woken, world_readiness, hi]
    refine runaway_of_start (Prod.ext hdue rfl) ht (hhandle ▸ hbody) (hhandle ▸ ?_)
    exact Calling.endless_of_delete hcall hworld (by simpa using hkept)
  · cases hfirst

theorem spinning_stuck (laps : Nat) : spinning.frame? laps = none := by
  obtain ⟨program, hparse, hlib⟩ := library_load load_spinner
  have hload := reachable_loyal load_spinner
  have hpath : Relation.ReflTransGen (Step .loyal) ⟨(Project.load spinner {}).2, []⟩
      ⟨spinning.prepare, spinning.prepare.threads.map (·.id)⟩ := .tail (.single step_spinning) .frame
  have hlast := (hload.changes_of_steps hpath).library.trans hlib
  exact ((hload.steps hpath).pass_stuck hlast).2
    ⟨0, [], 1, [], [], _, prepared_spinning.1, rfl, runaway_spinning hparse⟩ laps

theorem spinning_never_returns :
    ∃ p, Project.load spinner {} = (.ok (), p) ∧ Reachable .loyal ⟨p.greenFlag, []⟩ ∧
      ∀ laps, p.greenFlag.frame? laps = none := by
  exact ⟨_, load_spinner, (reachable_loyal load_spinner).step step_spinning, spinning_stuck⟩

theorem spinning_runaway :
    ∃ program laps before id after earlier r, Program.ofText? spinner = some program ∧
      spinning.prepare.threads.map (·.id) = before ++ id :: after ∧
        pass? laps before spinning.prepare = some (earlier, r) ∧
          Runaway ⟨program, true, ({} : Config).maxScriptOperations⟩ r id := by
  obtain ⟨program, hparse, hframe, -⟩ :=
    scripted_frame_returns load_spinner (.single step_spinning)
  obtain ⟨laps, before, id, after, earlier, r, hids, hb, hr⟩ := (hframe rfl).1 spinning_stuck
  exact ⟨program, laps, before, id, after, earlier, r, hparse, hids, hb, hr⟩

end Spinning

end Moment

end SpriteStage

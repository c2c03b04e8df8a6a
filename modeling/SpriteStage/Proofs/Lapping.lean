import SpriteStage.Proofs.Countdown

namespace SpriteStage

namespace LoopRates

inductive Act where
  | push (perFrame : Nat)
  | pop
  | lap

-- What an act says, if it says anything: whether there was a rate to go back to, or whether the loop
-- yields after the lap.
def act : Act → LoopRates → Option Bool × LoopRates
  | .push perFrame, r => (none, r.push perFrame)
  | .pop, r => (some r.pop?.isSome, r.pop)
  | .lap, r => (some r.lap.1, r.lap.2)

end LoopRates

-- A rate and all the laps that have been made while it was on top.
structure Level where
  perFrame : Nat
  laps : Nat := 0

namespace Level

def yields (t : Level) : Bool := decide (0 < t.perFrame ∧ t.perFrame ∣ t.laps)

def rate (t : Level) : LoopRate := ⟨t.perFrame, if t.perFrame = 0 then 0 else t.laps % t.perFrame⟩

end Level

structure Levels where
  top : Level
  below : List Level := []

namespace Levels

def act : LoopRates.Act → Levels → Option Bool × Levels
  | .push perFrame, s => (none, ⟨⟨perFrame, 0⟩, s.top :: s.below⟩)
  | .pop, s =>
    match s.below with
    | [] => (some false, s)
    | level :: below => (some true, ⟨level, below⟩)
  | .lap, s =>
    let top := { s.top with laps := s.top.laps + 1 }
    (some top.yields, { s with top := top })

def rates (s : Levels) : LoopRates := ⟨s.top.rate, s.below.map Level.rate⟩

end Levels

section Levelled

variable {σ : Type}

theorem succ_mod {n : Nat} (hn : 0 < n) (k : Nat) :
    (k + 1) % n = if n ≤ k % n + 1 then 0 else k % n + 1 := by
  have hlt := Nat.mod_lt k hn
  rw [← Nat.mod_add_mod]
  split
  · have he : k % n + 1 = n := by omega
    rw [he, Nat.mod_self]
  · rename_i hle
    exact Nat.mod_eq_of_lt (Nat.lt_of_not_le hle)

-- One lap more, as the rate counts it and as it is meant.
theorem Level.lap_rate (level : Level) (below : List LoopRate) :
    let next : Level := { level with laps := level.laps + 1 }
    LoopRates.lap ⟨level.rate, below⟩ = (next.yields, ⟨next.rate, below⟩) := by
  intro next
  unfold LoopRates.lap
  by_cases hz : level.perFrame = 0
  · simp [next, Level.yields, Level.rate, hz]
  · have hmod := succ_mod (Nat.pos_of_ne_zero hz) level.laps
    have hrate : level.rate = ⟨level.perFrame, level.laps % level.perFrame⟩ := by
      simp [Level.rate, hz]
    have hnext : next.rate = ⟨level.perFrame, (level.laps + 1) % level.perFrame⟩ := by
      simp [next, Level.rate, hz]
    have hyields : next.yields = decide (level.perFrame ≤ level.laps % level.perFrame + 1) := by
      refine decide_eq_decide.2 ?_
      simp only [next, Nat.dvd_iff_mod_eq_zero, hmod]
      split <;> simp_all [Nat.pos_iff_ne_zero]
    rw [hrate, hnext, hyields, hmod]
    simp only [if_neg hz]
    split <;> rename_i hle <;> simp [hle]

-- Counting from zero again after each yield comes to the same as counting all laps.
theorem Levels.act_rates (a : LoopRates.Act) (s : Levels) :
    s.rates.act a = ((s.act a).1, (s.act a).2.rates) := by
  obtain ⟨top, below⟩ := s
  cases a with
  | push perFrame =>
    have hnew : (⟨perFrame, 0⟩ : Level).rate = ⟨perFrame, 0⟩ := by simp [Level.rate]
    simp only [LoopRates.act, Levels.act, rates, LoopRates.push, hnew, List.map_cons]
  | pop => cases below <;> rfl
  | lap => simp only [LoopRates.act, Levels.act, rates, top.lap_rate]

def acts (act : LoopRates.Act → σ → Option Bool × σ) :
    List LoopRates.Act → σ → List (Option Bool) × σ
  | [], s => ([], s)
  | a :: later, s => ((act a s).1 :: (acts act later (act a s).2).1, (acts act later (act a s).2).2)

theorem acts_rates (later : List LoopRates.Act) (s : Levels) :
    acts LoopRates.act later s.rates =
      ((acts Levels.act later s).1, (acts Levels.act later s).2.rates) := by
  induction later generalizing s with
  | nil => rfl
  | cons a later ih => simp only [acts, s.act_rates, ih]

-- A lap that is counted never takes the count over the rate.
def LoopRate.Within (rate : LoopRate) : Prop :=
  rate.perFrame = 0 ∧ rate.done = 0 ∨ rate.done + 1 ≤ rate.perFrame

theorem Level.within_rate (level : Level) : level.rate.Within := by
  unfold rate
  split
  · rename_i hz
    exact .inl ⟨hz, rfl⟩
  · rename_i hz
    exact .inr (Nat.mod_lt _ (Nat.pos_of_ne_zero hz))

-- How rates act that are created with a default, as against levels that count all their laps.
structure LoopRates.Counts (default : Nat) (later : List LoopRates.Act) : Prop where
  refines : acts LoopRates.act later (.new default) =
    ((acts Levels.act later ⟨⟨default, 0⟩, []⟩).1, (acts Levels.act later ⟨⟨default, 0⟩, []⟩).2.rates)
  nonempty : 1 ≤ (acts LoopRates.act later (.new default)).2.depth
  kept : (acts LoopRates.act later (.new default)).2.depth = 1 →
    (acts LoopRates.act later (.new default)).2.act .pop =
      (some false, (acts LoopRates.act later (.new default)).2)
  popped : (acts LoopRates.act later (.new default)).2.depth ≠ 1 → ∃ r : LoopRates,
    (acts LoopRates.act later (.new default)).2.act .pop = (some true, r) ∧
      (acts LoopRates.act later (.new default)).2.depth = r.depth + 1
  within : ∀ rate ∈ (acts LoopRates.act later (.new default)).2.top ::
    (acts LoopRates.act later (.new default)).2.below, rate.Within

theorem LoopRates.counts (default : Nat) (later : List LoopRates.Act) :
    LoopRates.Counts default later := by
  have hnew : LoopRates.new default = (⟨⟨default, 0⟩, []⟩ : Levels).rates := by
    simp [LoopRates.new, Levels.rates, Level.rate]
  have hrefines := acts_rates later ⟨⟨default, 0⟩, []⟩
  rw [← hnew] at hrefines
  refine ⟨hrefines, Nat.le_add_left 1 _, ?_, ?_, ?_⟩
  · generalize (acts LoopRates.act later (.new default)).2 = r
    obtain ⟨top, below⟩ := r
    cases below with
    | nil => exact fun _ => rfl
    | cons rate below => nofun
  · generalize (acts LoopRates.act later (.new default)).2 = r
    obtain ⟨top, below⟩ := r
    cases below with
    | nil => exact fun h => absurd rfl h
    | cons rate below => exact fun _ => ⟨⟨rate, below⟩, rfl, rfl⟩
  · rw [hrefines]
    generalize (acts Levels.act later ⟨⟨default, 0⟩, []⟩).2 = s
    intro rate hr
    rcases List.mem_cons.1 hr with rfl | hr
    · exact s.top.within_rate
    · obtain ⟨level, -, rfl⟩ := List.mem_map.1 hr
      exact level.within_rate

end Levelled

def Exchange.yields : Exchange → Bool
  | .pause _ .yield => true
  | _ => false

namespace Project

variable {κ : Conduct} {h : Handle} {p q : Project} {t u : Thread} {m : Mailbox} {id : Nat}
  {b b' : Behavior} {es : List Exchange}

section Carries

structure Carries (p : Project) (id : Nat) (m : Mailbox) : Prop where
  has : p.Has id
  only : ∀ t ∈ p.threads, t.id = id → t.mailbox = m

theorem Carries.of_mem (hp : p.Ranked) (ht : t ∈ p.threads) : p.Carries t.id t.mailbox :=
  ⟨⟨t, ht, rfl⟩, fun _ hu hid => congrArg Thread.mailbox (hp.eq_of_id ht hu hid)⟩

theorem Carries.thread? (hc : p.Carries id m) : ∃ t, p.thread? id = some t ∧ t.mailbox = m := by
  obtain ⟨t, ht, hid⟩ := hc.has
  cases hf : p.thread? id with
  | none => exact absurd (beq_iff_eq.2 hid) (List.find?_eq_none.1 hf t ht)
  | some u => exact ⟨u, rfl, hc.only u (List.mem_of_find?_eq_some hf) (id_of_thread? hf)⟩

theorem Carries.updateThread {change : Thread → Thread} (hc : p.Carries id m)
    (hid : ∀ t, (change t).id = t.id) (hm : ∀ t, (change t).mailbox = t.mailbox) (other : Nat) :
    (p.updateThread other change).Carries id m := by
  obtain ⟨t, ht, htid⟩ := hc.has
  refine ⟨⟨_, List.mem_map.2 ⟨t, ht, rfl⟩, ?_⟩, fun u hu huid => ?_⟩
  · split
    · exact (hid t).trans htid
    · exact htid
  · obtain ⟨s, hs, ⟨-, rfl⟩ | ⟨-, rfl⟩⟩ := mem_updateThread hu
    · exact (hm s).trans (hc.only s hs ((hid s).symm.trans huid))
    · exact hc.only _ hs huid

theorem Carries.updateMailbox (hc : p.Carries id m) (change : Mailbox → Mailbox) :
    (p.updateMailbox id change).Carries id (change m) := by
  obtain ⟨t, ht, htid⟩ := hc.has
  refine ⟨⟨_, List.mem_map.2 ⟨t, ht, rfl⟩, ?_⟩, fun u hu huid => ?_⟩
  · split <;> exact htid
  · obtain ⟨s, hs, ⟨hsid, rfl⟩ | ⟨hne, rfl⟩⟩ := mem_updateThread hu
    · exact congrArg change (hc.only s hs hsid)
    · exact absurd huid hne

end Carries

section Laps

-- What a body does in one go on its way to being another one.
inductive Leads (h : Handle) : Behavior → Project → List Exchange → Behavior → Project → Prop where
  | refl {b : Behavior} {p : Project} : Leads h b p [] b p
  | call {c : Call} {next : c.Reply → Behavior} {p q : Project} {es : List Exchange} {b : Behavior}
      (hl : Leads h (next (p.answer c).1) (p.answer c).2 es b q) :
      Leads h (.call c next) p (.call c :: es) b q
  | passes {wait : Wait} {next : Except CallError wait.Reply → Behavior}
      {outcome : Except CallError wait.Reply} {p mid q : Project} {es : List Exchange} {b : Behavior}
      (hw : p.begin h wait = (.passes outcome, mid)) (hl : Leads h (next outcome) mid es b q) :
      Leads h (.pause wait next) p (.pause h wait :: es) b q
  | jump {target : Jump} {p q : Project} {es : List Exchange} {b : Behavior}
      (hl : Leads h (p.library target) p es b q) : Leads h (.jump target) p es b q

theorem Leads.runOn (hl : Leads h b p es b' q) {laps : Nat} {r : Resumption} {last : Project}
    (hr : runOn? h laps b p = some (r, last)) : ∃ left, runOn? h left b' q = some (r, last) ∧
      exchangesOn h laps b p = es ++ exchangesOn h left b' q := by
  induction hl generalizing laps with
  | refl => exact ⟨laps, hr, rfl⟩
  | @call c next p q es b hl ih =>
    cases laps with
    | zero => cases hr
    | succ laps =>
      have hr : runOn? h (laps + 1) (next (p.answer c).1) (p.answer c).2 = some (r, last) := hr
      obtain ⟨left, hleft, he⟩ := ih hr
      exact ⟨left, hleft, congrArg (List.cons _) he⟩
  | @passes wait next outcome p mid q es b hw hl ih =>
    cases laps with
    | zero => cases hr
    | succ laps =>
      have hr : runOn? h (laps + 1) (next outcome) mid = some (r, last) := by
        simp only [runOn?, run, hw] at hr ⊢
        exact hr
      obtain ⟨left, hleft, he⟩ := ih hr
      refine ⟨left, hleft, ?_⟩
      simp only [exchangesOn, exchanges, run, hw, List.cons_append] at he ⊢
      rw [he]
  | jump hl ih =>
    cases laps with
    | zero => cases hr
    | succ laps => exact ih hr

theorem Leads.trans {b'' : Behavior} {r : Project} {later : List Exchange} (hl : Leads h b p es b' q)
    (hl' : Leads h b' q later b'' r) : Leads h b p (es ++ later) b'' r := by
  induction hl with
  | refl => exact hl'
  | call hl ih => exact .call (ih hl')
  | passes hw hl ih => exact .passes hw (ih hl')
  | jump hl ih => exact .jump (ih hl')

theorem Leads.deeds (hl : Leads h b p es b' q) (hk : κ.keeps h b) (hlib : Lawful κ p.library) :
    Deeds κ h p q := by
  induction hl with
  | refl => exact .refl
  | call hl ih => exact .head (.call hk) (ih (κ.call hk _) ((library_answer _ _).symm ▸ hlib))
  | passes hw hl ih =>
    have hmid := (congrArg (·.2.library) hw).symm.trans (library_begin _ h _)
    exact .head (.passed hw) (ih (κ.pause hk _) (hmid.symm ▸ hlib))
  | jump hl ih => exact ih (hlib _ _ hk) hlib

theorem Leads.library (hl : Leads h b p es b' q) : q.library = p.library := by
  induction hl with
  | refl => rfl
  | call hl ih => exact ih.trans (library_answer _ _)
  | passes hw hl ih =>
    exact ih.trans ((congrArg (·.2.library) hw).symm.trans (library_begin _ h _))
  | jump hl ih => exact ih

-- A body that makes so many laps, each in one go and with the mailbox as it was at its end. What it
-- does in a lap may hang on the project that it finds.
def Loops (library : Library) (h : Handle) : Nat → Behavior → Prop
  | 0, _ => True
  | left + 1, b => ∀ p m, p.library = library → p.Carries h.thread m → m.resume = none →
    ∃ es next q, Leads h b p es (.pause .yield next) q ∧ es.countP Exchange.yields = 0 ∧
      q.Carries h.thread m ∧ Loops library h left (next (.ok ()))

theorem begin_yield (hc : p.Carries h.thread m) : p.begin h .yield =
    if m.rates.lap.1 then (.suspends .nextFrame,
      p.updateMailbox h.thread fun mail => { mail with rates := m.rates.lap.2 })
    else (.passes (.ok ()), p.updateMailbox h.thread fun mail =>
      { mail with rates := m.rates.lap.2, resume := none }) := by
  obtain ⟨t, ht, rfl⟩ := hc.thread?
  unfold begin
  rw [ht]

variable {n done laps : Nat} {below : List LoopRate} {r : Resumption} {last : Project}

-- The lap that comes up to the rate stops the body, and the count begins again.
theorem stops_at_rate {next : Except CallError (Wait.Reply .yield) → Behavior}
    (hc : p.Carries h.thread m) (hm : m.rates = ⟨⟨n, done⟩, below⟩) (hn : 0 < n) (hlast : n ≤ done + 1)
    (hr : runOn? h (laps + 1) (.pause .yield next) p = some (r, last)) :
    r = .suspended .nextFrame (.waiting .yield next) ∧
      last.Carries h.thread { m with pending := none, rates := ⟨⟨n, 0⟩, below⟩ } ∧
      exchangesOn h (laps + 1) (.pause .yield next) p = [.pause h .yield] := by
  have hlap : m.rates.lap = (true, ⟨⟨n, 0⟩, below⟩) := by
    rw [hm]
    simp only [LoopRates.lap, if_neg (Nat.pos_iff_ne_zero.1 hn), if_pos hlast]
  have hbegin := begin_yield hc
  rw [hlap, if_pos rfl] at hbegin
  simp only [runOn?, run, hbegin, Option.some.injEq, Prod.mk.injEq] at hr
  obtain ⟨rfl, rfl⟩ := hr
  refine ⟨rfl, (hc.updateMailbox _).updateMailbox _, ?_⟩
  simp only [exchangesOn, exchanges, run, hbegin, List.append_nil]

theorem leads_below_rate {next : Except CallError (Wait.Reply .yield) → Behavior}
    (hc : p.Carries h.thread m) (hm : m.rates = ⟨⟨n, done⟩, below⟩) (hlt : done + 1 < n) :
    ∃ q, Leads h (.pause .yield next) p [.pause h .yield] (next (.ok ())) q ∧
      q.Carries h.thread { m with rates := ⟨⟨n, done + 1⟩, below⟩, resume := none } := by
  have hlap : m.rates.lap = (false, ⟨⟨n, done + 1⟩, below⟩) := by
    rw [hm]
    simp only [LoopRates.lap, if_neg (Nat.ne_of_gt (Nat.zero_lt_of_lt hlt)),
      if_neg (Nat.not_le_of_lt hlt)]
  have hbegin := begin_yield hc
  rw [hlap, if_neg Bool.false_ne_true] at hbegin
  exact ⟨_, .passes hbegin .refl, hc.updateMailbox _⟩

-- Where a body stands that had so many laps to make and was stopped at the end of one.
structure Rests (library : Library) (h : Handle) (left : Nat) (m : Mailbox) (r : Resumption)
    (last : Project) : Prop where
  body : ∃ next, r = .suspended .nextFrame (.waiting .yield next) ∧
    Loops library h left (next (.ok ()))
  carries : last.Carries h.thread m

-- A loop goes on within a turn until its rate has been reached or its laps have been made.
theorem runOn_loops {library : Library} {left : Nat} (hl : Loops library h left b)
    (hlib : p.library = library) (hc : p.Carries h.thread m) (hm : m.rates = ⟨⟨n, done⟩, below⟩)
    (hd : done < n) (hres : m.resume = none) (hr : runOn? h laps b p = some (r, last)) :
    ∃ made rest, exchangesOn h laps b p = made ++ rest ∧
      made.countP Exchange.yields = min (n - done) left ∧
      (n - done ≤ left → rest = [] ∧ Rests library h (left - (n - done))
        { m with pending := none, rates := ⟨⟨n, 0⟩, below⟩ } r last) := by
  induction left generalizing b p done laps m with
  | zero =>
    refine ⟨[], exchangesOn h laps b p, rfl, ?_, fun hle => ?_⟩
    · rw [Nat.min_zero]
      rfl
    · omega
  | succ left ih =>
    obtain ⟨es, next, q, hleads, hes, hq, hnext⟩ := hl p m hlib hc hres
    obtain ⟨laps', hr', hex⟩ := hleads.runOn hr
    have hyields : Exchange.yields (.pause h .yield) = true := rfl
    by_cases hlast : n ≤ done + 1
    · cases laps' with
      | zero => cases hr'
      | succ laps' =>
        obtain ⟨rfl, hcarries, he⟩ := stops_at_rate hq hm (Nat.zero_lt_of_lt hd) hlast hr'
        have hone : n - done = 1 := by omega
        refine ⟨es ++ [.pause h .yield], [], ?_, ?_, fun _ => ⟨rfl, ⟨next, rfl, ?_⟩, hcarries⟩⟩
        · rw [hex, he, List.append_nil]
        · rw [List.countP_append, hes, hone, Nat.min_eq_left (Nat.succ_le_succ (Nat.zero_le left))]
          rfl
        · rw [hone]
          exact hnext
    · obtain ⟨mid, hlap, hmid⟩ := @leads_below_rate _ _ _ _ _ _ next hq hm (Nat.lt_of_not_le hlast)
      obtain ⟨laps'', hr'', hex'⟩ := hlap.runOn hr'
      obtain ⟨made, rest, he, hmade, hstops⟩ := ih hnext
        ((hlap.library.trans hleads.library).trans hlib) hmid rfl (Nat.lt_of_not_le hlast) rfl hr''
      refine ⟨es ++ .pause h .yield :: made, rest, ?_, ?_, fun hle => ?_⟩
      · rw [hex, hex', he]
        simp
      · rw [List.countP_append, hes, List.countP_cons, hmade, hyields, if_pos rfl]
        omega
      · obtain ⟨hrest, hstop⟩ := hstops (by omega)
        have hleft : left + 1 - (n - done) = left - (n - (done + 1)) := by omega
        rw [hleft]
        exact ⟨hrest, hstop.body, hres ▸ hstop.carries⟩

end Laps

end Project

end SpriteStage

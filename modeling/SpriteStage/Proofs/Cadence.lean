import SpriteStage.Proofs.Fixture
import SpriteStage.Proofs.Pacing

namespace SpriteStage

open Project

-- A thread that has been stopped at the end of a lap, with so many laps still to make.
structure Thread.Stands (library : Library) (h : Handle) (n left : Nat) (below : List LoopRate)
    (t : Thread) : Prop where
  handle : t.handle = h
  state : t.state = .nextFrame
  body : ∃ next, t.body = .waiting .yield next ∧ Loops library h left (next (.ok ()))
  rates : t.mailbox.rates = ⟨⟨n, 0⟩, below⟩
  resume : t.mailbox.resume = none

theorem Thread.Stands.stays {library : Library} {h : Handle} {n left : Nat} {below : List LoopRate}
    {t u : Thread} (ht : t.Stands library h n left below) (hs : t.Stays u)
    (hm : u.mailbox = t.mailbox) : u.Stands library h n left below where
  handle := by
    rw [← ht.handle, Thread.handle, hs.id, hs.owner]
    rfl
  state := hs.state.trans ht.state
  body := by
    rw [hs.body]
    exact ht.body
  rates := hm ▸ ht.rates
  resume := hm ▸ ht.resume

namespace Project

variable {κ : Conduct} {h : Handle} {p q mid last : Project} {t u : Thread} {m : Mailbox}
  {b b' : Behavior} {es : List Exchange} {library : Library} {n left done : Nat}
  {below : List LoopRate}

theorem Carries.along {id own : Nat} (hc : p.Carries id m) (hr : p.Ranked)
    (hq : Along (Thread.Tends own) p q) :
    ∃ m', q.Carries id m' ∧ (m.resume = none → m'.resume = none) := by
  obtain ⟨t, ht, hid⟩ := hc.has
  obtain ⟨change, hthreads, htends⟩ := hq
  refine ⟨(change t).mailbox, ⟨⟨change t, ?_, (htends t).id.trans hid⟩, fun u hu huid => ?_⟩,
    fun hn => ?_⟩
  · rw [hthreads]
    exact List.mem_map.2 ⟨t, ht, rfl⟩
  · rw [hthreads] at hu
    obtain ⟨s, hs, rfl⟩ := List.mem_map.1 hu
    rw [hr.eq_of_id ht hs ((htends s).id.symm.trans (huid.trans hid.symm))]
  · rcases (htends t).resume with he | ⟨-, he⟩
    · rw [he, hc.only t ht hid]
      exact hn
    · exact he

-- How a turn goes on from where its body has come to the laps of a loop.
theorem laps_of_run (ho : p.Obeys κ) (ht : t ∈ p.threads) {laps : Nat} {r : Resumption}
    (hr : runOn? t.handle laps (p.woken t).1 (p.woken t).2 = some (r, last))
    (hl : Leads t.handle (p.woken t).1 (p.woken t).2 es b mid)
    (hb : Loops p.library t.handle left b) (hc : mid.Carries t.id m)
    (hm : m.rates = ⟨⟨n, done⟩, below⟩) (hd : done < n) (hres : m.resume = none) :
    ∃ made rest, exchangesOn t.handle laps (p.woken t).1 (p.woken t).2 = es ++ (made ++ rest) ∧
      made.countP Exchange.yields = min (n - done) left ∧
      (n - done ≤ left → rest = [] ∧ ∀ u ∈ (last.leave t r).settle.threads, u.id = t.id →
        u.Stands p.library t.handle n (left - (n - done)) below) := by
  have hlib : mid.library = p.library := hl.library.trans (library_woken p t)
  obtain ⟨deep, hdeep, hex⟩ := hl.runOn hr
  obtain ⟨made, rest, he, hmade, hstops⟩ := runOn_loops hb hlib hc hm hd hres hdeep
  refine ⟨made, rest, by rw [hex, he], hmade, fun hle => ?_⟩
  obtain ⟨hrest, hrests⟩ := hstops hle
  refine ⟨hrest, fun u hu hid => ?_⟩
  have hlawful : Lawful κ (p.woken t).2.library := by
    rw [library_woken]
    exact ho.lawful
  obtain ⟨deed, hdeeds, hcloses⟩ := deeds_runOn hr (keeps_woken (ho.bodies t ht)) hlawful
  have hbound := ho.bounded t ht
  have hchanges := changes_run hbound hdeeds hcloses
  obtain ⟨suspension, body, state, rfl, hstate, s, hs, hsid, rfl⟩ :=
    mem_left hu hid (Nat.le_trans (hid ▸ hbound) hchanges.lastThread_le)
  obtain ⟨v, hv, hvs⟩ := hchanges.continued hs (hsid ▸ hbound)
  obtain rfl := ho.toRanked.eq_of_id ht hv (hvs.id.symm.trans hsid)
  obtain ⟨next, hnext, hloops⟩ := hrests.body
  cases hnext
  cases hstate
  have hmail := hrests.carries.only s hs hsid
  exact ⟨by rw [Thread.handle, hvs.id, hvs.owner]; rfl, rfl, ⟨next, rfl, hloops⟩,
    congrArg Mailbox.rates hmail, (congrArg Mailbox.resume hmail).trans hres⟩

end Project

namespace Moment

variable {κ : Conduct} {m n : Moment} {p q mid : Project} {t u : Thread} {perFrame left k : Nat}
  {es before : List Exchange} {ids : List Nat} {below : List LoopRate} {h : Handle}

theorem runs_of_turn {laps : Nat} (ht : (p.readiness t.id).2.thread? t.id = some t)
    (hq : p.turn? laps t.id = some (true, q)) : ∃ r last,
      runOn? t.handle laps ((p.readiness t.id).2.woken t).1 ((p.readiness t.id).2.woken t).2 =
        some (r, last) ∧ q = (last.leave t r).settle ∧ p.turnExchanges laps t.id =
        exchangesOn t.handle laps ((p.readiness t.id).2.woken t).1
          ((p.readiness t.id).2.woken t).2 := by
  have hdue := (resumed_iff_due hq).1 rfl
  unfold turn? at hq
  unfold turnExchanges
  cases hr : p.readiness t.id with
  | mk readiness p' =>
    rw [hr] at hdue ht hq
    subst hdue
    obtain ⟨q', hstep, he⟩ := Option.map_eq_some_iff.1 hq
    cases he
    obtain ⟨r, last, hrun, rfl⟩ := step?_eq_some ht hstep
    dsimp only
    rw [ht]
    exact ⟨r, last, hrun, rfl, rfl⟩

theorem Reachable.next_laps {laps : Nat} (hm : Reachable κ ⟨p, h.thread :: ids⟩)
    (hs : ∀ u ∈ p.threads, u.id = h.thread → u.Stands p.library h perFrame left below)
    (hq : p.turn? laps h.thread = some (true, q)) (hn : 1 ≤ perFrame) :
    ∃ made rest, p.turnExchanges laps h.thread = made ++ rest ∧
      made.countP Exchange.yields = min perFrame left ∧
      (perFrame ≤ left → rest = [] ∧ ∀ u ∈ q.threads, u.id = h.thread →
        u.Stands p.library h perFrame (left - perFrame) below) := by
  cases ht : p.thread? h.thread with
  | none =>
    rw [turn?_of_gone ht] at hq
    cases hq
  | some t =>
    have hmem : t ∈ p.threads := List.mem_of_find?_eq_some ht
    have hid : t.id = h.thread := id_of_thread? ht
    have hst := hs t hmem hid
    obtain rfl := hst.handle
    have hready : (p.readiness t.id).2 = p := by
      unfold readiness
      rw [hm.obeys.toRanked.thread?_of_mem hmem]
      dsimp only
      rw [if_pos (hm.owns hmem).isLive, hst.state]
    have hthread : (p.readiness t.id).2.thread? t.id = some t := hready.symm ▸ ht
    obtain ⟨r, last, hrun, rfl, hex⟩ := runs_of_turn hthread hq
    obtain ⟨next, hbody, hloops⟩ := hst.body
    obtain ⟨m, hc, -, hresume, hrates⟩ := carries_woken hm.obeys.toRanked hmem (.inl hst.resume)
    have hwoken : (p.woken t).1 = next (.ok ()) := by
      unfold woken wake
      rw [hbody, hst.resume]
      rfl
    rw [hready] at hrun hex
    obtain ⟨made, rest, he, hmade, hstops⟩ := laps_of_run hm.obeys hmem hrun .refl
      (hwoken ▸ hloops) hc (hrates.trans hst.rates) hn hresume
    exact ⟨made, rest, hex.trans he, hmade, hstops⟩

-- A run, how often it resumes a thread, and what the thread does in all of these resumptions.
inductive Acts (κ : Conduct) (id : Nat) (a : Moment) : Nat → List Exchange → Moment → Prop where
  | refl : Acts κ id a 0 [] a
  | aside {k : Nat} {es : List Exchange} {m n : Moment} (h : Acts κ id a k es m)
      (hs : Awaits κ id m n) : Acts κ id a k es n
  | resumed {k laps : Nat} {es : List Exchange} {ids : List Nat} {p q : Project}
      (h : Acts κ id a k es ⟨p, id :: ids⟩) (ht : p.turn? laps id = some (true, q)) :
      Acts κ id a (k + 1) (es ++ p.turnExchanges laps id) ⟨q, ids⟩

theorem Acts.steps {id : Nat} {a : Moment} (h : Acts κ id a k es m) :
    Relation.ReflTransGen (Step κ) a m := by
  induction h with
  | refl => exact .refl
  | aside _ hs ih => exact ih.tail hs.1
  | resumed _ ht ih => exact ih.tail (.turn ht)

-- What a thread has done in so many turns since it began with the laps of a loop, and how it stands
-- as long as the loop is on.
structure Laps (library : Library) (h : Handle) (perFrame left : Nat) (below : List LoopRate)
    (before : List Exchange) (turns : Nat) (es : List Exchange) (m : Moment) : Prop where
  done : ∃ made rest, es = before ++ .call (.pushRate h perFrame) :: (made ++ rest) ∧
    made.countP Exchange.yields = min (turns * perFrame) left ∧
    (turns * perFrame ≤ left → rest = [])
  stands : turns * perFrame ≤ left → ∀ u ∈ m.project.threads, u.id = h.thread →
    u.Stands library h perFrame (left - turns * perFrame) below

theorem Laps.aside {library : Library} (hk : Laps library h perFrame left below before k es m)
    (hm : Reachable κ m) (hκ : κ.Awaits) (hπ : κ.Paces h.thread) (hl : h.thread ≤ m.project.lastThread)
    (hs : Awaits κ h.thread m n) : Laps library h perFrame left below before k es n := by
  refine ⟨hk.done, fun hle u hu hid => ?_⟩
  obtain ⟨t, ht, htu⟩ := (hm.changes_of_step hs.1).continued hu (hid ▸ hl)
  have htid : t.id = h.thread := htu.id.symm.trans hid
  have hst := hk.stands hle t ht htid
  obtain ⟨hstays, hmail⟩ := hs.1.spares hm hκ (htid.symm ▸ hπ) ht (.inr hst.state) (htid ▸ hs.2) hu htu.id
  exact hst.stays hstays hmail

theorem Laps.resumed {laps : Nat} (hk : Laps p.library h perFrame left below before k es ⟨p, h.thread :: ids⟩)
    (hm : Reachable κ ⟨p, h.thread :: ids⟩) (hn : 1 ≤ perFrame)
    (hq : p.turn? laps h.thread = some (true, q)) :
    Laps p.library h perFrame left below before (k + 1) (es ++ p.turnExchanges laps h.thread)
      ⟨q, ids⟩ := by
  obtain ⟨made, rest, rfl, hmade, hrest⟩ := hk.done
  by_cases hle : k * perFrame ≤ left
  · obtain rfl := hrest hle
    obtain ⟨made', rest', he, hmade', hstops⟩ := hm.next_laps (hk.stands hle) hq hn
    have hsub : left - (k + 1) * perFrame = left - k * perFrame - perFrame := by
      rw [Nat.succ_mul]
      omega
    refine ⟨⟨made ++ made', rest', ?_, ?_, fun hle' => (hstops ?_).1⟩, fun hle' => ?_⟩
    · rw [he]
      simp
    · rw [List.countP_append, hmade, hmade', Nat.succ_mul]
      omega
    · rw [Nat.succ_mul] at hle'
      omega
    · rw [hsub]
      rw [Nat.succ_mul] at hle'
      exact (hstops (by omega)).2
  · have hgt : ¬ (k + 1) * perFrame ≤ left := by
      rw [Nat.succ_mul]
      omega
    refine ⟨⟨made, rest ++ p.turnExchanges laps h.thread, by simp, ?_, fun h => absurd h hgt⟩,
      fun h => absurd h hgt⟩
    rw [hmade]
    omega

theorem Acts.laps {a : Moment} {turn : List Exchange} (hd : Acts κ h.thread a k es m)
    (ha : Reachable κ a) (hκ : κ.Awaits) (hπ : κ.Paces h.thread) (hn : 1 ≤ perFrame)
    (hl : h.thread ≤ a.project.lastThread)
    (hk : Laps a.project.library h perFrame left below before 1 turn a) :
    Laps a.project.library h perFrame left below before (k + 1) (turn ++ es) m := by
  induction hd with
  | refl =>
    rw [List.append_nil]
    exact hk
  | aside hd hs ih =>
    have hlast := Nat.le_trans hl (ha.changes_of_steps hd.steps).lastThread_le
    exact ih.aside (ha.steps hd.steps) hκ hπ hlast hs
  | resumed hd hq ih =>
    have hlib : _ = a.project.library := (ha.changes_of_steps hd.steps).library
    rw [← List.append_assoc]
    rw [← hlib] at ih ⊢
    exact ih.resumed (ha.steps hd.steps) hn hq

end Moment

end SpriteStage

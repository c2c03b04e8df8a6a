import SpriteStage.Proofs.Exchange

namespace SpriteStage

open Project

-- A body that makes an exchange next.
inductive Exchange.Leads (h : Handle) : Exchange → Behavior → Prop where
  | call {c : Call} {next : c.Reply → Behavior} : Leads h (.call c) (.call c next)
  | pause {wait : Wait} {next : Except CallError wait.Reply → Behavior} :
      Leads h (.pause h wait) (.pause wait next)

namespace Project

variable {h : Handle} {p q : Project} {t : Thread} {laps : Nat}

-- Exchanges of a resumption that has come further since: none of its pauses has ended it.
inductive Passed (h : Handle) : Project → List Exchange → Project → Prop where
  | refl {p : Project} : Passed h p [] p
  | call {p q : Project} {c : Call} {later : List Exchange} (hl : Passed h (p.answer c).2 later q) :
      Passed h p (.call c :: later) q
  | pause {p q r : Project} {wait : Wait} {outcome : Except CallError wait.Reply}
      {later : List Exchange} (hw : p.begin h wait = (.passes outcome, r))
      (hl : Passed h r later q) : Passed h p (.pause h wait :: later) q

theorem runOn?_passes {wait : Wait} {outcome : Except CallError wait.Reply}
    (hw : p.begin h wait = (.passes outcome, q)) (laps : Nat)
    (next : Except CallError wait.Reply → Behavior) :
    runOn? h (laps + 1) (.pause wait next) p = runOn? h (laps + 1) (next outcome) q ∧
      exchangesOn h (laps + 1) (.pause wait next) p =
        .pause h wait :: exchangesOn h (laps + 1) (next outcome) q := by
  simp only [runOn?, exchangesOn, run, exchanges, hw, List.cons_append, and_self]

theorem runOn?_suspends {wait : Wait} {suspension : Suspension}
    (hw : p.begin h wait = (.suspends suspension, q)) (laps : Nat)
    (next : Except CallError wait.Reply → Behavior) :
    runOn? h (laps + 1) (.pause wait next) p =
        some (.suspended suspension (.waiting wait next), p.perform (.pause h wait)) ∧
      exchangesOn h (laps + 1) (.pause wait next) p = [.pause h wait] := by
  simp only [runOn?, exchangesOn, run, exchanges, perform, hw, List.append_nil, and_self]

-- What a resumption does before and after one of its exchanges.
theorem exchangesOn_split {b : Behavior} {front back : List Exchange} {e : Exchange}
    (hx : exchangesOn h laps b p = front ++ e :: back) :
    ∃ laps' b', e.Leads h b' ∧ Passed h p front (p.performAll front) ∧
      runOn? h laps b p = runOn? h (laps' + 1) b' (p.performAll front) ∧
      exchangesOn h (laps' + 1) b' (p.performAll front) = e :: back := by
  induction laps generalizing b p front with
  | zero => simp [exchangesOn] at hx
  | succ laps ihl =>
    induction b generalizing p front with
    | finish => simp [exchangesOn, exchanges, run] at hx
    | fail failure => simp [exchangesOn, exchanges, run] at hx
    | jump target => exact ihl hx
    | call c next ih =>
      cases front with
      | nil =>
        obtain ⟨rfl, -⟩ := List.cons.inj hx
        exact ⟨laps, _, .call, .refl, rfl, hx⟩
      | cons e' front =>
        obtain ⟨rfl, hrest⟩ := List.cons.inj hx
        obtain ⟨laps', b', hl, hp, hr, he⟩ := ih _ hrest
        exact ⟨laps', b', hl, .call hp, hr, he⟩
    | pause wait next ih =>
      cases front with
      | nil =>
        have hhead : e = .pause h wait := by
          cases hw : p.begin h wait with
          | mk begun q =>
            cases begun with
            | suspends suspension =>
              rw [(runOn?_suspends hw laps next).2] at hx
              exact (List.cons.inj hx).1.symm
            | passes outcome =>
              rw [(runOn?_passes hw laps next).2] at hx
              exact (List.cons.inj hx).1.symm
        rw [hhead] at hx ⊢
        exact ⟨laps, _, .pause, .refl, rfl, hx⟩
      | cons e' front =>
        cases hw : p.begin h wait with
        | mk begun q =>
          cases begun with
          | suspends suspension =>
            rw [(runOn?_suspends hw laps next).2] at hx
            simp at hx
          | passes outcome =>
            obtain ⟨hrun, hex⟩ := runOn?_passes hw laps next
            rw [hex] at hx
            obtain ⟨rfl, hrest⟩ := List.cons.inj hx
            obtain ⟨laps', b', hl, hp, hr, he⟩ := ih _ hrest
            have hperform : p.perform (.pause h wait) = q := by
              simp only [perform, hw]
            rw [performAll, List.foldl_cons, hperform]
            exact ⟨laps', b', hl, .pause hw hp, hrun.trans hr, he⟩

-- Where a turn that exchanges anything takes up the body of its thread.
theorem taken_of_exchanges (hp : p.Ranked) (ht : t ∈ p.threads)
    (hx : p.turnExchanges laps t.id ≠ []) :
    ∃ u b, t.Continues u ∧ (p.readiness t.id).2.thread? t.id = some u ∧
      p.turnExchanges laps t.id = exchangesOn t.handle laps b (p.turnStart t.id) ∧
      p.ending? laps t.id = runOn? t.handle laps b (p.turnStart t.id) := by
  have hd : (p.readiness t.id).1 = .due := by
    by_contra hd
    exact hx (turnExchanges_of_not_due hd)
  obtain ⟨change, hchange, hc⟩ := readiness_eq_updateThread p t.id
  have hu : (p.readiness t.id).2.thread? t.id = some (change t) := by
    rw [hchange, thread?_updateThread fun s => (hc s).1.id, hp.thread?_of_mem ht, Option.map_some]
  have hh : (change t).handle = t.handle := by
    rw [Thread.handle, (hc t).1.id, (hc t).1.owner]
    rfl
  refine ⟨change t, ((p.readiness t.id).2.woken (change t)).1, (hc t).1, hu, ?_⟩
  cases hr : p.readiness t.id with
  | mk readiness p' =>
    rw [hr] at hd hu
    obtain rfl : readiness = .due := hd
    unfold turnExchanges ending? turnStart
    rw [hr]
    simp only [hu, Option.elim_some, Option.bind_some, hh, and_self]

end Project

end SpriteStage

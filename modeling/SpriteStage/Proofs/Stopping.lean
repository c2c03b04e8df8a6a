import SpriteStage.Proofs.Pass
import SpriteStage.Proofs.Stillness

namespace SpriteStage

def Wait.stops : Wait → Bool
  | .stopAll => true
  | _ => false

def Call.stops : Call → Bool
  | .start _ wait => wait.stops
  | _ => false

namespace Project

variable {κ : Conduct} {h : Handle} {p q : Project} {t : Thread}

-- Whether a behavior asks for a stop before it halts.
def asksStop (h : Handle) : Behavior → Project → Bool
  | .finish, _ => false
  | .fail _, _ => false
  | .jump _, _ => false
  | .call call next, p =>
    call.stops || asksStop h (next (p.answer call).1) (p.answer call).2
  | .pause wait next, p =>
    match p.begin h wait with
    | (.passes outcome, p) => asksStop h (next outcome) p
    | (.suspends _, _) => wait.stops

def asksStopOn (h : Handle) : Nat → Behavior → Project → Bool
  | 0, _, _ => false
  | laps + 1, behavior, p =>
    asksStop h behavior p ||
      match run h behavior p with
      | (.jumps target, p) => asksStopOn h laps (p.library target) p
      | _ => false

theorem stopRequested_wait (p : Project) (h : Handle) (wait : Wait) :
    (p.begin h wait).2.world.stopRequested = (p.world.stopRequested || wait.stops) := by
  by_cases hs : wait = .stopAll
  · subst hs
    exact (Bool.or_true _).symm
  · have hw : wait.stops = false := by
      cases wait with
      | stopAll => exact absurd rfl hs
      | _ => rfl
    rw [stopRequested_begin p h hs, hw, Bool.or_false]

theorem stopRequested_answer (p : Project) (c : Call) :
    (p.answer c).2.world.stopRequested = (p.world.stopRequested || c.stops) := by
  by_cases hc : c.startsWait = false
  · have hs : c.stops = false := by
      cases c with
      | start h wait => cases hc
      | _ => rfl
    rw [(sameTerms_call hc p).stopRequested, hs, Bool.or_false]
  · cases c with
    | start h wait =>
      have hb := stopRequested_wait p h wait
      simp only [answer]
      split
      · rename_i hw
        rw [hw] at hb
        exact hb
      · rename_i hw
        rw [hw] at hb
        exact hb
    | _ => exact absurd rfl hc

theorem stopRequested_run (h : Handle) (b : Behavior) (p : Project) :
    (run h b p).2.world.stopRequested = (p.world.stopRequested || asksStop h b p) := by
  induction b generalizing p with
  | finish => exact (Bool.or_false _).symm
  | fail failure => exact (Bool.or_false _).symm
  | jump target => exact (Bool.or_false _).symm
  | call c next ih =>
    simp only [run, asksStop]
    rw [ih, stopRequested_answer, Bool.or_assoc]
  | pause wait next ih =>
    have hb := stopRequested_wait p h wait
    cases hw : p.begin h wait with
    | mk begun q =>
      rw [hw] at hb
      cases begun with
      | suspends suspension =>
        simp only [run, asksStop, hw]
        exact hb
      | passes outcome =>
        have hs : wait.stops = false := by
          cases wait with
          | stopAll => cases hw
          | _ => rfl
        rw [hs, Bool.or_false] at hb
        simp only [run, asksStop, hw]
        rw [ih, hb]

theorem stopRequested_runOn {laps : Nat} {b : Behavior} {r : Resumption}
    (hr : runOn? h laps b p = some (r, q)) :
    q.world.stopRequested = (p.world.stopRequested || asksStopOn h laps b p) := by
  induction laps generalizing b p with
  | zero => cases hr
  | succ laps ih =>
    have hs := stopRequested_run h b p
    simp only [runOn?] at hr
    simp only [asksStopOn]
    cases hrun : run h b p with
    | mk halt mid =>
      rw [hrun] at hr hs
      cases halt with
      | finished => cases hr; exact hs.trans (by rw [Bool.or_false])
      | failed failure => cases hr; exact hs.trans (by rw [Bool.or_false])
      | suspended suspension body => cases hr; exact hs.trans (by rw [Bool.or_false])
      | jumps target => rw [ih hr, hs, Bool.or_assoc]

section Turn

theorem sameFolk_leave (p : Project) (t : Thread) (r : Resumption) :
    p.world.SameFolk (p.leave t r).world := by
  obtain ⟨groups, questions, errors, hw⟩ := world_leave p t r
  rw [hw]
  exact ⟨rfl, rfl, rfl⟩

theorem stopRequested_leave (p : Project) (t : Thread) (r : Resumption) :
    (p.leave t r).world.stopRequested = p.world.stopRequested := by
  obtain ⟨groups, questions, errors, hw⟩ := world_leave p t r
  rw [hw]

theorem step?_of_runOn {laps id : Nat} {r : Resumption} (ht : p.thread? id = some t)
    (hr : runOn? t.handle laps (p.woken t).1 (p.woken t).2 = some (r, q)) :
    p.step? laps id = some (q.leave t r).settle := by
  rw [step?_eq ht, hr]
  rfl

-- The thread is due and its resumption, which leaves the last project, asks for a stop.
inductive Stops (laps : Nat) (p : Project) (id : Nat) : Project → Prop where
  | mk {t : Thread} {r : Resumption} {p' q : Project} (hd : p.readiness id = (.due, p'))
      (ht : p'.thread? id = some t)
      (hr : runOn? t.handle laps (p'.woken t).1 (p'.woken t).2 = some (r, q))
      (hs : asksStopOn t.handle laps (p'.woken t).1 (p'.woken t).2 = true) :
      Stops laps p id (q.leave t r)

theorem turn?_of_stops {laps id : Nat} (hp : p.Obeys κ) (hw : p.world.Registered)
    (h : Stops laps p id q) : p.turn? laps id = some (true, q.stilled) ∧ q.world.Registered := by
  cases h with
  | mk hd ht hr hs =>
    rename_i t r ready last
    have hready : ready.Obeys κ := by
      have hobeys := obeys_readiness hp id
      rwa [hd] at hobeys
    have hsame : ready.world = p.world := by
      have hworld := world_readiness p id
      rwa [hd] at hworld
    have hmem : t ∈ ready.threads := List.mem_of_find?_eq_some ht
    have hlib : Lawful κ (ready.woken t).2.library := by
      rw [library_woken]
      exact hready.lawful
    obtain ⟨mid, hdeeds, hcloses⟩ := deeds_runOn hr (keeps_woken (hready.bodies t hmem)) hlib
    have hlast : last.world.Registered :=
      (changes_run (hready.bounded t hmem) hdeeds hcloses).registered (hsame ▸ hw)
    have hleft := hlast.same (sameFolk_leave last t r)
    refine ⟨?_, hleft⟩
    have hstop : (last.leave t r).world.stopRequested = true := by
      rw [stopRequested_leave, stopRequested_runOn hr, hs, Bool.or_true]
    unfold turn?
    rw [hd]
    dsimp only
    rw [step?_of_runOn ht hr, settle, if_pos hstop, stopEverything_eq_stilled hleft]
    rfl

theorem pass?_of_empty {laps : Nat} (hp : p.threads = []) (ids : List Nat) :
    pass? laps ids p = some ([], p) := by
  induction ids with
  | nil => rfl
  | cons id ids ih =>
    have hn : p.thread? id = none := by
      unfold thread?
      rw [hp]
      rfl
    simp only [pass?, turn?_of_gone hn, ih]
    rfl

theorem pass?_join {laps : Nat} {before after earlier later : List Nat} {r : Project}
    (hb : pass? laps before p = some (earlier, r)) (ha : pass? laps after r = some (later, q)) :
    pass? laps (before ++ after) p = some (earlier ++ later, q) := by
  induction before generalizing p earlier with
  | nil =>
    cases hb
    exact ha
  | cons id before ih =>
    obtain ⟨b, mid, rest, ht, hp, rfl⟩ := pass?_cons hb
    simp only [List.cons_append, pass?, ht, ih hp, Option.map_some]
    cases b <;> rfl

end Turn

end Project

namespace Moment

variable {κ : Conduct} {p : Project}

theorem Reachable.registered {m : Moment} (hm : Reachable κ m) : m.project.world.Registered :=
  (hm.registered_indexed .refl).1

-- Whoever was to follow in the snapshot is gone by its turn.
theorem Reachable.frame_of_stops {laps id : Nat} {before after earlier : List Nat}
    {r last : Project} (hm : Reachable κ ⟨p, []⟩)
    (hids : p.prepare.threads.map (·.id) = before ++ id :: after)
    (hb : Project.pass? laps before p.prepare = some (earlier, r))
    (hs : Project.Stops laps r id last) :
    p.frame? laps = some (earlier ++ [id], last.stilled) ∧ last.world.Registered := by
  have hstart : Reachable κ ⟨p.prepare, before ++ id :: after⟩ := hids ▸ hm.step .frame
  have hreach : Reachable κ ⟨r, id :: after⟩ := hstart.steps (path_pass (fun _ ht => .turn ht) hb)
  obtain ⟨hturn, hlast⟩ := Project.turn?_of_stops hreach.obeys hreach.registered hs
  have hafter : Project.pass? laps (id :: after) r = some ([id], last.stilled) := by
    simp only [Project.pass?, hturn, Project.pass?_of_empty (p := last.stilled) rfl]
    rfl
  refine ⟨?_, hlast⟩
  unfold Project.frame?
  rw [hids]
  exact Project.pass?_join hb hafter

end Moment

end SpriteStage

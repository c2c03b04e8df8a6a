import SpriteStage.Proofs.Granting
import SpriteStage.Proofs.Roster

namespace SpriteStage

def Resumption.halt : Resumption → Halt
  | .finished => .finished
  | .failed failure => .failed failure
  | .suspended suspension body => .suspended suspension body

namespace Project

variable {σ : Scope} {p q : Project}

theorem Changes.aside (h : p.Aside q) : Changes σ p q := .single (.aside h)

theorem Changes.unchanged {w : World} (h : w = p.world) : Changes σ p { p with world := w } := by
  subst h
  exact .refl

theorem Changes.beside {w : World} (h : p.world.SameCast w) : Changes σ p { p with world := w } :=
  .aside ⟨rfl, rfl, rfl, h⟩

section Calls

theorem changes_of_play {w : World} {id performance : Nat} {name : String}
    (h : p.world.play id name = .ok (performance, w)) : Changes σ p { p with world := w } := by
  obtain ⟨bus, journal, rfl⟩ := World.play_eq_ok h
  exact .beside ⟨rfl, rfl, rfl, rfl, rfl, rfl, rfl, rfl, rfl, rfl, rfl⟩

theorem changes_of_request {id : Nat} {r : Request} {reply : r.Reply} {w : World}
    (h : p.world.answer id r = .ok (reply, w)) : Changes σ p { p with world := w } := by
  cases World.grants_of_answer h with
  | tells => exact .refl
  | reshapes change => exact .single (.reshaped _ change)
  | sends => exact .single (.dispatched _)
  | clones hr hm => exact (Relation.ReflTransGen.single (.placed hr hm)).tail (.dispatchedTo _ _)
  | _ => exact .beside ⟨rfl, rfl, rfl, rfl, rfl, rfl, rfl, rfl, rfl, rfl, rfl⟩

theorem changes_begin (p : Project) {h : Handle} (wait : Wait)
    (ha : (∃ prompt, wait = .ask prompt) →
      σ.turns h.thread ∧ (σ.conduct.Awaits → h.thread ≤ p.lastThread))
    (hr : wait = .delete → σ.removes h.owner) : Changes σ p (p.begin h wait).2 := by
  cases wait with
  | yield =>
    simp only [begin]
    split
    · exact .refl
    · split
      · dsimp only
        exact .single (.mailbox _ _)
      · dsimp only
        exact .single (.mailbox _ _)
  | seconds time =>
    simp only [begin]
    split <;> exact .refl
  | broadcastAndWait message => exact .single (.dispatched _)
  | ask prompt =>
    obtain ⟨ht, hl⟩ := ha ⟨prompt, rfl⟩
    exact .single (.asked ht hl prompt)
  | playUntilDone name =>
    simp only [begin]
    split
    · exact .refl
    · rename_i hp
      exact changes_of_play hp
  | delete =>
    have hd : Changes σ p (p.updateWorld fun w => (w.deleteInstance h.owner).2) :=
      .single (.removed (hr rfl))
    simp only [begin]
    split
    · dsimp only
      exact hd.tail (.mailbox _ _)
    · exact hd
  | stopAll => exact .single .stopping
  | outside => exact .refl

theorem changes_answer (p : Project) (call : Call)
    (hs : ∀ h wait, call = .start h wait →
      ((∃ prompt, wait = .ask prompt) →
        σ.turns h.thread ∧ (σ.conduct.Awaits → h.thread ≤ p.lastThread)) ∧
      (wait = .delete → σ.removes h.owner)) : Changes σ p (p.answer call).2 := by
  cases call with
  | request h r =>
    simp only [answer]
    split
    · rename_i ha
      exact changes_of_request ha
    · exact .refl
  | pushRate h perFrame =>
    simp only [answer]
    exact .single (.mailbox _ _)
  | popRate h =>
    simp only [answer]
    exact .single (.mailbox _ _)
  | start h wait =>
    obtain ⟨ha, hr⟩ := hs h wait rfl
    have hb : Changes σ p (p.begin h wait).2 := changes_begin p wait ha hr
    cases hw : p.begin h wait with
    | mk begun q =>
      rw [hw] at hb
      cases begun with
      | passes outcome =>
        simp only [answer, hw]
        exact hb
      | suspends suspension =>
        simp only [answer, hw]
        exact hb.tail (.mailbox _ _)
  | keep name h => exact .beside ⟨rfl, rfl, rfl, rfl, rfl, rfl, rfl, rfl, rfl, rfl, rfl⟩
  | kept name => exact .refl
  | record entry => exact .beside ⟨rfl, rfl, rfl, rfl, rfl, rfl, rfl, rfl, rfl, rfl, rfl⟩

end Calls

section Resumption

def Lawful (κ : Conduct) (library : Library) : Prop :=
  ∀ h target, κ.keeps h (.jump target) → κ.keeps h (library target)

inductive Deed (κ : Conduct) (h : Handle) (p : Project) : Project → Prop where
  | call {c : Call} {next : c.Reply → Behavior} (hc : κ.keeps h (.call c next)) :
      Deed κ h p (p.answer c).2
  | passed {wait : Wait} {outcome : Except CallError wait.Reply} {q : Project}
      (hw : p.begin h wait = (.passes outcome, q)) : Deed κ h p q

abbrev Deeds (κ : Conduct) (h : Handle) : Project → Project → Prop :=
  Relation.ReflTransGen (Deed κ h)

inductive Closes (κ : Conduct) (h : Handle) (p : Project) : Halt → Project → Prop where
  | finished : Closes κ h p .finished p
  | failed (failure : Failure) : Closes κ h p (.failed failure) p
  | jumps {target : Jump} (ht : κ.keeps h (.jump target)) : Closes κ h p (.jumps target) p
  | suspended {wait : Wait} {next : Except CallError wait.Reply → Behavior}
      {suspension : Suspension} {q : Project} (hk : κ.keeps h (.pause wait next))
      (hw : p.begin h wait = (.suspends suspension, q)) :
      Closes κ h p (.suspended suspension (.waiting wait next))
        (q.updateMailbox h.thread fun m => { m with pending := none })

theorem deeds_run {κ : Conduct} {h : Handle} {b : Behavior} (hb : κ.keeps h b) (p : Project) :
    ∃ q, Deeds κ h p q ∧ Closes κ h q (run h b p).1 (run h b p).2 := by
  induction b generalizing p with
  | finish => exact ⟨p, .refl, .finished⟩
  | fail failure => exact ⟨p, .refl, .failed failure⟩
  | jump target => exact ⟨p, .refl, .jumps hb⟩
  | call c next ih =>
    obtain ⟨q, hq, hc⟩ := ih _ (κ.call hb _) (p.answer c).2
    exact ⟨q, .head (.call hb) hq, hc⟩
  | pause wait next ih =>
    simp only [run]
    split
    · rename_i outcome r hr
      obtain ⟨q, hq, hc⟩ := ih _ (κ.pause hb outcome) r
      exact ⟨q, .head (.passed hr) hq, hc⟩
    · rename_i suspension r hr
      exact ⟨p, .refl, .suspended hb hr⟩

theorem library_begin (p : Project) (h : Handle) (wait : Wait) :
    (p.begin h wait).2.library = p.library := by
  cases wait with
  | yield =>
    simp only [begin]
    split
    · rfl
    · split <;> rfl
  | seconds time =>
    simp only [begin]
    split <;> rfl
  | playUntilDone name =>
    simp only [begin]
    split <;> rfl
  | delete =>
    simp only [begin]
    split <;> rfl
  | _ => rfl

theorem library_answer (p : Project) (c : Call) : (p.answer c).2.library = p.library := by
  cases c with
  | request h r =>
    simp only [answer]
    split <;> rfl
  | start h wait =>
    have hb := library_begin p h wait
    cases hw : p.begin h wait with
    | mk begun q =>
      rw [hw] at hb
      cases begun with
      | passes outcome =>
        simp only [answer, hw]
        exact hb
      | suspends suspension =>
        simp only [answer, hw]
        exact hb
  | _ => rfl

theorem Deeds.library {κ : Conduct} {h : Handle} (hd : Deeds κ h p q) : q.library = p.library := by
  induction hd with
  | refl => rfl
  | tail _ hq ih =>
    cases hq with
    | call hc => exact (library_answer _ _).trans ih
    | passed hw =>
      have hq := congrArg (fun begun => begun.2.library) hw
      exact (hq.symm.trans (library_begin _ h _)).trans ih

theorem deeds_runOn {κ : Conduct} {h : Handle} {laps : Nat} {b : Behavior} {r : Resumption}
    (hr : runOn? h laps b p = some (r, q)) (hb : κ.keeps h b) (hl : Lawful κ p.library) :
    ∃ p', Deeds κ h p p' ∧ Closes κ h p' r.halt q := by
  induction laps generalizing b p with
  | zero => cases hr
  | succ laps ih =>
    obtain ⟨p', hd, hc⟩ := deeds_run hb p
    simp only [runOn?] at hr
    cases hrun : run h b p with
    | mk halt p'' =>
      rw [hrun] at hr hc
      cases halt with
      | finished => cases hr; exact ⟨p', hd, hc⟩
      | failed failure => cases hr; exact ⟨p', hd, hc⟩
      | suspended suspension body => cases hr; exact ⟨p', hd, hc⟩
      | jumps target =>
        obtain ⟨⟩ | ⟨⟩ | ⟨ht⟩ | _ := hc
        rw [← hd.library] at hl
        obtain ⟨p₂, hd', hc'⟩ := ih hr (hl h target ht) hl
        exact ⟨p₂, hd.trans hd', hc'⟩

end Resumption

end Project

end SpriteStage

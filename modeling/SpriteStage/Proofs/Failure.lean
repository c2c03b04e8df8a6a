import SpriteStage.Proofs.Quiet

namespace SpriteStage

open Project

-- What a resumption may do before it is known how it ended.
def Scope.mute (removes : Nat → Prop) (κ : Conduct) : Scope := ⟨fun _ => True, removes, κ, False⟩

namespace World

variable {w : World} {owner actor : Nat}

theorem label_of_owns (hw : w.Registered) (h : w.Owns owner actor) :
    w.label owner = w.className actor ++ idText owner := by
  obtain ⟨i, hi, rfl, rfl⟩ := h
  unfold label
  rw [hw.instance?_of_mem hi]

theorem label_of_gone (h : w.isLive owner = false) : w.label owner = idText owner := by
  have hn : w.instance? owner = none := by
    refine List.find?_eq_none.2 fun i hi hid => ?_
    have hl : w.isLive owner = true := List.any_eq_true.2 ⟨i, hi, hid⟩
    rw [h] at hl
    cases hl
  unfold label
  rw [hn]

theorem errors_queueGroup (w : World) (starts : List Start) :
    (w.queueGroup starts).2.errors = w.errors := by
  obtain ⟨lastGroup, groups, spawns, hw, -⟩ := Project.world_queueGroup w starts
  rw [hw]

theorem Precedes.gone {w' : World} (h : w.Precedes w') (hle : owner ≤ w.lastInstance)
    (hw : w.isLive owner = false) : w'.isLive owner = false := by
  by_contra hne
  obtain ⟨j, hj, rfl⟩ := mem_of_isLive (by simpa using hne)
  obtain ⟨i, hi, hid, -, -⟩ := h.survivors j hj hle
  have hl : w.isLive j.id = true := List.any_eq_true.2 ⟨i, hi, by simpa using hid⟩
  rw [hw] at hl
  cases hl

theorem Precedes.owns {w' : World} (h : w.Precedes w') (hw : w.Registered)
    (ho : w.Owns owner actor) (hl : w'.isLive owner = true) : w'.Owns owner actor := by
  obtain ⟨i, hi, rfl, rfl⟩ := ho
  obtain ⟨j, hj, hid⟩ := mem_of_isLive hl
  obtain ⟨k, hk, hkid, hkact, -⟩ := h.survivors j hj (hid ▸ hw.allocated i hi)
  obtain rfl := hw.eq_of_id hi hk (hkid.trans hid)
  exact ⟨j, hj, hid, hkact.symm⟩

end World

namespace Project

variable {σ : Scope} {κ : Conduct} {p q : Project} {t : Thread}

theorem errors_endThread (p : Project) (id : Nat) :
    (p.endThread id).world.errors = p.world.errors := by
  obtain ⟨groups, questions, hw, -⟩ := world_endThread p id
  rw [hw]

theorem errors_launch (p : Project) (s : Spawn) :
    (p.launch s).world.errors = p.world.errors := by
  obtain ⟨groups, hw⟩ := world_launch p s
  rw [hw]

theorem Change.errors (h : Change σ p q) (hr : ¬ σ.reports) :
    q.world.errors = p.world.errors := by
  cases h with
  | aside h => exact h.world.errors
  | reported h errors => exact absurd h hr
  | dispatched trigger => exact World.errors_queueGroup _ _
  | dispatchedTo trigger owner => exact World.errors_queueGroup _ _
  | removed h =>
    rename_i id
    rcases World.deleteInstance_cases p.world id with he | ⟨i, -, -, he⟩
    · rw [updateWorld, he]
    · rw [updateWorld, he]
      rfl
  | ended id => exact errors_endThread p id
  | launched h => exact errors_launch (p.updateWorld _) _
  | _ => rfl

theorem Changes.errors (h : Changes σ p q) (hr : ¬ σ.reports) :
    q.world.errors = p.world.errors := by
  induction h with
  | refl => rfl
  | tail _ hq ih => exact (hq.errors hr).trans ih

inductive Reports (κ : Conduct) (p : Project) (t : Thread) (q : Project) : Prop where
  | silent (h : q.world.errors = p.world.errors)
  | failure {label message : String}
      (h : q.world.errors = p.world.errors ++
        [⟨.thread (p.world.className t.actor) label t.label, message⟩])
      (hl : label = p.world.className t.actor ++ World.idText t.owner ∨
        label = World.idText t.owner ∧ q.world.isLive t.owner = false)
      (hf : κ.Awaits → label = p.world.className t.actor ++ World.idText t.owner)

theorem errors_settle (p : Project) : p.settle.world.errors = p.world.errors := by
  have h : Changes (Scope.mute (fun _ => True) .any) p p.settle :=
    changes_settle fun _ _ => trivial
  exact h.errors id

theorem gone_of_leave {mid : Project} (hw : p.world.Registered)
    (hown : p.world.Owns t.owner t.actor) (hprec : p.world.Precedes mid.world)
    (hlive : mid.world.isLive t.owner = false) (failure : Failure) :
    (mid.leave t (.failed failure)).settle.world.isLive t.owner = false := by
  have hended : Changes (.under .any) mid ((mid.reportFailure t failure).endThread t.id) :=
    .tail (.single (.reported trivial _)) (.ended _)
  have hleft : Changes (.under .any) mid (mid.leave t (.failed failure)).settle :=
    hended.trans (changes_settle fun _ _ => trivial)
  obtain ⟨i, him, hid, -⟩ := hown
  have hle : t.owner ≤ mid.world.lastInstance :=
    Nat.le_trans (hid ▸ hw.allocated i him) hprec.lastInstance
  exact hleft.precedes.gone hle hlive

theorem reports_stepped (hq : Stepped κ p t q) (hp : p.Obeys κ) (hw : p.world.Registered)
    (hi : p.Indexed) (ht : t ∈ p.threads) (hown : p.world.Owns t.owner t.actor) :
    Reports κ p t q := by
  cases hq with
  | mk hd hc =>
    rename_i mid last r
    have hrun : ∀ {removes : Nat → Prop}, Licensed (.mute removes κ) t.handle →
        Changes (.mute removes κ) p mid := fun {removes} hr =>
      (changes_woken (σ := .mute removes κ) trivial).trans (changes_of_deeds hr hd)
    have hmute : Changes (.mute (fun _ => True) κ) p mid :=
      hrun (licensed_of_all (fun _ => trivial) (fun _ => trivial) _)
    have hl := Nat.le_trans (hp.bounded t ht) hmute.lastThread_le
    have hclose : Changes (.mute (fun _ => True) κ) mid last :=
      changes_of_closes (h := t.handle) trivial trivial hl hc
    have herrors : last.world.errors = p.world.errors :=
      (hclose.errors id).trans (hmute.errors id)
    cases r with
    | finished =>
      refine .silent ?_
      rw [errors_settle]
      exact (errors_endThread _ _).trans herrors
    | suspended suspension body =>
      refine .silent ?_
      rw [errors_settle]
      simp only [leave]
      split
      · exact (errors_endThread _ _).trans herrors
      · exact herrors
    | failed failure =>
      cases hc with
      | failed failure =>
        have hprec := hmute.precedes
        have hreg := hmute.registered hw
        have hname := hprec.names t.actor (hi.threads t ht)
        have hend : ((mid.leave t (.failed failure)).settle).world.errors = p.world.errors ++
            [⟨.thread (p.world.className t.actor) (mid.world.label t.owner) t.label,
              failure.message⟩] := by
          rw [errors_settle, ← hname, ← herrors]
          exact errors_endThread _ _
        cases hlive : mid.world.isLive t.owner with
        | true =>
          have hlabel := World.label_of_owns hreg (hprec.owns hw hown hlive)
          rw [hname] at hlabel
          exact .failure hend (.inl hlabel) fun _ => hlabel
        | false =>
          have hlabel := World.label_of_gone hlive
          refine .failure hend (.inr ⟨hlabel, ?_⟩) fun ha => ?_
          · exact gone_of_leave hw hown hprec hlive failure
          · have hkept : Changes (.mute (fun _ => False) κ) p mid := hrun (licensed_of_awaits ha _)
            rw [(hkept.owns (fun _ => id) hown).isLive] at hlive
            cases hlive

theorem reports_turn {resumed : Bool} (hq : Turn κ p t resumed q) (hp : p.Obeys κ)
    (hw : p.world.Registered) (hi : p.Indexed) (hown : p.world.Owns t.owner t.actor) :
    Reports κ p t q := by
  have hworld := world_readiness p t.id
  cases hq with
  | waits hr => exact .silent (congrArg World.errors hworld)
  | orphaned hr => exact .silent ((errors_endThread _ _).trans (congrArg World.errors hworld))
  | resumes hr ht hc hst =>
    obtain ⟨change, hchange, hcont⟩ := readiness_eq_updateThread p t.id
    have hi' : (p.readiness t.id).2.Indexed := by
      rw [hchange]
      exact hi.updateThread fun u => (hcont u).1
    have hrep := reports_stepped hst (obeys_readiness hp t.id) (hworld ▸ hw) hi' ht
      (by rw [hworld, hc.owner, hc.actor]; exact hown)
    cases hrep with
    | silent h => exact .silent (hworld ▸ h)
    | failure h hl hf =>
      rw [hworld, hc.actor, hc.label] at h
      rw [hworld, hc.actor, hc.owner] at hl hf
      exact .failure h hl hf

end Project

namespace Moment

variable {κ : Conduct} {m : Moment} {q : Project}

structure Settled (p : Project) : Prop where
  owners : ∀ t ∈ p.threads, p.world.Owns t.owner t.actor
  quiet : p.world.Quiet
  ready : ∀ id, (p.readiness id).1 ≠ .orphaned

theorem Reachable.settled (hm : Reachable κ m) : Settled m.project where
  owners _ ht := hm.owns ht
  quiet := hm.quiet
  ready id := by
    unfold readiness
    split
    · exact nofun
    · rename_i t ht
      rw [if_pos (hm.owns (List.mem_of_find?_eq_some ht)).isLive]
      split
      · exact nofun
      · exact nofun
      · dsimp only
        split <;> exact nofun
      · dsimp only
        split <;> exact nofun
      · exact nofun
      · split <;> exact nofun

theorem Reachable.reports (hm : Reachable κ m) {t : Thread} (ht : t ∈ m.project.threads)
    {laps : Nat} {resumed : Bool} (h : m.project.turn? laps t.id = some (resumed, q)) :
    Reports κ m.project t q :=
  have ⟨hw, hi⟩ := hm.registered_indexed .refl
  reports_turn (turn_of_turn? hm.obeys ht h) hm.obeys hw hi (hm.owns ht)

end Moment

end SpriteStage

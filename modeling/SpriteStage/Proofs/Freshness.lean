import SpriteStage.Proofs.Dangling

namespace SpriteStage

open Project

-- The handle that an exchange goes through.
def Exchange.handle? : Exchange → Option Handle
  | .pause h _ => some h
  | .call (.request h _) => some h
  | .call (.start h _) => some h
  | .call (.pushRate h _) => some h
  | .call (.popRate h) => some h
  | .call _ => none

def Exchange.Through (e : Exchange) (id : Nat) : Prop := ∃ h, e.handle? = some h ∧ h.owner = id

-- Handles come with threads, so each is of an instance that has been made by then.
def Project.Genuine (p : Project) (exchanges : List Exchange) : Prop :=
  ∀ front e back id, exchanges = front ++ e :: back → e.Through id →
    id ≤ (p.performAll front).world.lastInstance

def Note.Within (last : Nat) : Note → Prop
  | .watcher shown => shown.owner ≤ last
  | .gain bus => ∃ (name : String) (id : Nat), bus = s!"{name}-{id}" ∧ id ≤ last

namespace World

variable {w : World} {n : Note}

theorem busOf_numbered (w : World) (id : Nat) : ∃ name : String, w.busOf id = s!"{name}-{id}" := by
  unfold busOf
  split
  · exact ⟨_, rfl⟩
  · exact ⟨"gone", rfl⟩

theorem not_backs_watcher (hw : w.Registered) {watcher : Watcher}
    (ho : w.lastInstance < watcher.owner) : ¬ w.Backs (.watcher watcher) := by
  intro hb
  obtain ⟨i, hi, hid⟩ := mem_of_isLive hb
  have hle := hw.allocated i hi
  omega

theorem not_backs_gain (hw : w.Registered) {name : String} {id : Nat} (ho : w.lastInstance < id) :
    ¬ w.Backs (.gain s!"{name}-{id}") := by
  rintro ⟨i, hi, he⟩
  obtain ⟨other, hbus⟩ := w.busOf_numbered i.id
  rw [hbus] at he
  have hid := numbered_inj he
  have hle := hw.allocated i hi
  omega

end World

theorem Note.Within.mono {last last' : Nat} {n : Note} (h : n.Within last) (hl : last ≤ last') :
    n.Within last' := by
  cases n with
  | watcher watcher => exact Nat.le_trans h hl
  | gain bus =>
    obtain ⟨name, id, hbus, hid⟩ := h
    exact ⟨name, id, hbus, Nat.le_trans hid hl⟩

namespace Project

variable {p q : Project} {e : Exchange} {n : Note} {front back : List Exchange} {laps id : Nat}

theorem within_of_strays (he : e.Strays p n)
    (hg : ∀ id, e.Through id → id ≤ p.world.lastInstance) : n.Within p.world.lastInstance := by
  obtain ⟨h, hw, -⟩ := he
  cases hw with
  | shows hp => exact hg _ ⟨h, rfl, rfl⟩
  | tunes =>
    obtain ⟨name, hbus⟩ := p.world.busOf_numbered h.owner
    exact ⟨name, h.owner, hbus, hg _ ⟨h, rfl, rfl⟩⟩

theorem lastInstance_le_performAll (p : Project) (exchanges : List Exchange) :
    p.world.lastInstance ≤ (p.performAll exchanges).world.lastInstance := by
  have hc : Changes (.under .any) p (p.performAll exchanges) := changes_performAll p exchanges
  exact hc.precedes.lastInstance

theorem lastInstance_le_turn {resumed : Bool} (ht : p.turn? laps id = some (resumed, q))
    (hx : p.turnExchanges laps id = front ++ back) :
    ((p.turnStart id).performAll front).world.lastInstance ≤ q.world.lastInstance := by
  have hnone (hd : (p.readiness id).1 ≠ .due) : front = [] := by
    rw [turnExchanges_of_not_due hd] at hx
    exact (List.append_eq_nil_iff.1 hx.symm).1
  cases ran_of_turn? ht with
  | resumed hthread he =>
    have hsettle : ∀ p : Project, p.world.lastInstance ≤ p.settle.world.lastInstance := fun p => by
      have hc : Changes (.under .any) p p.settle := changes_settle fun _ _ => trivial
      exact hc.precedes.lastInstance
    refine Nat.le_trans ?_ (hsettle _)
    rw [(sameFolk_leave _ _ _).lastInstance, hx, performAll_append]
    exact lastInstance_le_performAll _ _
  | passed hd =>
    refine Nat.le_of_eq ?_
    rw [hnone hd, performAll, List.foldl_nil, world_turnStart, world_readiness]
  | orphaned hd =>
    refine Nat.le_of_eq ?_
    rw [hnone (by simp [hd]), performAll, List.foldl_nil, world_turnStart,
      (sameFolk_endThread _ _).lastInstance, world_readiness]

end Project

namespace Moment

variable {κ : Conduct} {m : Moment} {q : Project} {n : Note}

-- Reached from a project without watchers and gains, by handles of instances that have been made.
inductive Genuine (κ : Conduct) : Moment → Prop where
  | start {p : Project} (h : Start κ p) (hn : ∀ n, ¬ p.world.Notes n) : Genuine κ ⟨p, []⟩
  | operate {p : Project} {op : Operation} (hm : Genuine κ ⟨p, []⟩) (h : op.Keeps κ) :
      Genuine κ ⟨op.apply p, []⟩
  | frame {p : Project} (hm : Genuine κ ⟨p, []⟩) :
      Genuine κ ⟨p.prepare, p.prepare.threads.map (·.id)⟩
  | turn {laps id : Nat} {ids : List Nat} {resumed : Bool} {p q : Project}
      (hm : Genuine κ ⟨p, id :: ids⟩) (ht : p.turn? laps id = some (resumed, q))
      (hx : (p.turnStart id).Genuine (p.turnExchanges laps id)) : Genuine κ ⟨q, ids⟩

-- The projects that such a run comes to, those in the midst of a turn included.
inductive Midway (κ : Conduct) : Project → Prop where
  | moment {m : Moment} (hm : Genuine κ m) : Midway κ m.project
  | turn {p : Project} {id : Nat} {ids : List Nat} {exchanges : List Exchange}
      (hm : Genuine κ ⟨p, id :: ids⟩) (hx : (p.turnStart id).Genuine exchanges) :
      Midway κ ((p.turnStart id).performAll exchanges)

theorem Genuine.reachable (hm : Genuine κ m) : Reachable κ m := by
  induction hm with
  | start h => exact .start h
  | operate hm h ih => exact ih.step (.operate h)
  | frame hm ih => exact ih.step .frame
  | turn hm ht hx ih => exact ih.step (.turn ht)

-- No note is about an instance that has not been made: it would dangle, and so would have been put
-- there through a handle of that instance.
theorem Genuine.within (hm : Genuine κ m) (hd : m.project.world.Dangles n) :
    n.Within m.project.world.lastInstance := by
  induction hm with
  | start h hn => exact absurd hd.noted (hn n)
  | operate hm h ih =>
    have hw := hm.reachable.registered
    exact (ih ((moors_apply _ _ hw).2 n hd)).mono
      (hm.reachable.changes_of_step (.operate h)).precedes.lastInstance
  | frame hm ih =>
    have hw := hm.reachable.registered
    exact (ih ((moors_prepare _ hw).2 n hd)).mono
      (hm.reachable.changes_of_step .frame).precedes.lastInstance
  | turn hm ht hx ih =>
    have hw := hm.reachable.registered
    rcases dangles_turn? hw ht hd with hd | ⟨front, e, back, hexchanges, he⟩
    · exact (ih hd).mono (hm.reachable.changes_of_step (.turn ht)).precedes.lastInstance
    · have hwithin := within_of_strays he fun id hid => hx front e back id hexchanges hid
      exact hwithin.mono (lastInstance_le_turn ht hexchanges)

end Moment

namespace Project

variable {σ : Scope} {p q : Project}

-- Threads and queued starts too are of instances that have been made.
structure Elder (p : Project) : Prop where
  registered : p.world.Registered
  owned : p.Owned
  threads : ∀ t ∈ p.threads, t.owner ≤ p.world.lastInstance

theorem Elder.of_blank (hp : p.Blank) : p.Elder :=
  ⟨.of_blank hp.world, .of_blank hp, fun t ht => by simp [hp.threads] at ht⟩

theorem Elder.change (hp : p.Elder) (h : Change σ p q) : q.Elder := by
  refine ⟨hp.registered.census h.census, hp.owned.change hp.registered h, fun u hu => ?_⟩
  have hold : (∃ t ∈ p.threads, t.Continues u) → u.owner ≤ q.world.lastInstance := by
    rintro ⟨t, ht, hc⟩
    exact hc.owner ▸ Nat.le_trans (hp.threads t ht) h.census.precedes.lastInstance
  cases h with
  | aside h => exact hold ⟨u, h.threads ▸ hu, .refl u⟩
  | mailbox id change =>
    have hc : ∀ t : Thread, t.Continues { t with mailbox := change t.mailbox } := fun _ =>
      ⟨rfl, rfl, rfl, rfl, rfl⟩
    exact hold (continues_of_mem_updateThread hc hu)
  | turn hid h hb => exact hold (continues_of_mem_updateThread h hu)
  | ended id =>
    rw [threads_endThread] at hu
    exact hold ⟨u, List.mem_of_mem_filter hu, .refl u⟩
  | launched h =>
    rename_i s rest
    by_cases hl : (p.updateWorld fun w => { w with spawns := rest }).world.isLive s.owner
    · rw [launch_of_live hl] at hu ⊢
      rcases List.mem_append.1 hu with hu | hu
      · exact hp.threads u hu
      · obtain rfl := List.mem_singleton.1 hu
        obtain ⟨i, hi, hid⟩ := World.mem_of_isLive hl
        exact hid ▸ hp.registered.allocated i hi
    · rw [launch_of_gone hl] at hu ⊢
      exact hp.threads u hu
  | cleared => cases hu
  | _ => exact hold ⟨u, hu, .refl u⟩

theorem Elder.changes (hp : p.Elder) (h : Changes σ p q) : q.Elder := by
  induction h with
  | refl => exact hp
  | tail _ hq ih => exact ih.change hq

end Project

namespace Moment

variable {κ : Conduct} {m : Moment} {q : Project} {n : Note}

theorem Reachable.elder (hm : Reachable κ m) : m.project.Elder := by
  obtain ⟨p₀, hb, -, hc⟩ := hm.origin
  exact (Elder.of_blank hb).changes hc

theorem Midway.elder (hq : Midway κ q) : q.Elder := by
  cases hq with
  | moment hm => exact hm.reachable.elder
  | turn hm hx =>
    rename_i p id ids exchanges
    have hstart : Changes (.under .any) p (p.turnStart id) := changes_turnStart p id
    have hc : Changes (.under .any) (p.turnStart id) _ := changes_performAll _ exchanges
    exact (hm.reachable.elder.changes hstart).changes hc

theorem Midway.within (hq : Midway κ q) (hd : q.world.Dangles n) :
    n.Within q.world.lastInstance := by
  cases hq with
  | moment hm => exact hm.within hd
  | turn hm hx =>
    rename_i p id ids exchanges
    obtain ⟨hstart, hfirst⟩ := moors_turnStart p id hm.reachable.registered
    rcases dangles_performAll hstart hd with hd | ⟨front, e, back, hexchanges, he⟩
    · have hle := lastInstance_le_performAll (p.turnStart id) exchanges
      rw [world_turnStart] at hle
      exact (hm.within (hfirst n hd)).mono hle
    · have hwithin := within_of_strays he fun id hid => hx front e back id hexchanges hid
      refine hwithin.mono ?_
      rw [hexchanges, performAll_append]
      exact lastInstance_le_performAll _ _

theorem Midway.unnoted (hq : Midway κ q) :
    (∀ shown ∈ q.world.watchers, shown.owner ≤ q.world.lastInstance) ∧
      ∀ (name : String) (id : Nat), q.world.lastInstance < id →
        q.world.gains.lookup s!"{name}-{id}" = none := by
  have hw := hq.elder.registered
  constructor
  · intro shown hshown
    by_contra hlt
    have hd : q.world.Dangles (.watcher shown) :=
      ⟨hshown, World.not_backs_watcher hw (Nat.lt_of_not_le hlt)⟩
    exact hlt (hq.within hd)
  · intro name id hlt
    rw [List.lookup_eq_none_iff]
    rintro ⟨bus, gain⟩ hgain
    by_contra hbus
    obtain rfl : s!"{name}-{id}" = bus := by simpa using hbus
    have hd : q.world.Dangles (.gain s!"{name}-{id}") :=
      ⟨⟨gain, hgain⟩, World.not_backs_gain hw hlt⟩
    obtain ⟨other, id', he, hle⟩ := hq.within hd
    obtain rfl := numbered_inj he
    omega

end Moment

section Confined

-- Bodies that act through the handle of their own thread alone.
def Behavior.Confined (h : Handle) : Behavior → Prop
  | .finish | .fail _ => True
  | .call c next =>
    (∀ k, (Exchange.call c).handle? = some k → k = h) ∧ ∀ reply, (next reply).Confined h
  | .pause _ next => ∀ outcome, (next outcome).Confined h
  | .jump target => target.handle = h

def Conduct.confined : Conduct := ⟨fun h b => b.Confined h, fun hb => hb.2, id⟩

namespace Project

variable {h : Handle} {b : Behavior} {p : Project}

theorem confined_exchanges (hb : b.Confined h) {e : Exchange} (he : e ∈ exchanges h b p) {k : Handle}
    (hk : e.handle? = some k) : k = h := by
  induction b generalizing p with
  | finish | fail | jump => cases he
  | call c next ih =>
    rcases List.mem_cons.1 he with rfl | he
    · exact hb.1 k hk
    · exact ih _ (hb.2 _) he
  | pause wait next ih =>
    simp only [exchanges, List.mem_cons] at he
    rcases he with rfl | he
    · exact (Option.some.inj hk).symm
    · split at he
      · exact ih _ (hb _) he
      · cases he

theorem confined_jumps (hb : b.Confined h) {target : Jump} {q : Project}
    (hr : run h b p = (.jumps target, q)) : target.handle = h := by
  have hd := deeds_run (κ := .confined) hb p
  rw [hr] at hd
  obtain ⟨mid, -, hc⟩ := hd
  cases hc with
  | jumps hk => exact hk

theorem confined_exchangesOn {laps : Nat} (hb : b.Confined h) (hl : Lawful .confined p.library) {e : Exchange}
    (he : e ∈ exchangesOn h laps b p) {k : Handle} (hk : e.handle? = some k) : k = h := by
  induction laps generalizing b p with
  | zero => cases he
  | succ laps ih =>
    rcases List.mem_append.1 he with he | he
    · exact confined_exchanges hb he hk
    · split at he
      · rename_i target q hr
        have hlibrary : q.library = p.library := by
          rw [← library_of_run h b p, hr]
        rw [hlibrary] at he
        exact ih (hl h target (confined_jumps hb hr)) (hlibrary ▸ hl) he
      · cases he

theorem genuine_turnExchanges (hp : p.Obeys .confined) (he : p.Elder) (laps id : Nat) :
    (p.turnStart id).Genuine (p.turnExchanges laps id) := by
  rintro front e back - hx ⟨k, hk, rfl⟩
  refine Nat.le_trans ?_ (lastInstance_le_performAll _ _)
  rw [world_turnStart, ← world_readiness p id]
  have hc : Changes (.under .confined) p (p.readiness id).2 := changes_readiness trivial
  have hmem : e ∈ p.turnExchanges laps id := hx ▸ List.mem_append_right _ List.mem_cons_self
  unfold turnExchanges at hmem
  split at hmem
  · rename_i p' hr
    rw [hr] at hc
    cases ht : p'.thread? id with
    | none =>
      rw [ht] at hmem
      cases hmem
    | some t =>
      have htmem := List.mem_of_find?_eq_some ht
      have hp' : p'.Obeys .confined := hp.changes rfl hc
      have hlawful : Lawful .confined (p'.woken t).2.library := by
        rw [library_woken]
        exact hp'.lawful
      rw [ht] at hmem
      rw [confined_exchangesOn (keeps_woken (hp'.bodies t htmem)) hlawful hmem hk, hr]
      exact (he.changes hc).threads t htmem
  · cases hmem

end Project

namespace Moment

variable {m : Moment} {p : Project}

theorem genuine_of_confined (hp : Start .confined p) (hn : ∀ n, ¬ p.world.Notes n)
    (hs : Relation.ReflTransGen (Step .confined) ⟨p, []⟩ m) : Genuine .confined m := by
  induction hs with
  | refl => exact .start hp hn
  | tail _ hs ih =>
    cases hs with
    | operate h => exact ih.operate h
    | frame => exact ih.frame
    | turn ht =>
      exact ih.turn ht (genuine_turnExchanges ih.reachable.obeys ih.reachable.elder _ _)

end Moment

end Confined

end SpriteStage

import SpriteStage.Proofs.Awaiting
import SpriteStage.Proofs.Joining

namespace SpriteStage.Moment

open Project

variable {κ : Conduct} {a b m m' n : Moment} {p q : Project} {t : Thread} {message : String}
  {id g g' : Nat}

section Turns

theorem Reachable.turns_nodup (hm : Reachable κ m) : m.turns.Nodup := by
  refine hm.induction (motive := fun m => m.turns.Nodup) (fun _ => .nil) fun hm hs ih => ?_
  cases hs with
  | operate h => exact .nil
  | frame => exact (hm.step .frame).obeys.toRanked.nodup
  | turn h => exact (List.nodup_cons.1 ih).2

theorem awaits_pass {laps : Nat} {before rest earlier : List Nat}
    (h : pass? laps before p = some (earlier, q)) (hid : id ∉ before) :
    Relation.ReflTransGen (Awaits κ id) ⟨p, before ++ rest⟩ ⟨q, rest⟩ := by
  refine path_pass (fun {first} {later} {b} {r} {r'} hm ht => ⟨.turn ht, fun hr => ?_⟩) h
  exact hid (Option.some.inj hr.head ▸ hm)

theorem mem_of_turn {laps : Nat} {after later : List Nat}
    (h : pass? laps (id :: after) p = some (later, q)) (hid : id ∉ after) :
    ∃ resumed r, p.turn? laps id = some (resumed, r) ∧ (id ∈ later ↔ resumed = true) := by
  obtain ⟨resumed, r, rest, ht, hp, rfl⟩ := pass?_cons h
  refine ⟨resumed, r, ht, ?_⟩
  have hrest : id ∉ rest := fun hm => hid (mem_of_pass? hp hm)
  cases resumed with
  | true => exact ⟨fun _ => rfl, fun _ => List.mem_cons_self⟩
  | false => exact ⟨fun hm => absurd hm hrest, fun h => absurd h Bool.false_ne_true⟩

end Turns

section Emptied

theorem Reachable.members_zero (hm : Reachable κ m) (hs : Relation.ReflTransGen (Step κ) m n)
    (hg : g ≤ m.project.world.lastGroup) (h : m.project.members g = 0) :
    n.project.members g = 0 :=
  Nat.eq_zero_of_le_zero (h ▸ (hm.changes_of_steps hs).members_le hg)

theorem Reachable.ended_of_members (hm : Reachable κ m)
    (hs : Relation.ReflTransGen (Step κ) m n) (h : n.project.members g = 0)
    (ht : t ∈ m.project.threads) (hg : t.group = g) : ¬ n.project.Has t.id := by
  rintro ⟨u, hu, hid⟩
  have hpos := members_pos_of_thread hu
  rw [(hm.continued hs ht hu hid).group, hg, h] at hpos
  exact Nat.lt_irrefl 0 hpos

theorem Reachable.emptied_of_resumes (hm : Reachable κ m) (hj : t.state.Joint)
    (hs : ∀ u ∈ m.project.threads, u.id = t.id → t.Stays u) (hr : Resumes t.id m m') :
    m.project.Emptied t.state := by
  cases hr with
  | mk h => exact ((hm.turn_of_joint hj hs h).1 rfl).2

end Emptied

section Nested

-- Nothing but a resumption of its own ends the thread.
def Spares (κ : Conduct) (id : Nat) (m m' : Moment) : Prop :=
  Step κ m m' ∧ (Resumes id m m' ∨ (m.project.Has id → m'.project.Has id))

theorem Spares.steps (h : Relation.ReflTransGen (Spares κ id) m m') :
    Relation.ReflTransGen (Step κ) m m' :=
  Relation.ReflTransGen.mono (fun _ _ h => h.1) _ _ h

-- A thread of the one group has begun to wait for the other and was not ended from outside since.
inductive Inner (κ : Conduct) (m : Moment) (g g' : Nat) : Prop where
  | mk {message : String} {t : Thread} {b a : Moment} (hb : Reachable κ b)
      (hi : Issues message t b a) (hg : t.group = g) (hs : t.state = .group g')
      (hm : Relation.ReflTransGen (Spares κ t.id) a m) : Inner κ m g g'

theorem Reachable.waits_or_emptied (ha : Reachable κ a) (hκ : κ.Awaits) (ht : t ∈ a.project.threads)
    (hs : t.state = .group g) (hg : g ≤ a.project.world.lastGroup)
    (hm : Relation.ReflTransGen (Spares κ t.id) a m) :
    (Relation.ReflTransGen (Awaits κ t.id) a m ∧ m.project.Has t.id) ∨
      m.project.members g = 0 := by
  induction hm with
  | refl => exact .inl ⟨.refl, t, ht, rfl⟩
  | tail hpr hq ih =>
    rename_i r r'
    have hr := ha.steps (Spares.steps hpr)
    have hle := Nat.le_trans hg (ha.changes_of_steps (Spares.steps hpr)).lastGroup_le
    rcases ih with ⟨hw, hhas⟩ | h0
    · by_cases hres : Resumes t.id r r'
      · have he := hr.emptied_of_resumes (.inr ⟨g, hs⟩)
          (fun u hu hid => ha.stays hκ ht (.inr ⟨g, hs⟩) hw hu hid) hres
        exact .inr (hr.members_zero (.single hq.1) hle (he g hs))
      · exact .inl ⟨hw.tail ⟨hq.1, hres⟩, (hq.2.resolve_left hres) hhas⟩
    · exact .inr (hr.members_zero (.single hq.1) hle h0)

theorem Inner.emptied (h : Inner κ m g g') (hκ : κ.Awaits) (h0 : m.project.members g = 0) :
    g' ≤ m.project.world.lastGroup ∧ m.project.members g' = 0 := by
  cases h with
  | mk hb hi hg hs hm =>
    rename_i message t b a
    have ha : Reachable κ a := hb.step hi.resumes.step
    have hle := (hi.joined hb).group_le hs
    refine ⟨Nat.le_trans hle (ha.changes_of_steps (Spares.steps hm)).lastGroup_le, ?_⟩
    refine (ha.waits_or_emptied hκ hi.waits hs hle hm).resolve_left fun hw => ?_
    exact ha.ended_of_members (Spares.steps hm) h0 hi.waits hg hw.2

theorem emptied_of_inner (hκ : κ.Awaits) (h : Relation.ReflTransGen (Inner κ m) g g')
    (hg : g ≤ m.project.world.lastGroup) (h0 : m.project.members g = 0) :
    g' ≤ m.project.world.lastGroup ∧ m.project.members g' = 0 := by
  induction h with
  | refl => exact ⟨hg, h0⟩
  | tail _ hi ih => exact hi.emptied hκ ih.2

end Nested

-- Where a run can stand while the thread waits for those that its message has started.
structure Joining (κ : Conduct) (t : Thread) (m : Moment) : Prop where
  waits : ∀ u ∈ m.project.threads, u.id = t.id → t.Stays u
  turn : ∀ {laps : Nat} {ids : List Nat} {resumed : Bool} {p q : Project}, m = ⟨p, t.id :: ids⟩ →
    p.turn? laps t.id = some (resumed, q) →
      (resumed = true ↔ p.Has t.id ∧ p.Emptied t.state)
  frame : ∀ {laps : Nat} {resumed : List Nat} {p q : Project}, m = ⟨p, []⟩ → p.Has t.id →
    p.frame? laps = some (resumed, q) → ∃ before after earlier r,
      p.prepare.threads.map (·.id) = before ++ t.id :: after ∧
        pass? laps before p.prepare = some (earlier, r) ∧
        (t.id ∈ resumed ↔ r.Has t.id ∧ r.Emptied t.state) ∧
        (p.Emptied t.state → r.Emptied t.state)
  resumed : ∀ {m' n : Moment} {g g' : Nat}, Resumes t.id m m' → t.state = .group g →
    Relation.ReflTransGen (Inner κ m) g g' → Relation.ReflTransGen (Step κ) m n →
      n.project.members g' = 0 ∧ ∀ {r : Moment}, Reachable κ r →
        Relation.ReflTransGen (Step κ) r n → ∀ u ∈ r.project.threads, u.group = g' →
          ¬ n.project.Has u.id

theorem Reachable.frame_of_joint {laps : Nat} {resumed : List Nat} (hm : Reachable κ ⟨p, []⟩)
    (hj : t.state.Joint) (hg : ∀ g, t.state = .group g → g ≤ p.world.lastGroup)
    (hs : ∀ {n}, Relation.ReflTransGen (Awaits κ t.id) ⟨p, []⟩ n →
      ∀ u ∈ n.project.threads, u.id = t.id → t.Stays u)
    (ht : p.Has t.id) (h : p.frame? laps = some (resumed, q)) :
    ∃ before after earlier r, p.prepare.threads.map (·.id) = before ++ t.id :: after ∧
      pass? laps before p.prepare = some (earlier, r) ∧
      (t.id ∈ resumed ↔ r.Has t.id ∧ r.Emptied t.state) ∧
      (p.Emptied t.state → r.Emptied t.state) := by
  obtain ⟨u, hu, hid⟩ := ht
  obtain ⟨news, hnews⟩ := threads_prepare p
  have hmem : t.id ∈ p.prepare.threads.map (·.id) := by
    rw [hnews]
    exact List.mem_map.2 ⟨u, List.mem_append_left _ hu, hid⟩
  have hnodup : (p.prepare.threads.map (·.id)).Nodup := (hm.step .frame).obeys.toRanked.nodup
  obtain ⟨before, after, hids⟩ := List.append_of_mem hmem
  unfold frame? at h
  rw [hids] at h hnodup
  obtain ⟨earlier, later, r, hbefore, hafter, rfl⟩ := pass?_append h
  obtain ⟨-, hcons, hdisjoint⟩ := List.nodup_append.1 hnodup
  have hnb : t.id ∉ before := fun hb => hdisjoint _ hb _ List.mem_cons_self rfl
  obtain ⟨resumed, r', hturn, hlater⟩ := mem_of_turn hafter (List.nodup_cons.1 hcons).1
  have hpath : Relation.ReflTransGen (Awaits κ t.id) ⟨p, []⟩ ⟨r, t.id :: after⟩ := by
    refine .head ⟨.frame, fun hr => absurd hr.head (by simp)⟩ ?_
    rw [hids]
    exact awaits_pass hbefore hnb
  have hreach := hm.steps (Awaits.steps hpath)
  refine ⟨before, after, earlier, r, hids, hbefore, ?_, fun he g hsg => ?_⟩
  · rw [← hreach.turn_of_joint hj (hs hpath) hturn, ← hlater, List.mem_append]
    exact ⟨fun h => h.resolve_left fun he => hnb (mem_of_pass? hbefore he), .inr⟩
  · exact hm.members_zero (Awaits.steps hpath) (hg g hsg) (he g hsg)

theorem Reachable.broadcastAndWait_safe (hκ : κ.Awaits) (hb : Reachable κ b) (hi : Issues message t b a) :
    Joined message t b.project a.project ∧ t.id ∉ a.turns ∧
      ∀ {m : Moment}, Relation.ReflTransGen (Awaits κ t.id) a m → Joining κ t m := by
  have ha : Reachable κ a := hb.step hi.resumes.step
  have hjoined := hi.joined hb
  have hj := hjoined.joint
  have hle : ∀ g, t.state = .group g → g ≤ a.project.world.lastGroup := fun g hg =>
    hjoined.group_le hg
  refine ⟨hjoined, ?_, fun {m} hm => ?_⟩
  · have hnodup := hb.turns_nodup
    cases hi.resumes with
    | mk _ => exact (List.nodup_cons.1 hnodup).1
  · have hreach := ha.steps (Awaits.steps hm)
    have hlast : ∀ g, t.state = .group g → g ≤ m.project.world.lastGroup := fun g hg =>
      Nat.le_trans (hle g hg) (ha.changes_of_steps (Awaits.steps hm)).lastGroup_le
    have hstays : ∀ {n}, Relation.ReflTransGen (Awaits κ t.id) m n →
        ∀ u ∈ n.project.threads, u.id = t.id → t.Stays u := fun hn _ hu hid =>
      ha.stays hκ hi.waits hj (hm.trans hn) hu hid
    constructor
    · exact hstays .refl
    · rintro laps ids resumed p q rfl h
      exact hreach.turn_of_joint hj (hstays .refl) h
    · rintro laps resumed p q rfl hhas h
      exact hreach.frame_of_joint hj hlast hstays hhas h
    · intro m' n g g' hr hg hinner hn
      have h0 := hreach.emptied_of_resumes hj (hstays .refl) hr g hg
      obtain ⟨hle', h0'⟩ := emptied_of_inner hκ hinner (hlast g hg) h0
      have hzero := hreach.members_zero hn hle' h0'
      exact ⟨hzero, fun hr hrn u hu hug => hr.ended_of_members hrn hzero hu hug⟩

def dismissed : Handle → Behavior := fun _ => .pause .delete fun _ => .finish

-- The haunting begins to wait in the first frame, waits through the second and goes on in the third.
def called : Project := (haunted "go" dismissed).prepare.turned 1

def scared : Project := (called.prepare.turned 1).turned 2

theorem haunted_waits :
    ∃ t b a m m', Issues "boo" t b a ∧ t.state = .group 2 ∧ Joined "boo" t b.project a.project ∧
      Relation.ReflTransGen (Awaits .awaiting t.id) a m ∧ Resumes t.id m m' ∧
      m.project.members 2 = 0 ∧ Joining .awaiting t m := by
  have hb : Reachable .awaiting ⟨(haunted "go" dismissed).prepare, [1]⟩ := by
    refine (reachable_haunted (fun _ => trivial) (fun d hd h => ?_) "go").step .frame
    simp only [ghost, List.mem_cons, List.not_mem_nil, or_false] at hd
    rcases hd with rfl | rfl | rfl
    · exact fun _ => trivial
    · exact ⟨rfl, fun _ => trivial⟩
    · exact fun _ => trivial
  have hcall : ((haunted "go" dismissed).prepare.turn? 1 1).map (·.1) = some true := rfl
  have hwait : (called.prepare.turn? 1 1).map (·.1) = some false := rfl
  have hscare : ((called.prepare.turned 1).turn? 1 2).map (·.1) = some true := rfl
  have hresume : (scared.prepare.turn? 1 1).map (·.1) = some true := rfl
  have hthreads : called.threads ≠ [] := by decide
  have hi : Issues "boo" (called.threads.head hthreads) ⟨(haunted "go" dismissed).prepare, [1]⟩
      ⟨called, []⟩ := ⟨.mk (turn?_turned hcall), List.head_mem _, _, rfl⟩
  have hpath : Relation.ReflTransGen (Awaits .awaiting 1) ⟨called, []⟩ ⟨scared.prepare, [1, 3]⟩ := by
    have hframe : Awaits .awaiting 1 ⟨called, []⟩ ⟨called.prepare, [1, 2]⟩ :=
      ⟨.frame, fun h => absurd h.head (by simp)⟩
    have hfirst : Awaits .awaiting 1 ⟨called.prepare, [1, 2]⟩ ⟨called.prepare.turned 1, [2]⟩ := by
      refine ⟨.turn (turn?_turned hwait), fun h => ?_⟩
      cases h with
      | mk h => cases h
    have hsecond : Awaits .awaiting 1 ⟨called.prepare.turned 1, [2]⟩ ⟨scared, []⟩ :=
      ⟨.turn (turn?_turned hscare), fun h => absurd h.head (by simp)⟩
    have hlast : Awaits .awaiting 1 ⟨scared, []⟩ ⟨scared.prepare, [1, 3]⟩ :=
      ⟨.frame, fun h => absurd h.head (by simp)⟩
    exact (((Relation.ReflTransGen.single hframe).tail hfirst).tail hsecond).tail hlast
  obtain ⟨hjoined, -, hjoining⟩ := Reachable.broadcastAndWait_safe Conduct.awaits_awaiting hb hi
  exact ⟨_, _, _, _, _, hi, rfl, hjoined, hpath, .mk (turn?_turned hresume), rfl, hjoining hpath⟩

end SpriteStage.Moment

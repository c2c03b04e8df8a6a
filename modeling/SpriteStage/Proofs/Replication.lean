import Mathlib.Data.List.Sort
import SpriteStage.Block
import SpriteStage.Proofs.Moment

namespace SpriteStage

theorem Fields.set_set (name : String) (value other : Value) (fields : Fields) :
    set name value (set name other fields) = set name value fields := by
  induction fields with
  | nil => simp [set]
  | cons field rest ih =>
    simp only [set]
    by_cases heq : name = field.1
    · simp [heq, set]
    · by_cases hlt : name < field.1
      · simp [heq, hlt, set]
      · simp [heq, hlt, set, ih]

namespace Project

variable {p : Project} {h k : Handle} {exits : Block.Exits}

theorem answer_ok {r : Request} {reply : r.Reply} {w : World}
    (hr : p.world.answer k.owner r = .ok (reply, w)) :
    p.answer (.request k r) = (.ok reply, { p with world := w }) := by
  simp [answer, hr]

theorem run_trying {r : Request} {reply : r.Reply} {w : World} {f : r.Reply → Behavior}
    (hr : p.world.answer k.owner r = .ok (reply, w)) :
    run h (Block.trying exits (Trial.request k r) f) p = run h (f reply) { p with world := w } := by
  show run h (.call (.request k r) _) p = _
  simp only [run, answer_ok hr]
  rfl

theorem run_getInt {name : String} {n : Int} {f : Int → Behavior}
    (hr : p.world.attribute? k.owner name = .ok (.int n)) :
    run h (Block.trying exits (Trial.getInt k name) f) p = run h (f n) p := by
  have ha : p.world.answer k.owner (.get name) = .ok (.int n, p.world) := congrArg (Except.map _) hr
  show run h (.call (.request k (.get name)) _) p = _
  simp only [run, answer_ok ha]
  rfl

def readings (p : Project) (name key : String) : Except ProjectError (List (Option Value)) :=
  (p.instancesOf name).map (·.map (·.figure.attributes.get? key))

-- A turn of the only thread, if it runs to its end at once.
theorem turn?_sole {t : Thread} {b : Behavior} {w : World} (ht : p.threads = [t])
    (hs : t.state = .runnable) (hb : t.body = .start b) (hl : p.world.isLive t.owner)
    (hr : run t.handle b p = (.finished, { p with world := w })) (laps : Nat) :
    p.turn? (laps + 1) t.id = some (true, { p with
      threads := []
      world := { w.leaveGroup t.group with
        questions := w.questions.filter (·.thread ≠ t.id) } }.settle) := by
  have hsole : ∀ w : World, ({ p with world := w } : Project).thread? t.id = some t := fun w => by
    simp [thread?, ht]
  have hready : p.readiness t.id = (.due, p) := by
    unfold readiness
    rw [hsole p.world]
    simp only [hl, hs, if_true]
  have hsame : p.updateThread t.id (fun t => { t with state := .runnable }) = p := by
    obtain ⟨world, threads, lastThread, loads, frame, library⟩ := p
    obtain ⟨id, group, actor, owner, label, state, mailbox, body⟩ := t
    simp_all [updateThread]
  have hwoken : p.woken t = (b, p) := by
    unfold woken wake
    rw [hb, hsame]
  have hend : ({ p with world := w } : Project).leave t .finished = { p with
      threads := []
      world := { w.leaveGroup t.group with
        questions := w.questions.filter (·.thread ≠ t.id) } } := by
    unfold leave endThread
    dsimp only
    rw [hsole w]
    simp [ht]
  unfold turn?
  simp only [hready, step?_eq (hsole p.world), hwoken, runOn?, hr, Option.map_some, hend]

end Project

def replicate (h : Handle) : Behavior :=
  Block.trying ⟨.fail, .finish⟩ (Trial.request h (.createClone (.member h.owner))) fun _ => .finish

def count (bound : Nat) (h : Handle) : Behavior :=
  Block.trying ⟨.fail, .finish⟩ (Trial.getInt h "copied_id") fun n =>
    Block.trying ⟨.fail, .finish⟩ (Trial.request h (.set "copied_id" (.int (n + 1)))) fun _ =>
      if n + 1 < bound then replicate h else .finish

-- A sprite class that clones itself on a message, and whose clones count on from their parent.
structure Replicator where
  declared : ActorClass
  message : String
  bound : Nat
  groups : List HandlerGroup
  looks : List Look
  figure : Figure
  founding : String
  counting : String
  several : 2 ≤ bound
  sprite : declared.kind = .sprite
  listed : declared.groups = .ok groups
  starts : declared.init {} = (looks, .ok figure)
  first : figure.attributes.get? "copied_id" = some (.int 1)
  receives : (Project.actorOf declared groups 0 1).handlersFor (.message message) =
    [⟨founding, replicate⟩]
  awakes : (Project.actorOf declared groups 0 1).handlersFor .startAsClone =
    [⟨counting, count bound⟩]

namespace Replicator

variable (r : Replicator) (config : Config) (laps k n : Nat)

def counted : Figure :=
  if n ≤ 1 then r.figure else r.figure.setAttribute "copied_id" (.int n)

def member (id n : Nat) : Instance :=
  ⟨id, 0, if id ≤ 1 then none else some (id - 1), r.counted n⟩

def folk : List Instance := (List.range' 1 n).map fun id => r.member id id

def actor : Actor :=
  { Project.actorOf r.declared r.groups 0 1 with instances := (List.range' 1 n).reverse }

def handler : Handler :=
  if k = 0 then ⟨r.founding, replicate⟩ else ⟨r.counting, count r.bound⟩

def populace (is : List Instance) (gs : List Group) : World where
  config := config
  actors := [r.actor n]
  instances := is
  groups := gs
  lastInstance := n
  lastGroup := n
  journal := (r.looks.map Entry.look).reverse

def runner : Thread where
  id := k + 1
  group := k + 1
  actor := 0
  owner := k + 1
  label := (r.handler k).label
  mailbox := { rates := .new config.defaultLoopIterationsPerFrame }
  body := .start ((r.handler k).body ⟨k + 1, k + 1⟩)

-- The newest instance is about to act: it has what its parent counted.
def stage : Project where
  world := r.populace config (k + 1) (r.folk k ++ [r.member (k + 1) k]) [⟨k + 1, 1⟩]
  threads := [r.runner config k]
  lastThread := k + 1
  frame := k

def rest : Project where
  world := r.populace config r.bound (r.folk r.bound) []
  lastThread := r.bound
  frame := k

def after : Project := if k < r.bound then r.stage config k else r.rest config k

section Figures

variable {n}

theorem get?_counted (h : 1 ≤ n) :
    (r.counted n).attributes.get? "copied_id" = some (.int n) := by
  unfold counted
  split
  · obtain rfl : n = 1 := by omega
    exact r.first
  · exact Fields.get?_set _ _ _

theorem setAttribute_counted (h : 1 ≤ n) :
    (r.counted n).setAttribute "copied_id" (.int (n + 1)) = r.counted (n + 1) := by
  have hs : r.counted (n + 1) = r.figure.setAttribute "copied_id" (.int (n + 1)) :=
    if_neg (by omega)
  rw [hs]
  unfold counted
  split
  · rfl
  · simp only [Figure.setAttribute, Fields.set_set]

theorem cloned_member (h : 1 ≤ n) : (r.member n n).cloned (n + 1) = r.member (n + 1) n := by
  simp [member, Instance.cloned, Nat.not_le.2 (Nat.lt_succ_of_le h)]

theorem folk_succ (n : Nat) : r.folk (n + 1) = r.folk n ++ [r.member (n + 1) (n + 1)] := by
  simp [folk, List.range'_concat, Nat.add_comm 1 n]

theorem id_le_of_mem_folk {i : Instance} (h : i ∈ r.folk n) : i.id ≤ n := by
  obtain ⟨id, hid, rfl⟩ := List.mem_map.1 h
  have := List.mem_range'_1.1 hid
  simp only [member]
  omega

theorem actor_succ (n : Nat) : (r.actor (n + 1)).instances = (n + 1) :: (r.actor n).instances := by
  simp [actor, List.range'_concat, Nat.add_comm 1 n]

theorem isSprite_actor (n : Nat) : (r.actor n).isSprite = true := by
  simp [actor, Actor.isSprite, Project.actorOf, r.sprite]

end Figures

section Worlds

variable {is : List Instance} {gs : List Group} {i : Instance} {n}

theorem member_populace (gs : List Group) (hf : is.find? (·.id == n) = some i) (hi : i.actor = 0) :
    (r.populace config n is gs).member n = .ok (i, r.actor n) := by
  have hinst : (r.populace config n is gs).instance? n = some i := hf
  unfold World.member
  rw [hinst]
  simp [populace, hi]

theorem place_populace (hn : 1 ≤ n) (hid : i.id = n) :
    (r.populace config n is gs).place i (r.actor n) =
      { r.populace config (n + 1) (is ++ [i.cloned (n + 1)]) gs with lastGroup := n } := by
  obtain ⟨n, rfl⟩ := Nat.exists_eq_add_of_le' hn
  have hids : World.insertBefore (n + 1) (n + 2) (r.actor (n + 1)).instances =
      (r.actor (n + 2)).instances := by
    rw [actor_succ, actor_succ, actor_succ]
    exact if_pos rfl
  have hactor : { r.actor (n + 1) with
      instances := World.insertBefore i.id (n + 2) (r.actor (n + 1)).instances } =
        r.actor (n + 2) := by
    rw [hid, hids]
    rfl
  unfold World.place World.updateActor
  simp only [populace, List.map_cons, List.map_nil, if_true, hactor]

theorem startsOf_populace {w : World} (hm : w.member (n + 1) = .ok (i, r.actor (n + 1))) :
    w.startsOf .startAsClone (n + 1) = [⟨0, n + 1, ⟨r.counting, count r.bound⟩⟩] := by
  unfold World.startsOf
  rw [hm]
  exact congrArg (List.map _) r.awakes

theorem createClone_populace (gs : List Group) (hn : 1 ≤ n) (hf : is.find? (·.id == n) = some i)
    (hi : i.actor = 0) (hnew : ∀ j ∈ is, j.id ≤ n) :
    (r.populace config n is gs).createClone (.member n) = .ok (n + 1,
      { r.populace config (n + 1) (is ++ [i.cloned (n + 1)]) (gs ++ [⟨n + 1, 1⟩]) with
        spawns := [⟨n + 1, 0, n + 1, ⟨r.counting, count r.bound⟩⟩] }) := by
  have hid : i.id = n := by simpa using List.find?_some hf
  have hm := r.member_populace config gs hf hi
  have hfound : (is ++ [i.cloned (n + 1)]).find? (·.id == n + 1) = some (i.cloned (n + 1)) := by
    have hnone : is.find? (·.id == n + 1) = none := List.find?_eq_none.2 fun j hj => by
      have := hnew j hj
      simp only [beq_iff_eq]
      omega
    rw [List.find?_append, hnone]
    simp [Instance.cloned]
  have hplaced : ((r.populace config n is gs).place i (r.actor n)).member (n + 1) =
      .ok (i.cloned (n + 1), r.actor (n + 1)) := by
    rw [place_populace r config hn hid]
    exact r.member_populace config gs hfound hi
  unfold World.createClone World.resolve
  simp only [hm, r.isSprite_actor, if_true]
  have hw : (((r.populace config n is gs).place i (r.actor n)).dispatchTo .startAsClone
      (n + 1)).2 = { r.populace config (n + 1) (is ++ [i.cloned (n + 1)]) (gs ++ [⟨n + 1, 1⟩]) with
        spawns := [⟨n + 1, 0, n + 1, ⟨r.counting, count r.bound⟩⟩] } := by
    unfold World.dispatchTo
    rw [r.startsOf_populace hplaced, place_populace r config hn hid]
    rfl
  rw [← hw, World.place, hid]
  rfl

theorem find?_stage (k : Nat) (i : Instance) (js : List Instance) (hid : i.id = k + 1) :
    (r.folk k ++ i :: js).find? (·.id == k + 1) = some i := by
  have hnone : (r.folk k).find? (·.id == k + 1) = none := List.find?_eq_none.2 fun j hj => by
    have := r.id_le_of_mem_folk hj
    simp only [beq_iff_eq]
    omega
  rw [List.find?_append, hnone]
  simp [hid]

theorem reshape_stage (k : Nat) (gs : List Group) (hk : 1 ≤ k) :
    (r.populace config (k + 1) (r.folk k ++ [r.member (k + 1) k]) gs).reshape (k + 1)
        (·.setAttribute "copied_id" (.int (k + 1))) =
      r.populace config (k + 1) (r.folk (k + 1)) gs := by
  have hfolk : (r.folk k).map (fun i => if i.id = k + 1 then
      { i with figure := i.figure.setAttribute "copied_id" (.int (k + 1)) } else i) = r.folk k := by
    refine (List.map_congr_left fun i hi => if_neg ?_).trans (List.map_id' _)
    have := r.id_le_of_mem_folk hi
    omega
  have hlast : { r.member (k + 1) k with
      figure := (r.counted k).setAttribute "copied_id" (.int (k + 1)) } =
        r.member (k + 1) (k + 1) := by
    rw [r.setAttribute_counted hk]
    rfl
  have hmap : (r.folk k ++ [r.member (k + 1) k]).map (fun i => if i.id = k + 1 then
      { i with figure := i.figure.setAttribute "copied_id" (.int (k + 1)) } else i) =
        r.folk (k + 1) := by
    rw [List.map_append, hfolk, folk_succ]
    exact congrArg (r.folk k ++ [·]) ((if_pos rfl).trans hlast)
  exact congrArg (r.populace config (k + 1) · gs) hmap

-- The world after a resumption of the newest instance.
def acted : World :=
  if k + 1 < r.bound then
    { r.populace config (k + 2) (r.folk (k + 1) ++ [r.member (k + 2) (k + 1)])
        [⟨k + 1, 1⟩, ⟨k + 2, 1⟩] with
      spawns := [⟨k + 2, 0, k + 2, ⟨r.counting, count r.bound⟩⟩] }
  else r.populace config (k + 1) (r.folk (k + 1)) [⟨k + 1, 1⟩]

theorem createClone_folk (k : Nat) :
    (r.populace config (k + 1) (r.folk (k + 1)) [⟨k + 1, 1⟩]).createClone (.member (k + 1)) =
      .ok (k + 2,
        { r.populace config (k + 2) (r.folk (k + 1) ++ [r.member (k + 2) (k + 1)])
            [⟨k + 1, 1⟩, ⟨k + 2, 1⟩] with
          spawns := [⟨k + 2, 0, k + 2, ⟨r.counting, count r.bound⟩⟩] }) := by
  have hf : (r.folk (k + 1)).find? (·.id == k + 1) = some (r.member (k + 1) (k + 1)) := by
    rw [folk_succ]
    exact r.find?_stage k _ [] rfl
  have h := r.createClone_populace config [⟨k + 1, 1⟩] (Nat.succ_pos k) hf rfl
    fun _ => r.id_le_of_mem_folk
  rwa [r.cloned_member (Nat.succ_pos k)] at h

end Worlds

section Runs

variable {p : Project} {k}

theorem run_replicate (t : Nat)
    (hp : p.world = r.populace config (k + 1) (r.folk (k + 1)) [⟨k + 1, 1⟩])
    (hk : k + 1 < r.bound) :
    Project.run ⟨t, k + 1⟩ (replicate ⟨t, k + 1⟩) p =
      (.finished, { p with world := r.acted config k }) := by
  have ha : p.world.answer (k + 1) (.createClone (.member (k + 1))) =
      .ok (k + 2, r.acted config k) := by
    rw [hp, acted, if_pos hk]
    exact r.createClone_folk config k
  exact Project.run_trying ha

theorem run_count (t : Nat) (hk : 1 ≤ k)
    (hp : p.world = r.populace config (k + 1) (r.folk k ++ [r.member (k + 1) k]) [⟨k + 1, 1⟩]) :
    Project.run ⟨t, k + 1⟩ (count r.bound ⟨t, k + 1⟩) p =
      (.finished, { p with world := r.acted config k }) := by
  have hm : p.world.member (k + 1) = .ok (r.member (k + 1) k, r.actor (k + 1)) := by
    rw [hp]
    exact r.member_populace config _ (r.find?_stage k _ [] rfl) rfl
  have hget : p.world.attribute? (k + 1) "copied_id" = .ok (.int k) := by
    unfold World.attribute?
    rw [hm]
    simp [member, r.get?_counted hk]
  have hset : p.world.answer (k + 1) (.set "copied_id" (.int (k + 1))) =
      .ok ((), r.populace config (k + 1) (r.folk (k + 1)) [⟨k + 1, 1⟩]) := by
    show p.world.setAttribute _ _ _ = _
    unfold World.setAttribute
    rw [hm, hp, ← r.reshape_stage config k _ hk]
    rfl
  unfold count
  rw [Project.run_getInt hget, Project.run_trying hset]
  by_cases hlast : k + 1 < r.bound
  · have hmore : ((k : Int) + 1 < r.bound) := by exact_mod_cast hlast
    rw [if_pos hmore]
    exact r.run_replicate config t rfl hlast
  · have hdone : ¬ ((k : Int) + 1 < r.bound) := by exact_mod_cast hlast
    rw [if_neg hdone, acted, if_neg hlast]
    rfl

theorem run_stage (hk : k < r.bound)
    (hp : p.world = (r.stage config k).world) :
    Project.run ⟨k + 1, k + 1⟩ ((r.handler k).body ⟨k + 1, k + 1⟩) p =
      (.finished, { p with world := r.acted config k }) := by
  unfold handler
  split
  · rename_i h0
    subst h0
    exact r.run_replicate config 1 hp r.several
  · exact r.run_count config (k + 1) (Nat.pos_of_ne_zero ‹_›) hp

theorem settle_acted (hk : k < r.bound) :
    ({ r.stage config k with
      threads := []
      frame := k + 1
      world := { (r.acted config k).leaveGroup (k + 1) with
        questions := (r.acted config k).questions.filter (·.thread ≠ k + 1) } } : Project).settle =
      r.after config (k + 1) := by
  by_cases hlast : k + 1 < r.bound
  · have hlive : (r.folk (k + 1) ++ [r.member (k + 2) (k + 1)]).any (·.id == k + 2) = true := by
      simp [member]
    have hclone : r.handler (k + 1) = ⟨r.counting, count r.bound⟩ := if_neg (Nat.succ_ne_zero k)
    unfold after acted
    rw [if_pos hlast, if_pos hlast]
    simp [World.leaveGroup, Project.settle, Project.launchAll, Project.launch, World.isLive,
      Project.updateWorld, populace, hlive, stage, runner, hclone]
  · have hbound : r.bound = k + 1 := by omega
    unfold after acted
    rw [if_neg hlast, if_neg hlast]
    simp [World.leaveGroup, Project.settle, Project.launchAll, Project.updateWorld, populace, stage,
      rest, hbound]

end Runs

section Frames

theorem prepare_stage : (r.stage config k).prepare = { r.stage config k with frame := k + 1 } := rfl

theorem turn?_stage (hk : k < r.bound) :
    (r.stage config k).prepare.turn? (laps + 1) (k + 1) = some (true, r.after config (k + 1)) := by
  have hl : (r.stage config k).prepare.world.isLive (k + 1) = true := by
    rw [prepare_stage]
    simp [stage, populace, World.isLive, member]
  have hr := r.run_stage config (p := (r.stage config k).prepare) hk rfl
  have ht := Project.turn?_sole (p := (r.stage config k).prepare) (t := r.runner config k)
    rfl rfl rfl hl hr laps
  rw [← r.settle_acted config hk]
  exact ht

theorem frame?_stage (hk : k < r.bound) :
    (r.stage config k).frame? (laps + 1) = some ([k + 1], r.after config (k + 1)) := by
  show Project.pass? (laps + 1) [k + 1] (r.stage config k).prepare = _
  simp only [Project.pass?, r.turn?_stage config laps k hk, Option.map_some, if_true]

theorem frame?_rest : (r.rest config k).frame? laps = some ([], r.rest config (k + 1)) := rfl

theorem frame?_after :
    ((r.after config k).frame? (laps + 1)).map (·.2) = some (r.after config (k + 1)) := by
  by_cases hk : k < r.bound
  · have ha : r.after config k = r.stage config k := if_pos hk
    rw [ha, frame?_stage r config laps k hk]
    rfl
  · have ha : r.after config k = r.rest config k := if_neg hk
    have hn : r.after config (k + 1) = r.rest config (k + 1) := if_neg (by omega)
    rw [ha, hn, frame?_rest]
    rfl

theorem frames?_after : (r.after config 0).frames? (laps + 1) k = some (r.after config k) := by
  induction k with
  | zero => rfl
  | succ k ih =>
    unfold Project.frames?
    rw [ih]
    exact r.frame?_after config laps k

end Frames

section Beginning

def founded : Project where
  world := { r.populace config 1 (r.folk 1) [] with lastGroup := 0 }

theorem register_declared :
    Project.register { world := { config := config } } r.declared .sprite =
      (.ok 0, r.founded config) := by
  have hr : Project.refusal? { config := config } r.declared .sprite = none := by
    unfold Project.refusal?
    rw [if_neg (not_not.2 r.sprite)]
    rfl
  unfold Project.register
  dsimp only
  rw [hr]
  simp only [Project.updateWorld, r.listed, r.starts, Project.foldl_record_look, List.append_nil]
  rfl

theorem broadcast_founded :
    (r.founded config).broadcast r.message = r.after config 0 := by
  have hf : (r.actor 1).handlersFor (.message r.message) = [⟨r.founding, replicate⟩] := r.receives
  have hs : (r.founded config).world.starts (.message r.message) =
      [⟨0, 1, ⟨r.founding, replicate⟩⟩] := by
    show [r.actor 1].flatMap _ = _
    simp only [List.flatMap_cons, List.flatMap_nil, hf, List.append_nil]
    rfl
  have ha : r.after config 0 = r.stage config 0 :=
    if_pos (Nat.lt_of_lt_of_le Nat.zero_lt_two r.several)
  unfold Project.broadcast World.broadcast World.dispatch
  rw [ha]
  simp only [Project.updateWorld, hs]
  rfl

end Beginning

section Readings

def expected : List Nat :=
  if k < r.bound then List.range' 1 k ++ [k] else List.range' 1 r.bound

theorem find?_folk {n id : Nat} (h : 1 ≤ id) (hn : id ≤ n) (js : List Instance) :
    (r.folk n ++ js).find? (·.id == id) = some (r.member id id) := by
  induction n generalizing js with
  | zero => omega
  | succ n ih =>
    rw [folk_succ, List.append_assoc]
    by_cases hid : id = n + 1
    · subst hid
      exact r.find?_stage n _ js rfl
    · exact ih (by omega) _

theorem readings_populace {n : Nat} {is : List Instance} {gs : List Group} (value : Nat → Nat)
    {p : Project} (hp : p.world = r.populace config n is gs)
    (hv : ∀ id, 1 ≤ id → id ≤ n → ∃ i, is.find? (·.id == id) = some i ∧
      i.figure.attributes.get? "copied_id" = some (.int (value id))) :
    p.readings r.declared.name "copied_id" =
      .ok (((List.range' 1 n).reverse.map value).map fun v : Nat => some (.int v)) := by
  have hactor : p.actor r.declared.name = .ok (r.actor n) := by
    have hfound : p.world.actorNamed? r.declared.name = some (r.actor n) := by
      rw [hp]
      exact List.find?_cons_of_pos (beq_self_eq_true _)
    unfold Project.actor
    rw [hfound]
  unfold Project.readings Project.instancesOf
  rw [hactor]
  refine congrArg Except.ok ?_
  dsimp only
  rw [List.map_filterMap, List.map_map, ← List.filterMap_eq_map]
  refine List.filterMap_congr fun id hid => ?_
  have hid' := List.mem_range'_1.1 (List.mem_reverse.1 hid)
  obtain ⟨i, hi, hget⟩ := hv id hid'.1 (by omega)
  have hinst : p.world.instance? id = some i := by rw [hp]; exact hi
  rw [hinst]
  exact congrArg some hget

theorem mergeSort_eq {ns ms : List Nat} (h : ns.Perm ms) (hs : ms.Pairwise (· ≤ ·)) :
    ns.mergeSort = ms :=
  ((List.mergeSort_perm _ _).trans h).eq_of_pairwise' (List.pairwise_mergeSort' (· ≤ ·) ns) hs

theorem readings_rest : ∃ ns : List Nat,
    (r.rest config k).readings r.declared.name "copied_id" =
      .ok (ns.map fun n : Nat => some (.int n)) ∧ ns.mergeSort = List.range' 1 r.bound := by
  refine ⟨_, r.readings_populace config id rfl fun id h hn =>
    ⟨r.member id id, ?_, r.get?_counted h⟩, mergeSort_eq ?_ (List.pairwise_le_range' 1)⟩
  · rw [← List.append_nil (r.folk r.bound)]
    exact r.find?_folk h hn []
  · rw [List.map_id]
    exact List.reverse_perm _

theorem readings_stage (hk : 1 ≤ k) : ∃ ns : List Nat,
    (r.stage config k).readings r.declared.name "copied_id" =
      .ok (ns.map fun n : Nat => some (.int n)) ∧ ns.mergeSort = List.range' 1 k ++ [k] := by
  refine ⟨_, r.readings_populace config (min · k) rfl fun id h hn => ?_,
    mergeSort_eq ?_ ?_⟩
  · by_cases hid : id = k + 1
    · subst hid
      refine ⟨_, r.find?_stage k _ [] rfl, ?_⟩
      rw [Nat.min_eq_right (Nat.le_succ k)]
      exact r.get?_counted hk
    · have hle : id ≤ k := by omega
      refine ⟨_, r.find?_folk h hle _, ?_⟩
      rw [Nat.min_eq_left hle]
      exact r.get?_counted h
  · have hmap : (List.range' 1 (k + 1)).map (min · k) = List.range' 1 k ++ [k] := by
      rw [List.range'_concat, List.map_append]
      congr 1
      · refine (List.map_congr_left fun id hid => ?_).trans (List.map_id _)
        have := List.mem_range'_1.1 hid
        exact Nat.min_eq_left (by omega)
      · simp
    rw [List.map_reverse, hmap]
    exact List.reverse_perm _
  · refine List.pairwise_append.2 ⟨List.pairwise_le_range' 1, List.pairwise_singleton _ _, ?_⟩
    intro a ha b hb
    have := List.mem_range'_1.1 ha
    obtain rfl := List.mem_singleton.1 hb
    omega

end Readings

-- Frame by frame, the newest clone counts one further and makes the next, until the bound.
theorem counts_to_bound {p : Project} (hp : Project.new config = .ok p) :
    (p.register r.declared .sprite).1 = .ok 0 ∧
    ∃ q, ((p.register r.declared .sprite).2.broadcast r.message).frames? (laps + 1) k = some q ∧
      (1 ≤ k → ∃ ns : List Nat,
        q.readings r.declared.name "copied_id" = .ok (ns.map fun n : Nat => some (.int n)) ∧
        ns.mergeSort = if k < r.bound then List.range' 1 k ++ [k] else List.range' 1 r.bound) ∧
      (r.bound ≤ k → q.threads = [] ∧ q.world.groups = [] ∧
        ∀ laps, q.frame? laps = some ([], { q with frame := q.frame + 1 })) := by
  obtain rfl : p = { world := { config := config } } := by
    unfold Project.new at hp
    cases hc : config.check with
    | error e => rw [hc] at hp; cases hp
    | ok _ => rw [hc] at hp; cases hp; rfl
  rw [r.register_declared]
  refine ⟨rfl, r.after config k, ?_, fun hk => ?_, fun hk => ?_⟩
  · rw [broadcast_founded]
    exact r.frames?_after config laps k
  · unfold after
    split
    · exact r.readings_stage config k hk
    · exact r.readings_rest config k
  · have ha : r.after config k = r.rest config k := if_neg (Nat.not_lt.2 hk)
    rw [ha]
    exact ⟨rfl, rfl, fun laps => r.frame?_rest config laps k⟩

def broom (bound : Nat) (h : 2 ≤ bound) : Replicator where
  declared := {
    name := "Broom"
    kind := .sprite
    init := InitStep.runAll [.set "copied_id" (.int 1)]
    handlers := [
      ⟨.ok (.message "clone-self"), "clone_self", replicate⟩,
      ⟨.ok .startAsClone, "update_id", count bound⟩] }
  message := "clone-self"
  bound := bound
  groups := [⟨.message "clone-self", [⟨"clone_self", replicate⟩]⟩,
    ⟨.startAsClone, [⟨"update_id", count bound⟩]⟩]
  looks := []
  figure := ({} : Figure).setAttribute "copied_id" (.int 1)
  founding := "clone_self"
  counting := "update_id"
  several := h
  sprite := rfl
  listed := rfl
  starts := rfl
  first := rfl
  receives := rfl
  awakes := rfl

theorem broom_counts_to_five :
    Project.new {} = .ok {} ∧
    ∃ q, ((({} : Project).register (broom 5 (by decide)).declared .sprite).2.broadcast
        "clone-self").frames? 1 5 = some q ∧
      ∃ ns : List Nat, q.readings "Broom" "copied_id" = .ok (ns.map fun n : Nat => some (.int n)) ∧
        ns.mergeSort = [1, 2, 3, 4, 5] := by
  have hnew : Project.new {} = .ok {} := rfl
  obtain ⟨-, q, hq, hns, -⟩ := (broom 5 (by decide)).counts_to_bound {} 0 5 hnew
  exact ⟨hnew, q, hq, hns (by decide)⟩

end Replicator

end SpriteStage

import SpriteStage.Proofs.Requesting

namespace SpriteStage

open Project

-- What a loader does about a load that it has given: it answers, or it lets go of it.
inductive Tidings where
  | answer (outcome : Outcome)
  | leave

def Tidings.apply : Tidings → Load → Load
  | .answer outcome, l => l.answer outcome
  | .leave, l => l.abandon

namespace Load

-- One load, earlier and later, while nobody looks at it.
structure Becomes (l l' : Load) : Prop where
  key : l'.key = l.key
  stands : ∀ {outcome : Outcome}, l.result? = some outcome → l'.result? = some outcome

variable {l : Load}

theorem Becomes.refl (l : Load) : Becomes l l := ⟨rfl, id⟩

theorem Becomes.trans {l l' l'' : Load} (h : Becomes l l') (h' : Becomes l' l'') : Becomes l l'' :=
  ⟨h'.key.trans h.key, fun hl => h'.stands (h.stands hl)⟩

-- The room for a result is taken until somebody looks, so a second answer goes nowhere.
theorem becomes_answer (l : Load) (outcome : Outcome) : Becomes l (l.answer outcome) := by
  unfold answer
  split
  · rename_i ha
    obtain ⟨kind, locator, result, attended⟩ := l
    obtain ⟨rfl, hresult⟩ := Bool.and_eq_true_iff.1 ha
    obtain rfl := Option.isNone_iff_eq_none.1 hresult
    exact ⟨rfl, fun h => nomatch h⟩
  · exact .refl l

theorem becomes_abandon (l : Load) : Becomes l l.abandon := by
  obtain ⟨kind, locator, result, attended⟩ := l
  refine ⟨rfl, fun h => ?_⟩
  cases result with
  | some outcome => exact h
  | none =>
    cases attended with
    | true => cases h
    | false => exact h

theorem becomes_tidings (t : Tidings) (l : Load) : Becomes l (t.apply l) :=
  match t with
  | .answer outcome => becomes_answer l outcome
  | .leave => becomes_abandon l

theorem result?_abandon (h : l.result? = none) :
    l.abandon.result? = some (.error (.abandoned l.kind l.locator)) := by
  obtain ⟨kind, locator, result, attended⟩ := l
  cases result with
  | some outcome => cases h
  | none => rfl

-- A load is settled by its asset, under its own key, or by one report, never by both.
def SettledBy (l : Load) : Outcome → Prop
  | .ok asset => l.asset? = some (l.key, asset) ∧ l.report? = none
  | .error e => l.asset? = none ∧ l.report? = some ⟨.asset, e.message⟩

theorem settledBy_of_result? {outcome : Outcome} (h : l.result? = some outcome) :
    l.SettledBy outcome := by
  unfold SettledBy asset? report?
  rw [h]
  cases outcome with
  | ok asset => exact ⟨rfl, rfl⟩
  | error e => exact ⟨rfl, rfl⟩

end Load

section Answers

open Load

theorem becomes_onOldest {change : Load → Load} (hc : ∀ l, Becomes l (change l)) (kind : AssetKind)
    (locator : String) (loads : List Load) :
    List.Forall₂ Becomes loads (onOldest kind locator change loads) := by
  have hsame (loads : List Load) : List.Forall₂ Becomes loads loads :=
    List.forall₂_same.2 fun l _ => .refl l
  induction loads with
  | nil => exact .nil
  | cons l loads ih =>
    unfold onOldest
    split
    · exact .cons (hc l) (hsame loads)
    · exact .cons (.refl l) ih

theorem becomes_modify {change : Load → Load} (hc : ∀ l, Becomes l (change l)) (place : ℕ)
    (loads : List Load) : List.Forall₂ Becomes loads (loads.modify place change) := by
  induction loads generalizing place with
  | nil => cases place <;> exact .nil
  | cons l loads ih =>
    cases place with
    | zero => exact .cons (hc l) (List.forall₂_same.2 fun l _ => .refl l)
    | succ place => exact .cons (.refl l) (ih place)

theorem Event.becomes (e : Event) (loads : List Load) :
    List.Forall₂ Becomes loads (e.answers loads) := by
  cases e with
  | operate op =>
    cases op with
    | completeLoad kind locator outcome =>
      have hdone (l : Load) : Becomes l (l.answer outcome).abandon :=
        (becomes_answer l outcome).trans (becomes_abandon _)
      exact becomes_onOldest hdone kind locator loads
    | abandonLoad kind locator => exact becomes_onOldest becomes_abandon kind locator loads
    | _ => exact List.forall₂_same.2 fun l _ => .refl l
  | _ => exact List.forall₂_same.2 fun l _ => .refl l

end Answers

-- The paper trail of a run: the loads as loaders have given them; each again with its number among
-- them, as it is now or as it was when it was taken in; and the reports that the host has taken.
structure Docket where
  issued : List Load := []
  out : List (Load × ℕ) := []
  closed : List (Load × ℕ) := []
  taken : List Report := []

namespace Docket

variable {d : Docket} {p : Project} {m n : Moment} {e : Event} {change : List Load → List Load}

def issue (loads : List Load) (d : Docket) : Docket :=
  { d with issued := d.issued ++ loads, out := d.out ++ loads.zipIdx d.issued.length }

def look (d : Docket) : Docket :=
  { d with
    out := d.out.filter (·.1.result?.isNone)
    closed := d.closed ++ d.out.filter (·.1.result?.isSome) }

def tell (change : List Load → List Load) (d : Docket) : Docket :=
  { d with out := (change (d.out.map Prod.fst)).zip (d.out.map Prod.snd) }

def take (reports : List Report) (d : Docket) : Docket := { d with taken := d.taken ++ reports }

def follow (e : Event) (m : Moment) (d : Docket) : Docket :=
  match e.looksAt? m.project with
  | some _ => ((d.take (e.taken m)).issue (e.asks m.project)).look
  | none => (d.take (e.taken m)).tell e.answers

-- Every load is out or closed, and that once, under its own key; those that are out are in order.
structure Sound (d : Docket) : Prop where
  ordered : (d.out.map Prod.snd).Pairwise (· < ·)
  once : ((d.closed ++ d.out).map Prod.snd).Perm (List.range d.issued.length)
  own : ∀ x ∈ d.closed ++ d.out, (d.issued[x.2]?).map Load.key = some x.1.key
  ready : ∀ x ∈ d.closed, x.1.result?.isSome = true

-- The project is where its trail says: the loads that are out, the assets that came, the failures.
structure Matches (d : Docket) (p : Project) : Prop where
  loads : p.loads = d.out.map Prod.fst
  assets : p.world.assets = ((d.closed.map Prod.fst).filterMap Load.asset?).reverse
  reports : (d.taken ++ p.world.errors).filter (·.origin = .asset) =
    (d.closed.map Prod.fst).filterMap Load.report?

section Telling

theorem told_of_mem {α β : Type} {R : α → β → Prop} {xs : List α} {ys : List β}
    (h : List.Forall₂ R xs ys) {x : α} (hx : x ∈ xs) : ∃ y ∈ ys, R x y := by
  induction h with
  | nil => cases hx
  | cons hR _ ih =>
    rcases List.mem_cons.1 hx with rfl | hx
    · exact ⟨_, List.mem_cons_self, hR⟩
    · obtain ⟨y, hy, hxy⟩ := ih hx
      exact ⟨y, List.mem_cons_of_mem _ hy, hxy⟩

-- What is told to the loads reaches each one under its number.
theorem told (hc : ∀ loads, List.Forall₂ Load.Becomes loads (change loads)) (d : Docket) :
    List.Forall₂ (fun x y => y.2 = x.2 ∧ Load.Becomes x.1 y.1) d.out (d.tell change).out := by
  have htold := hc (d.out.map Prod.fst)
  unfold tell
  generalize change (d.out.map Prod.fst) = loads at htold
  generalize d.out = out at htold
  induction out generalizing loads with
  | nil =>
    cases htold
    exact .nil
  | cons x out ih =>
    cases htold with
    | cons hx hrest => exact .cons ⟨rfl, hx⟩ (ih _ hrest)

theorem mem_tell (hc : ∀ loads, List.Forall₂ Load.Becomes loads (change loads)) {l : Load}
    {number : ℕ} (h : (l, number) ∈ d.out) :
    ∃ l', (l', number) ∈ (d.tell change).out ∧ Load.Becomes l l' := by
  obtain ⟨⟨l', number⟩, hy, rfl, hbecomes⟩ := told_of_mem (told hc d) h
  exact ⟨l', hy, hbecomes⟩

theorem mem_of_mem_tell (hc : ∀ loads, List.Forall₂ Load.Becomes loads (change loads))
    {x : Load × ℕ} (h : x ∈ (d.tell change).out) : ∃ l, (l, x.2) ∈ d.out ∧ Load.Becomes l x.1 := by
  have hback : List.Forall₂ (fun y x : Load × ℕ => y.2 = x.2 ∧ Load.Becomes x.1 y.1)
      (d.tell change).out d.out := (told hc d).flip
  obtain ⟨⟨l, number⟩, hl, rfl, hbecomes⟩ := told_of_mem hback h
  exact ⟨l, hl, hbecomes⟩

theorem snd_tell (hc : ∀ loads, List.Forall₂ Load.Becomes loads (change loads)) (d : Docket) :
    (d.tell change).out.map Prod.snd = d.out.map Prod.snd := by
  refine List.map_snd_zip (Nat.le_of_eq ?_)
  rw [← (hc _).length_eq, List.length_map, List.length_map]

theorem fst_tell (hc : ∀ loads, List.Forall₂ Load.Becomes loads (change loads)) (d : Docket) :
    (d.tell change).out.map Prod.fst = change (d.out.map Prod.fst) := by
  refine List.map_fst_zip (Nat.le_of_eq ?_)
  rw [← (hc _).length_eq, List.length_map, List.length_map]

theorem Sound.tell (h : d.Sound) (hc : ∀ loads, List.Forall₂ Load.Becomes loads (change loads)) :
    (d.tell change).Sound where
  ordered := (snd_tell hc d).symm ▸ h.ordered
  once := by
    have honce := h.once
    rw [List.map_append] at honce ⊢
    rwa [snd_tell hc]
  own x hx := by
    rcases List.mem_append.1 hx with hclosed | hout
    · exact h.own x (List.mem_append_left _ hclosed)
    · obtain ⟨l, hl, hbecomes⟩ := mem_of_mem_tell hc hout
      rw [hbecomes.key]
      exact h.own _ (List.mem_append_right _ hl)
  ready := h.ready

end Telling

section Looking

theorem sound_empty : Sound {} :=
  ⟨.nil, .refl _, fun _ h => absurd h List.not_mem_nil, fun _ h => absurd h List.not_mem_nil⟩

theorem Sound.lt (h : d.Sound) {x : Load × ℕ} (hx : x ∈ d.closed ++ d.out) :
    x.2 < d.issued.length :=
  List.mem_range.1 (h.once.mem_iff.1 (List.mem_map_of_mem hx))

theorem Sound.issue (h : d.Sound) (loads : List Load) : (d.issue loads).Sound where
  ordered := by
    simp only [Docket.issue, List.map_append, List.zipIdx_map_snd]
    refine List.pairwise_append.2 ⟨h.ordered, List.pairwise_lt_range' 1, fun i hi j hj => ?_⟩
    obtain ⟨x, hx, rfl⟩ := List.mem_map.1 hi
    exact Nat.lt_of_lt_of_le (h.lt (List.mem_append_right _ hx)) (List.mem_range'_1.1 hj).1
  once := by
    simp only [Docket.issue, ← List.append_assoc, List.length_append]
    rw [List.map_append, List.zipIdx_map_snd, List.range_eq_range', ← List.range'_append_1,
      ← List.range_eq_range', Nat.zero_add]
    exact h.once.append_right _
  own x hx := by
    rw [Docket.issue, ← List.append_assoc] at hx
    rcases List.mem_append.1 hx with hold | hnew
    · simp only [Docket.issue]
      rw [List.getElem?_append_left (h.lt hold)]
      exact h.own x hold
    · obtain ⟨hle, hget⟩ := List.mem_zipIdx_iff_le_and_getElem?_sub.1 hnew
      simp only [Docket.issue]
      rw [List.getElem?_append_right hle, hget]
      rfl
  ready := h.ready

theorem look_perm (d : Docket) : (d.look.closed ++ d.look.out).Perm (d.closed ++ d.out) := by
  have hparts := List.filter_append_perm (fun x : Load × ℕ => x.1.result?.isSome) d.out
  simp only [Option.not_isSome] at hparts
  simp only [Docket.look, List.append_assoc]
  exact hparts.append_left _

theorem Sound.look (h : d.Sound) : d.look.Sound where
  ordered := h.ordered.sublist (List.filter_sublist.map _)
  once := ((look_perm d).map _).trans h.once
  own x hx := h.own x ((look_perm d).mem_iff.1 hx)
  ready x hx := by
    rcases List.mem_append.1 hx with hold | hnew
    · exact h.ready x hold
    · exact (List.mem_filter.1 hnew).2

theorem Sound.follow (h : d.Sound) (e : Event) (m : Moment) : (d.follow e m).Sound := by
  have htake : (d.take (e.taken m)).Sound := ⟨h.ordered, h.once, h.own, h.ready⟩
  unfold Docket.follow
  split
  · exact (htake.issue _).look
  · exact htake.tell e.becomes

end Looking

section Matching

theorem matches_of_bare {p : Project} (h : p.Bare) (he : p.world.errors = []) : Matches {} p := by
  refine ⟨h.loads, h.assets, ?_⟩
  rw [he]
  rfl

theorem fst_issue {loads : List Load} (h : d.Matches p) (he : e.looksAt? p = some loads)
    (reports : List Report) : ((d.take reports).issue (e.asks p)).out.map Prod.fst = loads := by
  simp only [Docket.issue, Docket.take, List.map_append, List.zipIdx_map_fst]
  rw [← h.loads, Moment.asks_of_looksAt? he]

theorem map_filter_fst (f : Load → Bool) (rows : List (Load × ℕ)) :
    (rows.filter fun x => f x.1).map Prod.fst = (rows.map Prod.fst).filter f := by
  rw [List.filter_map]
  rfl

-- What an event takes in is what it settles.
theorem closed_follow (h : d.Matches m.project) (e : Event) :
    (d.follow e m).closed.map Prod.fst = d.closed.map Prod.fst ++ e.settles m.project := by
  unfold Docket.follow Event.settles
  cases he : e.looksAt? m.project with
  | none => exact (List.append_nil _).symm
  | some loads =>
    simp only [Docket.look, List.map_append]
    rw [map_filter_fst (fun l => l.result?.isSome), fst_issue h he]
    rfl

theorem taken_follow (d : Docket) (e : Event) (m : Moment) :
    (d.follow e m).taken = d.taken ++ e.taken m := by
  unfold Docket.follow
  split <;> rfl

theorem Matches.follow (h : d.Matches m.project) (he : m.act? e = some n) :
    (d.follow e m).Matches n.project where
  loads := by
    rw [Moment.act?_loads he]
    unfold Docket.follow
    cases hl : e.looksAt? m.project with
    | none =>
      refine Eq.trans ?_ (fst_tell e.becomes (d.take (e.taken m))).symm
      exact congrArg e.answers h.loads
    | some loads =>
      refine Eq.trans ?_ (map_filter_fst (fun l => l.result?.isNone) _).symm
      rw [fst_issue h hl]
      rfl
  assets := by
    rw [Moment.act?_assets he, closed_follow h, List.filterMap_append, List.reverse_append,
      h.assets]
  reports := by
    rw [taken_follow, List.append_assoc, Moment.act?_errors he, ← List.append_assoc,
      List.filter_append, h.reports, Moment.occurred_assets, closed_follow h,
      List.filterMap_append]

theorem Matches.tell (h : d.Matches p)
    (hc : ∀ loads, List.Forall₂ Load.Becomes loads (change loads)) :
    (d.tell change).Matches { p with loads := change p.loads } :=
  ⟨(congrArg change h.loads).trans (fst_tell hc d).symm, h.assets, h.reports⟩

end Matching

section Keeping

-- A row of a docket under a number: what it is a load of, and what that has come to.
def Shows (rows : List (Load × ℕ)) (number : ℕ) (key : AssetKind × String) (outcome : Outcome) :
    Prop :=
  ∃ l, (l, number) ∈ rows ∧ l.key = key ∧ l.result? = some outcome

variable {number : ℕ} {key : AssetKind × String} {outcome : Outcome}

theorem Shows.tell (h : Shows d.out number key outcome)
    (hc : ∀ loads, List.Forall₂ Load.Becomes loads (change loads)) :
    Shows (d.tell change).out number key outcome := by
  obtain ⟨l, hl, hkey, hresult⟩ := h
  obtain ⟨l', hl', hbecomes⟩ := mem_tell hc hl
  exact ⟨l', hl', hbecomes.key.trans hkey, hbecomes.stands hresult⟩

theorem Shows.closed_follow (h : Shows d.closed number key outcome) (e : Event) (m : Moment) :
    Shows (d.follow e m).closed number key outcome := by
  obtain ⟨l, hl, hl'⟩ := h
  refine ⟨l, ?_, hl'⟩
  unfold Docket.follow
  split
  · exact List.mem_append_left _ hl
  · exact hl

theorem Shows.out_follow (h : Shows d.out number key outcome) (he : e.looksAt? m.project = none) :
    Shows (d.follow e m).out number key outcome := by
  unfold Docket.follow
  rw [he]
  exact Shows.tell (d := d.take (e.taken m)) h e.becomes

-- Looking takes in everything that is ready.
theorem Shows.looked {loads : List Load} (h : Shows d.out number key outcome)
    (he : e.looksAt? m.project = some loads) :
    Shows (d.follow e m).closed number key outcome := by
  obtain ⟨l, hl, hkey, hresult⟩ := h
  refine ⟨l, ?_, hkey, hresult⟩
  unfold Docket.follow
  rw [he]
  refine List.mem_append_right _ (List.mem_filter.2 ⟨List.mem_append_left _ hl, ?_⟩)
  rw [hresult]
  rfl

end Keeping

end Docket

-- What happens in a run: the host acts, or a loader does, at whatever time.
inductive Stir where
  | event (e : Event)
  | tidings (place : ℕ) (t : Tidings)

def Stir.Polls : Stir → Prop
  | .event .frame => True
  | .event (.operate .poll) => True
  | .event (.operate (.loadAssets _)) => True
  | _ => False

def Project.heed (place : ℕ) (t : Tidings) (p : Project) : Project :=
  { p with loads := p.loads.modify place t.apply }

-- What polling and asking for assets answer the host.
def Operation.tally? : Operation → Project → Option ℕ
  | .loadAssets loader, p => some (p.loadAssets loader).loads.length
  | .poll, p => some p.poll.loads.length
  | _, _ => none

namespace Project

-- Loads have gone, assets have come and failures of loads have been reported; nothing else.
structure Restocks (p q : Project) : Prop where
  same : q = { p with
    loads := q.loads
    world := { p.world with assets := q.world.assets, errors := q.world.errors } }
  assets : p.world.assets <:+ q.world.assets
  errors : ∃ reports, q.world.errors = p.world.errors ++ reports ∧ ∀ r ∈ reports, r.origin = .asset

def requesting (p : Project) : Project :=
  p.updateWorld fun w => { w with
    journal := (p.wanted.map fun key => Entry.request key.1 key.2).reverse ++ w.journal }

theorem restocks_poll (p : Project) : p.Restocks p.poll := by
  rw [poll_eq]
  refine ⟨rfl, List.suffix_append _ _, _, rfl, fun r hr => ?_⟩
  obtain ⟨l, -, hl⟩ := List.mem_filterMap.1 hr
  exact Moment.origin_of_report? hl

theorem restocks_loadAssets (p : Project) (loader : Loader) :
    p.requesting.Restocks (p.loadAssets loader) := by
  rw [loadAssets_eq]
  obtain ⟨hsame, hassets, herrors⟩ := restocks_poll { p.requesting with
    loads := p.loads ++ p.wanted.map fun key => loader key.1 key.2 }
  exact ⟨hsame, hassets, herrors⟩

end Project

structure Tracked where
  moment : Moment
  docket : Docket := {}

namespace Tracked

open Moment

variable {κ : Conduct} {p : Project} {x y : Tracked} {e : Event} {s : Stir} {stirs : List Stir}

def stir? : Stir → Tracked → Option Tracked
  | .event e, ⟨m, d⟩ => (m.act? e).map fun n => ⟨n, d.follow e m⟩
  | .tidings place t, ⟨⟨p, ids⟩, d⟩ =>
    some ⟨⟨p.heed place t, ids⟩, d.tell fun loads => loads.modify place t.apply⟩

def stirs? : List Stir → Tracked → Option Tracked
  | [], x => some x
  | s :: stirs, x => (stir? s x).bind (stirs? stirs)

-- A project and its trail agree.
structure Kept (x : Tracked) : Prop where
  sound : x.docket.Sound
  agrees : x.docket.Matches x.moment.project

theorem becomes_modified (place : ℕ) (t : Tidings) (loads : List Load) :
    List.Forall₂ Load.Becomes loads (loads.modify place t.apply) :=
  becomes_modify (Load.becomes_tidings t) place loads

theorem Kept.stir (h : x.Kept) (hs : stir? s x = some y) : y.Kept := by
  obtain ⟨⟨p, ids⟩, d⟩ := x
  cases s with
  | event e =>
    obtain ⟨n, hn, rfl⟩ := Option.map_eq_some_iff.1 hs
    exact ⟨h.sound.follow e _, h.agrees.follow hn⟩
  | tidings place t =>
    cases hs
    exact ⟨h.sound.tell (becomes_modified place t), h.agrees.tell (becomes_modified place t)⟩

-- What every stir keeps, a run keeps.
theorem keeps_stirs {I : Tracked → Prop} (hI : ∀ {s x y}, I x → stir? s x = some y → I y) (h : I x)
    (hs : stirs? stirs x = some y) : I y := by
  induction stirs generalizing x with
  | nil =>
    cases hs
    exact h
  | cons s stirs ih =>
    obtain ⟨mid, hmid, hy⟩ := Option.bind_eq_some_iff.1 hs
    exact ih (hI h hmid) hy

theorem kept_start (h : Start κ p) : Kept ⟨⟨p, []⟩, {}⟩ :=
  ⟨Docket.sound_empty, Docket.matches_of_bare h.bare h.errors⟩

theorem polls_iff (e : Event) (p : Project) :
    (Stir.event e).Polls ↔ ∃ loads, e.looksAt? p = some loads := by
  cases e with
  | operate op =>
    cases op with
    | loadAssets loader => exact ⟨fun _ => ⟨_, rfl⟩, fun _ => trivial⟩
    | poll => exact ⟨fun _ => ⟨_, rfl⟩, fun _ => trivial⟩
    | _ => exact ⟨False.elim, fun ⟨_, h⟩ => nomatch h⟩
  | frame => exact ⟨fun _ => ⟨_, rfl⟩, fun _ => trivial⟩
  | turn laps => exact ⟨False.elim, fun ⟨_, h⟩ => nomatch h⟩

section Promise

open Docket

variable {number : ℕ} {key : AssetKind × String} {outcome : Outcome}

theorem shows_closed_stir (h : Shows x.docket.closed number key outcome)
    (hs : stir? s x = some y) : Shows y.docket.closed number key outcome := by
  obtain ⟨⟨p, ids⟩, d⟩ := x
  cases s with
  | event e =>
    obtain ⟨n, -, rfl⟩ := Option.map_eq_some_iff.1 hs
    exact h.closed_follow e _
  | tidings place t =>
    cases hs
    exact h

theorem shows_closed_stirs (h : Shows x.docket.closed number key outcome)
    (hs : stirs? stirs x = some y) : Shows y.docket.closed number key outcome :=
  keeps_stirs (I := fun x => Shows x.docket.closed number key outcome) shows_closed_stir h hs

-- What is ready stays so until a poll, and the poll takes it in.
theorem shows_stir (h : Shows x.docket.out number key outcome) (hs : stir? s x = some y) :
    Shows y.docket.closed number key outcome ∨
      ¬ s.Polls ∧ Shows y.docket.out number key outcome := by
  obtain ⟨⟨p, ids⟩, d⟩ := x
  cases s with
  | event e =>
    obtain ⟨n, -, rfl⟩ := Option.map_eq_some_iff.1 hs
    cases he : e.looksAt? p with
    | some loads => exact .inl (h.looked he)
    | none =>
      refine .inr ⟨fun hp => ?_, h.out_follow he⟩
      obtain ⟨loads, hl⟩ := (polls_iff e p).1 hp
      rw [hl] at he
      cases he
  | tidings place t =>
    cases hs
    exact .inr ⟨id, h.tell (becomes_modified place t)⟩

theorem shows_stirs (h : Shows x.docket.out number key outcome) (hs : stirs? stirs x = some y)
    (hp : ∃ s ∈ stirs, s.Polls) : Shows y.docket.closed number key outcome := by
  induction stirs generalizing x with
  | nil =>
    obtain ⟨s, hmem, -⟩ := hp
    cases hmem
  | cons s stirs ih =>
    obtain ⟨mid, hmid, hy⟩ := Option.bind_eq_some_iff.1 hs
    rcases shows_stir h hmid with hclosed | ⟨hpolls, hout⟩
    · exact shows_closed_stirs hclosed hy
    · obtain ⟨s', hmem, hs'⟩ := hp
      rcases List.mem_cons.1 hmem with rfl | hmem
      · exact absurd hs' hpolls
      · exact ih hout hy ⟨s', hmem, hs'⟩

end Promise

-- What a poll does: it takes in whatever is ready, and leaves the rest as it was, in order.
structure Polled (x y : Tracked) (given : List Load) : Prop where
  issued : y.docket.issued = x.docket.issued ++ given
  ended : ∀ row ∈ x.docket.out ++ given.zipIdx x.docket.issued.length,
    row.1.result?.isSome = true → row ∈ y.docket.closed
  waits : y.docket.out =
    (x.docket.out ++ given.zipIdx x.docket.issued.length).filter (·.1.result?.isNone)
  left : ∀ l ∈ y.moment.project.loads, l.result? = none

-- Between polls every load keeps its place and none is settled.
structure Idled (x y : Tracked) : Prop where
  issued : y.docket.issued = x.docket.issued
  closed : y.docket.closed = x.docket.closed
  places : y.docket.out.map Prod.snd = x.docket.out.map Prod.snd

theorem polled_of_stir (hp : (Stir.event e).Polls) (hs : stir? (.event e) x = some y) :
    Polled x y (e.asks x.moment.project) := by
  obtain ⟨m, d⟩ := x
  obtain ⟨n, hn, rfl⟩ := Option.map_eq_some_iff.1 hs
  obtain ⟨loads, hl⟩ := (polls_iff e m.project).1 hp
  have hfollow : d.follow e m = ((d.take (e.taken m)).issue (e.asks m.project)).look := by
    unfold Docket.follow
    rw [hl]
  refine ⟨?_, fun row hrow hready => ?_, ?_, fun l hmem => ?_⟩
  · rw [hfollow]
    rfl
  · rw [hfollow]
    exact List.mem_append_right _ (List.mem_filter.2 ⟨hrow, hready⟩)
  · rw [hfollow]
    rfl
  · rw [act?_loads hn, hl] at hmem
    exact Option.isNone_iff_eq_none.1 (List.mem_filter.1 hmem).2

theorem idled_of_stir (hp : ¬ s.Polls) (hs : stir? s x = some y) : Idled x y := by
  obtain ⟨⟨p, ids⟩, d⟩ := x
  cases s with
  | tidings place t =>
    cases hs
    exact ⟨rfl, rfl, Docket.snd_tell (becomes_modified place t) d⟩
  | event e =>
    obtain ⟨n, -, rfl⟩ := Option.map_eq_some_iff.1 hs
    have hfollow : d.follow e ⟨p, ids⟩ = (d.take (e.taken ⟨p, ids⟩)).tell e.answers := by
      unfold Docket.follow
      cases hl : e.looksAt? p with
      | none => rfl
      | some loads => exact absurd ((polls_iff e p).2 ⟨loads, hl⟩) hp
    rw [hfollow]
    exact ⟨rfl, rfl, Docket.snd_tell e.becomes (d.take _)⟩

theorem shows_heard {place number : ℕ} {l : Load} {outcome : Outcome} {t : Tidings}
    (hl : x.docket.out[place]? = some (l, number)) (ht : (t.apply l).result? = some outcome)
    (hs : stir? (.tidings place t) x = some y) :
    Docket.Shows y.docket.out number l.key outcome := by
  obtain ⟨⟨p, ids⟩, d⟩ := x
  cases hs
  refine ⟨t.apply l, List.mem_of_getElem? (i := place) ?_, (Load.becomes_tidings t l).key, ht⟩
  have hfst : (d.out.map Prod.fst)[place]? = some l := by rw [List.getElem?_map, hl]; rfl
  have hsnd : (d.out.map Prod.snd)[place]? = some number := by rw [List.getElem?_map, hl]; rfl
  refine List.getElem?_zip_eq_some.2 ⟨?_, hsnd⟩
  rw [List.getElem?_modify_eq, hfst]
  rfl

-- Whatever loaders do and whenever: of every load that they have given, the trail says whether it
-- is out or what it has come to, the project says the same, and the host is told how many are out.
structure Accounted (x : Tracked) : Prop where
  sound : x.docket.Sound
  agrees : x.docket.Matches x.moment.project
  settled : ∀ row ∈ x.docket.closed, ∃ outcome,
    row.1.result? = some outcome ∧ row.1.SettledBy outcome
  polled : ∀ {e : Event} {y : Tracked}, (Stir.event e).Polls → stir? (.event e) x = some y →
    Polled x y (e.asks x.moment.project)
  idled : ∀ {s : Stir} {y : Tracked}, ¬ s.Polls → stir? s x = some y → Idled x y
  answered : ∀ {place number : ℕ} {l : Load} {outcome : Outcome} {stirs : List Stir} {y : Tracked},
    x.docket.out[place]? = some (l, number) → l.accepts = true →
      stirs? (.tidings place (.answer outcome) :: stirs) x = some y → (∃ s ∈ stirs, s.Polls) →
        Docket.Shows y.docket.closed number l.key outcome
  left : ∀ {place number : ℕ} {l : Load} {stirs : List Stir} {y : Tracked},
    x.docket.out[place]? = some (l, number) → l.result? = none →
      stirs? (.tidings place .leave :: stirs) x = some y → (∃ s ∈ stirs, s.Polls) →
        Docket.Shows y.docket.closed number l.key (.error (.abandoned l.kind l.locator))
  counted : ∀ {op : Operation} {count : ℕ} {y : Tracked}, op.tally? x.moment.project = some count →
    stir? (.event (.operate op)) x = some y →
      count = y.docket.out.length ∧ count + y.docket.closed.length = y.docket.issued.length
  polls : ∀ p : Project, p.Restocks p.poll
  loads : ∀ (p : Project) (loader : Loader), p.requesting.Restocks (p.loadAssets loader)

theorem Kept.counted (hx : x.Kept) {op : Operation} {count : ℕ}
    (hc : op.tally? x.moment.project = some count) (hs : stir? (.event (.operate op)) x = some y) :
    count = y.docket.out.length ∧ count + y.docket.closed.length = y.docket.issued.length := by
  have hy := hx.stir hs
  have hlength : y.docket.closed.length + y.docket.out.length = y.docket.issued.length := by
    have honce := hy.sound.once.length_eq
    rwa [List.length_map, List.length_append, List.length_range] at honce
  have hcount : count = y.moment.project.loads.length := by
    obtain ⟨⟨p, ids⟩, d⟩ := x
    obtain ⟨n, hn, rfl⟩ := Option.map_eq_some_iff.1 hs
    cases ids with
    | cons id ids => cases hn
    | nil =>
      cases hn
      cases op with
      | loadAssets loader => exact (Option.some.inj hc).symm
      | poll => exact (Option.some.inj hc).symm
      | _ => cases hc
  have hout : count = y.docket.out.length := by
    rw [hcount, hy.agrees.loads, List.length_map]
  exact ⟨hout, by omega⟩

end Tracked

namespace Moment

open Tracked

theorem Start.loads_accounted {κ : Conduct} {p : Project} {stirs : List Stir} {x : Tracked}
    (hs : Start κ p) (h : stirs? stirs ⟨⟨p, []⟩, {}⟩ = some x) : x.Accounted := by
  have hx : x.Kept := keeps_stirs Kept.stir (kept_start hs) h
  refine ⟨hx.sound, hx.agrees, fun row hrow => ?_, polled_of_stir, idled_of_stir, ?_, ?_,
    hx.counted, restocks_poll, restocks_loadAssets⟩
  · obtain ⟨outcome, ho⟩ := Option.isSome_iff_exists.1 (hx.sound.ready row hrow)
    exact ⟨outcome, ho, Load.settledBy_of_result? ho⟩
  · intro place number l outcome stirs y hl ha hy hp
    obtain ⟨mid, hmid, hrest⟩ := Option.bind_eq_some_iff.1 hy
    have hout := shows_heard (t := .answer outcome) hl (Load.result?_answer ha outcome) hmid
    exact shows_stirs hout hrest hp
  · intro place number l stirs y hl hnone hy hp
    obtain ⟨mid, hmid, hrest⟩ := Option.bind_eq_some_iff.1 hy
    have hout := shows_heard (t := .leave) hl (Load.result?_abandon hnone) hmid
    exact shows_stirs hout hrest hp

-- One image is asked for twice; the second load is answered first, and the first never.
def haste : List Stir :=
  [.event (.operate (.register phantom .sprite)), .event (.operate (.loadAssets awaited)),
    .event (.operate (.loadAssets awaited)),
    .tidings 1 (.answer (.ok (.image "boo.png" 4.0 4.0))), .event .frame, .tidings 0 .leave,
    .event (.operate .poll)]

theorem phantom_accounted : ∃ x, stirs? haste ⟨⟨{}, []⟩, {}⟩ = some x ∧ x.Accounted ∧
    x.docket.closed.map Prod.snd = [1, 0] ∧ x.moment.project.loads = [] ∧
      x.moment.project.world.errors =
        [⟨.asset, "loader dropped the request for image \"boo.png\""⟩] := by
  have hrun : stirs? haste ⟨⟨{}, []⟩, {}⟩ = some _ := rfl
  exact ⟨_, hrun, Start.loads_accounted start_empty hrun, rfl, rfl, rfl⟩

end Moment

end SpriteStage

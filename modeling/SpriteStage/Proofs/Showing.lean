import SpriteStage.Proofs.Story

namespace SpriteStage

open Project

-- The instance and the attribute of it that a watcher is about.
def Watcher.key (x : Watcher) : Nat × String := (x.owner, x.name)

-- When the showing of an attribute began that still goes on, counted in what had happened by then.
def began (key : Nat × String) : List Happening → Option Nat
  | [] => none
  | .shows owner name _ _ :: past =>
    if (owner, name) = key then some ((began key past).getD past.length) else began key past
  | .hides owner name :: past => if (owner, name) = key then none else began key past
  | .leaves id :: past => if id = key.1 then none else began key past
  | _ :: past => began key past

-- The label and the position that an attribute was last shown with.
def caption (key : Nat × String) : List Happening → Option (String × WatcherPosition)
  | [] => none
  | .shows owner name label position :: past =>
    if (owner, name) = key then some (label.getD name, position) else caption key past
  | _ :: past => caption key past

section Putting

variable {x y : Watcher} {watchers : List Watcher} {owner : Nat} {name : String}

theorem shows_iff : y.shows owner name = true ↔ y.key = (owner, name) := by
  simp [Watcher.shows, Watcher.key]

-- A watcher takes the place of the one that it renews, and the end if there is none.
theorem put_cases (x : Watcher) (watchers : List Watcher) :
    (∃ front old back, watchers = front ++ old :: back ∧ old.key = x.key ∧
      x.put watchers = front ++ x :: back) ∨
    x.key ∉ watchers.map Watcher.key ∧ x.put watchers = watchers ++ [x] := by
  induction watchers with
  | nil => exact .inr ⟨List.not_mem_nil, rfl⟩
  | cons y rest ih =>
    simp only [Watcher.put]
    split
    · rename_i hy
      exact .inl ⟨[], y, rest, rfl, shows_iff.1 hy, rfl⟩
    · rename_i hy
      have hne : y.key ≠ x.key := fun he => hy (shows_iff.2 he)
      rcases ih with ⟨front, old, back, rfl, hold, hput⟩ | ⟨hnew, hput⟩
      · exact .inl ⟨y :: front, old, back, rfl, hold, by rw [hput]; rfl⟩
      · refine .inr ⟨?_, by rw [hput]; rfl⟩
        rw [List.map_cons, List.mem_cons, not_or]
        exact ⟨hne.symm, hnew⟩

theorem hide_eq_filter (owner : Nat) (name : String) (watchers : List Watcher) :
    Watcher.hide owner name watchers = watchers.filter (·.key ≠ (owner, name)) :=
  List.filter_congr fun y _ => by
    rw [Bool.eq_iff_iff, Bool.not_eq_true', ← Bool.not_eq_true, shows_iff, decide_eq_true_iff]

end Putting

section Beginning

variable {key : Nat × String} {past news : List Happening} {t : Nat}

theorem began_lt (h : began key past = some t) : t < past.length := by
  induction past with
  | nil => cases h
  | cons now past ih =>
    rw [List.length_cons]
    cases now with
    | shows owner name label position =>
      rw [began] at h
      split at h
      · cases hb : began key past with
        | none =>
          rw [hb] at h
          cases h
          exact Nat.lt_succ_self _
        | some s =>
          rw [hb] at h
          cases h
          exact Nat.lt_succ_of_lt (ih hb)
      · exact Nat.lt_succ_of_lt (ih h)
    | hides owner name =>
      rw [began] at h
      split at h
      · cases h
      · exact Nat.lt_succ_of_lt (ih h)
    | leaves id =>
      rw [began] at h
      split at h
      · cases h
      · exact Nat.lt_succ_of_lt (ih h)
    | tunes owner gain => exact Nat.lt_succ_of_lt (ih h)
    | arrives id => exact Nat.lt_succ_of_lt (ih h)

theorem began_of_leaves (hn : ∀ x ∈ news, x.Passing)
    (h : .leaves key.1 ∈ news) : began key (news ++ past) = none := by
  refine read_settled (fun x hx hne past => ?_) h fun _ => if_pos rfl
  cases hn x hx with
  | leaves k => exact if_neg fun hk : k = key.1 => hne (congrArg _ hk)
  | arrives k => rfl

theorem began_of_stays (hn : ∀ x ∈ news, x.Passing)
    (h : .leaves key.1 ∉ news) : began key (news ++ past) = began key past := by
  refine read_skipped fun x hx past => ?_
  cases hn x hx with
  | leaves k => exact if_neg fun hk : k = key.1 => h (hk ▸ hx)
  | arrives k => rfl

theorem caption_append (hn : ∀ x ∈ news, x.Passing) :
    caption key (news ++ past) = caption key past := by
  refine read_skipped fun x hx past => ?_
  cases hn x hx <;> rfl

end Beginning

def Sooner (past : List Happening) (key key' : Nat × String) : Prop :=
  ∃ s t, began key past = some s ∧ began key' past = some t ∧ s < t

-- The watchers are those whose showing goes on, in the order in which it began.
structure Exhibited (past : List Happening) (watchers : List Watcher) : Prop where
  ordered : (watchers.map Watcher.key).Pairwise (Sooner past)
  shown : ∀ key, key ∈ watchers.map Watcher.key ↔ (began key past).isSome = true
  captions : ∀ x ∈ watchers, caption x.key past = some (x.label, x.position)

namespace Exhibited

variable {past news : List Happening} {watchers : List Watcher} {owner : Nat} {name : String}

theorem nodup (h : Exhibited past watchers) : (watchers.map Watcher.key).Nodup :=
  h.ordered.imp fun {key key'} ⟨s, t, hs, ht, hlt⟩ he => by
    rw [he, ht] at hs
    cases hs
    exact Nat.lt_irrefl _ hlt

-- What is taken out is no longer shown, and the rest is shown as before.
theorem filter (h : Exhibited past watchers) {keep : Watcher → Bool}
    (hb : ∀ x ∈ watchers, keep x = true → began x.key news = began x.key past)
    (hs : ∀ key, (began key news).isSome = true → began key news = began key past ∧
      ∀ x : Watcher, x.key = key → keep x = true)
    (hd : ∀ key, caption key news = caption key past) :
    Exhibited news (watchers.filter keep) := by
  have hsub : (watchers.filter keep).Sublist watchers := List.filter_sublist
  have hkept {key : Nat × String} (hk : key ∈ (watchers.filter keep).map Watcher.key) :
      began key news = began key past := by
    obtain ⟨x, hx, rfl⟩ := List.mem_map.1 hk
    obtain ⟨hx, hkeep⟩ := List.mem_filter.1 hx
    exact hb x hx hkeep
  refine ⟨?_, fun key => ⟨fun hk => ?_, fun hk => ?_⟩, fun x hx => ?_⟩
  · refine (h.ordered.sublist (hsub.map _)).imp_of_mem fun {key key'} hk hk' hsooner => ?_
    rwa [Sooner, hkept hk, hkept hk']
  · rw [hkept hk]
    exact (h.shown key).1 ((hsub.map _).mem hk)
  · obtain ⟨hsame, hall⟩ := hs key hk
    obtain ⟨x, hx, rfl⟩ := List.mem_map.1 ((h.shown key).2 (hsame ▸ hk))
    exact List.mem_map.2 ⟨x, List.mem_filter.2 ⟨hx, hall x rfl⟩, rfl⟩
  · rw [hd]
    exact h.captions x (hsub.mem hx)

theorem hides (h : Exhibited past watchers) (owner : Nat) (name : String) :
    Exhibited (.hides owner name :: past) (Watcher.hide owner name watchers) := by
  rw [hide_eq_filter]
  refine h.filter (fun x _ hx => if_neg (Ne.symm (of_decide_eq_true hx))) (fun key hk => ?_)
    fun _ => rfl
  by_cases hkey : (owner, name) = key
  · rw [began, if_pos hkey] at hk
    cases hk
  · exact ⟨if_neg hkey, fun x hx => decide_eq_true (hx ▸ Ne.symm hkey)⟩

variable {x : Watcher} {front back : List Watcher} {old : Watcher}

-- A watcher that is renewed stays where it is: its showing has not been interrupted.
theorem renews (h : Exhibited past (front ++ old :: back)) (ho : old.key = x.key)
    (hb : ∀ key, began key news = began key past)
    (hd : ∀ key, caption key news =
      if x.key = key then some (x.label, x.position) else caption key past) :
    Exhibited news (front ++ x :: back) := by
  have hkeys : (front ++ x :: back).map Watcher.key = (front ++ old :: back).map Watcher.key := by
    simp only [List.map_append, List.map_cons, ho]
  have hsooner : Sooner news = Sooner past := by
    funext key key'
    simp only [Sooner, hb]
  have hnodup := h.nodup
  rw [← hkeys, List.map_append, List.map_cons, List.nodup_middle, List.nodup_cons,
    ← List.map_append] at hnodup
  refine ⟨?_, fun key => ?_, fun y hy => ?_⟩
  · rw [hkeys, hsooner]
    exact h.ordered
  · rw [hkeys, hb]
    exact h.shown key
  · rw [hd]
    rcases List.mem_cons.1 (List.perm_middle.mem_iff.1 hy) with rfl | hy
    · exact if_pos rfl
    · rw [if_neg fun he => hnodup.1 (List.mem_map.2 ⟨y, hy, he.symm⟩)]
      exact h.captions y (List.perm_middle.mem_iff.2 (List.mem_cons_of_mem _ hy))

theorem begins (h : Exhibited past watchers) (hx : x.key ∉ watchers.map Watcher.key)
    (hb : ∀ key, began key news = if x.key = key then some past.length else began key past)
    (hd : ∀ key, caption key news =
      if x.key = key then some (x.label, x.position) else caption key past) :
    Exhibited news (watchers ++ [x]) := by
  have hold {key : Nat × String} (hk : key ∈ watchers.map Watcher.key) : x.key ≠ key := fun he =>
    hx (he ▸ hk)
  refine ⟨?_, fun key => ?_, fun y hy => ?_⟩
  · rw [List.map_append]
    refine List.pairwise_append.2 ⟨h.ordered.imp_of_mem fun {key key'} hk hk' hsooner => ?_,
      List.pairwise_singleton _ _, fun key hk key' hk' => ?_⟩
    · rwa [Sooner, hb, hb, if_neg (hold hk), if_neg (hold hk')]
    · obtain rfl := List.mem_singleton.1 hk'
      obtain ⟨s, hs⟩ := Option.isSome_iff_exists.1 ((h.shown key).1 hk)
      exact ⟨s, past.length, by rw [hb, if_neg (hold hk), hs], by rw [hb, if_pos rfl], began_lt hs⟩
  · rw [List.map_append, List.mem_append, hb, h.shown]
    by_cases he : x.key = key
    · rw [if_pos he]
      exact iff_of_true (.inr (he ▸ List.mem_singleton_self _)) rfl
    · rw [if_neg he]
      exact ⟨fun hk => hk.resolve_right fun hm => he (List.mem_singleton.1 hm).symm, .inl⟩
  · rw [hd]
    rcases List.mem_append.1 hy with hy | hy
    · rw [if_neg (hold (List.mem_map.2 ⟨y, hy, rfl⟩))]
      exact h.captions y hy
    · obtain rfl := List.mem_singleton.1 hy
      exact if_pos rfl

theorem put (h : Exhibited past watchers) (owner : Nat) (name : String) (label : Option String)
    (position : WatcherPosition) : Exhibited (.shows owner name label position :: past)
      (Watcher.put ⟨owner, name, label.getD name, position⟩ watchers) := by
  rcases put_cases ⟨owner, name, label.getD name, position⟩ watchers with
    ⟨front, old, back, rfl, hold, hput⟩ | ⟨hnew, hput⟩ <;> rw [hput]
  · refine h.renews hold (fun key => ?_) fun _ => rfl
    rw [began]
    split
    · rename_i hkey
      have hin : key ∈ (front ++ old :: back).map Watcher.key :=
        List.mem_map.2 ⟨old, List.mem_append_right _ List.mem_cons_self, hold.trans hkey⟩
      obtain ⟨s, hs⟩ := Option.isSome_iff_exists.1 ((h.shown key).1 hin)
      rw [hs]
      rfl
    · rfl
  · refine h.begins hnew (fun key => ?_) fun _ => rfl
    rw [began]
    refine ite_congr rfl (fun hkey => ?_) fun _ => rfl
    have hnone : began key past = none := by
      rw [← Option.not_isSome_iff_eq_none, ← h.shown]
      exact hkey ▸ hnew
    rw [hnone]
    rfl

end Exhibited

theorem World.Sheds.exhibited {past : List Happening} {w w' : World} (hs : w.Sheds w')
    (h : Exhibited past w.watchers) : Exhibited (w.turnover w' ++ past) w'.watchers := by
  have hquiet : ∀ x ∈ w.turnover w', x.Passing := fun _ => World.passing_of_mem_turnover
  have hstays {key : Nat × String} (hd : w.drops w' key.1 = false) :
      began key (w.turnover w' ++ past) = began key past :=
    began_of_stays hquiet fun hm => by
      rw [World.leaves_mem_turnover.1 hm] at hd
      cases hd
  rw [hs.watchers]
  refine h.filter (fun x _ hx => hstays (by simpa [Watcher.key] using hx)) (fun key hk => ?_)
    fun _ => caption_append hquiet
  cases hd : w.drops w' key.1 with
  | true =>
    rw [began_of_leaves hquiet (World.leaves_mem_turnover.2 hd)] at hk
    cases hk
  | false =>
    refine ⟨hstays hd, fun x hx => ?_⟩
    subst hx
    simpa [Watcher.key] using hd

theorem World.Annals.exhibited {past : List Happening} {w : World} (ha : w.Annals past) :
    Exhibited past w.watchers := by
  induction ha with
  | quiet hn =>
    rw [List.eq_nil_iff_forall_not_mem.2 fun x hx => hn (.watcher x) hx]
    exact ⟨.nil, fun _ => ⟨nofun, nofun⟩, nofun⟩
  | sheds ha h ih => exact h.exhibited ih
  | shows ha ih => exact ih.put _ _ _ _
  | hides ha ih => exact ih.hides _ _
  | tunes ha ih => exact ⟨ih.ordered, ih.shown, ih.captions⟩

namespace Project

variable {past : List Happening} {q : Project}

-- A watcher reads what a thread of its instance would get at that moment.
theorem reading_eq (hw : q.world.Registered) {r : WatcherReading}
    (hr : r ∈ q.world.watcherReadings) {h : Handle} (ho : h.owner = r.watcher.owner) :
    r.value = (q.answer (.request h (.get r.watcher.name))).1.toOption.map Value.display := by
  obtain ⟨x, -, rfl⟩ := List.mem_map.1 hr
  dsimp only at ho ⊢
  cases hi : q.world.instance? x.owner with
  | none =>
    simp only [Project.answer, World.answer, World.attribute?, World.member, ho, hi]
    rfl
  | some i =>
    obtain ⟨hmem, hid⟩ := World.mem_of_instance? hi
    obtain ⟨a, -, hm, -⟩ := hw.member_of_mem hmem
    rw [hid] at hm
    simp only [Project.answer, World.answer, World.attribute?, ho, hm, Option.bind_some]
    cases i.figure.attributes.get? x.name <;> rfl

-- The watchers as a map in the order of insertion, and what every exchange makes of it.
structure Displayed (past : List Happening) (q : Project) : Prop where
  once : (q.world.watchers.map Watcher.key).Nodup
  exhibited : Exhibited past q.world.watchers
  readings : q.world.watcherReadings.map (·.watcher) = q.world.watchers
  values : ∀ r ∈ q.world.watcherReadings, ∀ h : Handle, h.owner = r.watcher.owner →
    r.value = (q.answer (.request h (.get r.watcher.name))).1.toOption.map Value.display
  renewed : ∀ {h : Handle} {name : String} {label : Option String} {position : WatcherPosition},
    position.flaw? = none → (h.owner, name) ∈ q.world.watchers.map Watcher.key →
      ∃ front old back, q.world.watchers = front ++ old :: back ∧ old.key = (h.owner, name) ∧
        (q.perform (.call (.request h (.showVariable name label position)))).world.watchers =
          front ++ ⟨h.owner, name, label.getD name, position⟩ :: back
  begun : ∀ {h : Handle} {name : String} {label : Option String} {position : WatcherPosition},
    position.flaw? = none → (h.owner, name) ∉ q.world.watchers.map Watcher.key →
      (q.perform (.call (.request h (.showVariable name label position)))).world.watchers =
        q.world.watchers ++ [⟨h.owner, name, label.getD name, position⟩]
  refused : ∀ {h : Handle} {name reason : String} {label : Option String}
    {position : WatcherPosition}, position.flaw? = some reason →
      q.answer (.request h (.showVariable name label position)) =
        (.error (.invalidArgument "show_variable" reason), q)
  hidden : ∀ (h : Handle) (name : String),
    (q.perform (.call (.request h (.hideVariable name)))).world.watchers =
      q.world.watchers.filter (·.key ≠ (h.owner, name))
  again : ∀ {h : Handle} {name : String} {label : Option String} {position : WatcherPosition},
    position.flaw? = none →
      (q.performAll [.call (.request h (.hideVariable name)),
        .call (.request h (.showVariable name label position))]).world.watchers =
          q.world.watchers.filter (·.key ≠ (h.owner, name)) ++
            [⟨h.owner, name, label.getD name, position⟩]
  removed : ∀ {e : Exchange} {k : Handle} {i : Instance}, e.Deletes k →
    q.world.instance? k.owner = some i → i.isClone = true →
      (q.perform e).world.watchers = q.world.watchers.filter (·.owner ≠ k.owner)
  others : ∀ {e : Exchange}, e.heeded = [] → (∀ k, ¬ e.Deletes k) →
    (q.perform e).world.watchers = q.world.watchers

theorem watchers_show (q : Project) (h : Handle) (name : String) (label : Option String)
    {position : WatcherPosition} (hp : position.flaw? = none) :
    (q.perform (.call (.request h (.showVariable name label position)))).world.watchers =
      Watcher.put ⟨h.owner, name, label.getD name, position⟩ q.world.watchers := by
  rw [world_show q h name label hp]

theorem watchers_hide (q : Project) (h : Handle) (name : String) :
    (q.perform (.call (.request h (.hideVariable name)))).world.watchers =
      q.world.watchers.filter (·.key ≠ (h.owner, name)) :=
  hide_eq_filter h.owner name q.world.watchers

theorem put_of_new {x : Watcher} {watchers : List Watcher}
    (hx : x.key ∉ watchers.map Watcher.key) : x.put watchers = watchers ++ [x] := by
  rcases put_cases x watchers with ⟨front, old, back, rfl, hold, -⟩ | ⟨-, hput⟩
  · exact absurd (List.mem_map.2 ⟨old, List.mem_append_right _ List.mem_cons_self, hold⟩) hx
  · exact hput

theorem displayed_of_exhibited (hw : q.world.Registered) (h : Exhibited past q.world.watchers) :
    Displayed past q where
  once := h.nodup
  exhibited := h
  readings := by
    rw [World.watcherReadings, List.map_map]
    exact List.map_id _
  values r hr k hk := reading_eq hw hr hk
  renewed {k name label position} hp hin := by
    rcases put_cases ⟨k.owner, name, label.getD name, position⟩ q.world.watchers with
      ⟨front, old, back, hlist, hold, hput⟩ | ⟨hnew, -⟩
    · exact ⟨front, old, back, hlist, hold, (watchers_show q k name label hp).trans hput⟩
    · exact absurd hin hnew
  begun {k name label position} hp hnew := (watchers_show q k name label hp).trans (put_of_new hnew)
  refused {k name reason label position} hp := by
    simp only [Project.answer, World.answer, World.showVariable, hp]
  hidden := watchers_hide q
  again {k name label position} hp := by
    refine (watchers_show _ k name label hp).trans ?_
    rw [watchers_hide]
    refine put_of_new fun hm => ?_
    obtain ⟨x, hx, hkey⟩ := List.mem_map.1 hm
    exact of_decide_eq_true (List.mem_filter.1 hx).2 hkey
  removed {e k i} he hi hc := by
    obtain ⟨-, hid⟩ := World.mem_of_instance? hi
    rw [world_of_deletes he, ← hid, World.deleteInstance_of_clone (hid.symm ▸ hi) hc]
    rfl
  others he hd := (sameNotes_perform he hd).watchers

end Project

namespace Moment

theorem watchers_displayed {κ : Conduct} :
    (∀ {m : Moment}, Reachable κ m → ∃ past, Story κ past m) ∧
      ∀ {m : Moment} {past : List Happening}, Story κ past m → ∀ {p : Project},
        p.world = m.project.world → ∀ exchanges,
          Displayed (p.tale exchanges ++ past) (p.performAll exchanges) := by
  refine ⟨fun hm => hm.story, fun {m past} hm {p} hp exchanges => ?_⟩
  have hc : Changes (.under .any) p (p.performAll exchanges) := changes_performAll p exchanges
  exact displayed_of_exhibited (hc.registered (hp ▸ hm.reachable.registered))
    (hm.annals_performAll hp exchanges).exhibited

-- The first watcher is shown again and stays; the second one is hidden in between and comes last.
theorem haunted_displayed :
    let p := haunted "boo" fun _ => .finish
    let exchanges : List Exchange := [
      .call (.request ⟨1, 1⟩ (.showVariable "score" (some "Score") {})),
      .call (.request ⟨1, 1⟩ (.showVariable "lives" none {})),
      .call (.request ⟨1, 1⟩ (.createClone (.member 1))),
      .call (.request ⟨1, 2⟩ (.showVariable "score" none {})),
      .call (.request ⟨1, 1⟩ (.set "score" (.text "3"))),
      .call (.request ⟨1, 1⟩ (.showVariable "score" none {})),
      .call (.request ⟨1, 1⟩ (.showVariable "score" none { top := some 1.0, bottom := some 1.0 })),
      .call (.request ⟨1, 1⟩ (.hideVariable "lives")),
      .call (.request ⟨1, 1⟩ (.showVariable "lives" none {}))]
    let past : List Happening := [
      .shows 1 "lives" none {}, .hides 1 "lives", .shows 1 "score" none {},
      .shows 2 "score" none {}, .arrives 2, .shows 1 "lives" none {},
      .shows 1 "score" (some "Score") {}, .arrives 1]
    Story .any [.arrives 1] ⟨p, []⟩ ∧ p.tale exchanges ++ [.arrives 1] = past ∧
      Displayed past (p.performAll exchanges) ∧
      (p.performAll exchanges).world.watcherReadings.map
        (fun r => (r.watcher.owner, r.watcher.label, r.value)) =
          [(1, "score", some "3"), (2, "score", none), (1, "lives", none)] ∧
      began (1, "score") past = some 1 ∧ began (2, "score") past = some 4 ∧
      began (1, "lives") past = some 7 := by
  intro p exchanges past
  have hnew : Project.new {} = .ok {} := rfl
  have hstart : Start .any {} := .new hnew {} fun _ _ _ => trivial
  have hregister : (Operation.register (ghost fun _ => .finish) .sprite).Keeps .any := fun _ _ _ =>
    trivial
  have hsend : (Operation.broadcast "boo").Keeps .any := trivial
  have hstory : Story .any [.arrives 1] ⟨p, []⟩ :=
    ((Story.start hstart (prologue_of_new hnew)).operate hregister).operate hsend
  have hpast : p.tale exchanges ++ [.arrives 1] = past := by decide +kernel
  have h := watchers_displayed.2 hstory rfl exchanges
  rw [hpast] at h
  exact ⟨hstory, hpast, h, by decide +kernel, rfl, rfl, rfl⟩

end Moment

end SpriteStage

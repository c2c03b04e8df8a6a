import SpriteStage.Proofs.Registration
import SpriteStage.Proofs.Requesting

namespace SpriteStage

-- What a descriptor says comes back from the event that it is read as.
structure Trigger.Describes (t : Trigger) (event argument : String) : Prop where
  event : t.eventType = event
  message : ∀ text, t = .message text → text = argument
  key : ∀ name, t = .keyPressed name → name = argument

theorem Trigger.describes_of_ofDescriptor {event argument : String} {t : Trigger}
    (h : ofDescriptor event argument = .ok t) : t.Describes event argument := by
  unfold ofDescriptor at h
  split at h
  · cases h
    exact ⟨rfl, nofun, nofun⟩
  · split at h
    · cases h
    · cases h
      exact ⟨rfl, fun _ ht => (Trigger.message.inj ht).symm, nofun⟩
  · cases h
    exact ⟨rfl, nofun, nofun⟩
  · split at h
    · cases h
      exact ⟨rfl, nofun, fun _ ht => (Trigger.keyPressed.inj ht).symm⟩
    · cases h
  · cases h
    exact ⟨rfl, nofun, nofun⟩
  · cases h
    exact ⟨rfl, nofun, nofun⟩
  · cases h

section Binding

-- A declared handler with its event, unless its descriptor is at fault.
def HandlerDeclaration.binding? (d : HandlerDeclaration) : Option (Trigger × Handler) :=
  match d.trigger with
  | .ok trigger => some (trigger, d.handler)
  | .error _ => none

def ActorClass.bindings (c : ActorClass) : List (Trigger × Handler) :=
  c.handlers.filterMap (·.binding?)

def HandlerGroup.bindings (g : HandlerGroup) : List (Trigger × Handler) :=
  g.handlers.map (g.trigger, ·)

theorem HandlerDeclaration.binding?_of_triggerOf {kind : ActorKind} {d : HandlerDeclaration}
    {t : Trigger} (h : ActorClass.triggerOf kind d = .ok t) : d.binding? = some (t, d.handler) := by
  unfold ActorClass.triggerOf at h
  split at h
  · cases h
  · rename_i t' hd
    split at h
    · cases h
      simp only [binding?, hd]
    · cases h

theorem HandlerDeclaration.Fits.binding? {kind : ActorKind} {d : HandlerDeclaration}
    (h : d.Fits kind) : d.binding?.isSome := by
  obtain ⟨t, ht⟩ := ActorClass.triggerOf_eq_ok.2 h
  rw [binding?_of_triggerOf ht, Option.isSome_some]

namespace HandlerGroup

variable {t : Trigger} {k : Handler} {g : HandlerGroup} {groups : List HandlerGroup}

theorem triggers_add : (add t k groups).map (·.trigger) =
    if t ∈ groups.map (·.trigger) then groups.map (·.trigger)
    else groups.map (·.trigger) ++ [t] := by
  induction groups with
  | nil => rfl
  | cons first rest ih =>
    by_cases hf : first.trigger = t
    · simp [add, hf]
    · simp only [add, hf, if_false, List.map_cons, ih, List.mem_cons, Ne.symm hf, false_or]
      split <;> rfl

theorem bindings_add :
    ((add t k groups).flatMap bindings).Perm (groups.flatMap bindings ++ [(t, k)]) := by
  induction groups with
  | nil => exact .refl _
  | cons first rest ih =>
    by_cases hf : first.trigger = t
    · simp only [add, hf, if_true, List.flatMap_cons, bindings, List.map_append, List.append_assoc]
      exact (List.perm_append_comm).append_left _
    · simp only [add, hf, if_false, List.flatMap_cons, List.append_assoc]
      exact ih.append_left _

theorem filled_add (hg : ∀ g ∈ groups, g.handlers ≠ []) :
    ∀ g ∈ add t k groups, g.handlers ≠ [] := by
  induction groups with
  | nil => simp [add]
  | cons first rest ih =>
    obtain ⟨hfirst, hrest⟩ := List.forall_mem_cons.1 hg
    by_cases hf : first.trigger = t
    · simp only [add, hf, if_true, List.forall_mem_cons]
      exact ⟨by simp, hrest⟩
    · simp only [add, hf, if_false, List.forall_mem_cons]
      exact ⟨hfirst, ih hrest⟩

-- The invariant of the table: what it holds once these handlers have been read.
structure Represents (groups : List HandlerGroup) (read : List (Trigger × Handler)) : Prop where
  order : groups.map (·.trigger) = (read.map (·.1)).eraseDups
  filled : ∀ g ∈ groups, g.handlers ≠ []
  kept : (groups.flatMap bindings).Perm read

theorem Represents.nil : Represents [] [] := ⟨rfl, nofun, .refl _⟩

theorem Represents.add {read : List (Trigger × Handler)} (h : Represents groups read) (t : Trigger)
    (k : Handler) : Represents (HandlerGroup.add t k groups) (read ++ [(t, k)]) where
  order := by
    have hmem : t ∈ groups.map (·.trigger) ↔ t ∈ read.map (·.1) := by
      rw [h.order, List.mem_eraseDups]
    rw [triggers_add, List.map_append, List.eraseDups_append, h.order]
    rw [h.order] at hmem
    by_cases ht : t ∈ read.map (·.1)
    · simp [hmem.2 ht, List.removeAll, ht]
    · rw [if_neg (mt hmem.1 ht)]
      simp [List.removeAll, ht, List.eraseDups_cons]
  filled := filled_add h.filled
  kept := bindings_add.trans (h.kept.append_right _)

theorem Represents.groupAll {kind : ActorKind} {ds : List HandlerDeclaration}
    {result : List HandlerGroup} {read : List (Trigger × Handler)} (h : Represents groups read)
    (hr : ActorClass.groupAll kind ds groups = .ok result) :
    Represents result (read ++ ds.filterMap (·.binding?)) := by
  induction ds generalizing groups read with
  | nil =>
    cases hr
    rw [List.filterMap_nil, List.append_nil]
    exact h
  | cons d ds ih =>
    simp only [ActorClass.groupAll] at hr
    split at hr
    · cases hr
    · rename_i t ht
      have hall := ih (h.add t d.handler) hr
      rw [List.append_assoc] at hall
      rw [List.filterMap_cons, HandlerDeclaration.binding?_of_triggerOf ht]
      exact hall

theorem under_of_mem (hn : (groups.map (·.trigger)).Nodup) (hg : g ∈ groups) :
    under g.trigger groups = g.handlers := by
  induction groups with
  | nil => cases hg
  | cons first rest ih =>
    obtain ⟨hfirst, hrest⟩ := List.nodup_cons.1 hn
    rcases List.mem_cons.1 hg with rfl | hg
    · simp [under]
    · have hne : first.trigger ≠ g.trigger := fun he =>
        hfirst (List.mem_map.2 ⟨g, hg, he.symm⟩)
      have hunder := ih hrest hg
      simp only [under, List.find?_cons, decide_eq_false hne] at hunder ⊢
      exact hunder

end HandlerGroup

end Binding

namespace ActorClass

variable {c : ActorClass} {groups : List HandlerGroup}

-- The table of a class without faults against what the class declares.
structure Tables (c : ActorClass) (groups : List HandlerGroup) : Prop where
  whole : c.handlers.map (·.binding?) = c.bindings.map some
  distinct : (groups.map (·.trigger)).Nodup
  order : groups.map (·.trigger) = (c.bindings.map (·.1)).eraseDups
  filled : ∀ g ∈ groups, g.handlers ≠ []
  group : ∀ g ∈ groups, g.handlers = c.declared g.trigger
  lookup : ∀ (a : Actor) (trigger : Trigger), a.groups = groups →
    a.handlersFor trigger = c.declared trigger
  kept : (groups.flatMap HandlerGroup.bindings).Perm c.bindings

theorem bindings_whole (hf : ∀ d ∈ c.handlers, d.Fits c.kind) :
    c.handlers.map (·.binding?) = c.bindings.map some := by
  unfold bindings
  generalize c.handlers = ds at hf
  induction ds with
  | nil => rfl
  | cons d ds ih =>
    obtain ⟨hd, hds⟩ := List.forall_mem_cons.1 hf
    obtain ⟨b, hb⟩ := Option.isSome_iff_exists.1 hd.binding?
    rw [List.map_cons, List.filterMap_cons, hb, ih hds, List.map_cons]

theorem tables_of_groups (h : c.groups = .ok groups) : c.Tables groups := by
  have hr : HandlerGroup.Represents groups c.bindings := HandlerGroup.Represents.nil.groupAll h
  have hn : (groups.map (·.trigger)).Nodup := by
    rw [hr.order]
    exact Project.nodup_eraseDups _
  have hlookup (a : Actor) (t : Trigger) (ha : a.groups = groups) :
      a.handlersFor t = c.declared t :=
    Actor.handlersFor_of_groups (h.trans (congrArg _ ha.symm)) t
  refine ⟨bindings_whole (groups_eq_ok.1 ⟨groups, h⟩), hn, hr.order, hr.filled, fun g hg => ?_,
    hlookup, hr.kept⟩
  rw [← HandlerGroup.under_of_mem hn hg]
  exact under_groupAll h g.trigger

-- How the table comes out: with the first fault, or whole; and an actor is registered with it.
structure Tabulated (c : ActorClass) : Prop where
  spoiled : ∀ e, c.groups = .error e ↔ c.Spoiled e
  sound : (∃ groups, c.groups = .ok groups) ↔ ∀ d ∈ c.handlers, d.Fits c.kind
  tables : ∀ groups, c.groups = .ok groups → c.Tables groups
  turned : ∀ (p : Project) (expected : ActorKind) (e : RegistrationError),
    p.world.Welcomes c expected → c.Spoiled e →
      (p.register c expected).1 = .error (.registration e) ∧
        (p.register c expected).2.world.actors = p.world.actors
  enrolled : ∀ (p : Project) (expected : ActorKind) (id : Nat),
    (p.register c expected).1 = .ok id →
      ∃ a, (p.register c expected).2.world.actors = p.world.actors ++ [a] ∧ a.id = id ∧
        c.groups = .ok a.groups ∧ c.Tables a.groups

theorem register_of_spoiled {p : Project} {expected : ActorKind} {e : RegistrationError}
    (hw : p.world.Welcomes c expected) (h : c.Spoiled e) :
    (p.register c expected).1 = .error (.registration e) ∧
      (p.register c expected).2.world.actors = p.world.actors := by
  simp only [Project.register, refusal?_eq_none.2 hw, groups_eq_error.2 h, Project.updateWorld,
    and_self]

theorem groups_of_register {p : Project} {expected : ActorKind} {id : Nat}
    (h : (p.register c expected).1 = .ok id) :
    ∃ a, (p.register c expected).2.world.actors = p.world.actors ++ [a] ∧ a.id = id ∧
      c.groups = .ok a.groups := by
  unfold Project.register at h ⊢
  cases hr : Project.refusal? p.world c expected with
  | some e =>
    rw [hr] at h
    cases h
  | none =>
    rw [hr] at h
    cases hg : c.groups with
    | error e =>
      rw [hg] at h
      cases h
    | ok groups =>
      simp only [hg, Project.updateWorld, Project.foldl_record_look] at h ⊢
      cases hi : (c.init {}).2 with
      | error failure =>
        rw [hi] at h
        cases h
      | ok figure =>
        rw [hi] at h
        cases h
        exact ⟨_, rfl, rfl, rfl⟩

theorem handlers_tabulated (c : ActorClass) : c.Tabulated ∧
    ∀ event argument t, Trigger.ofDescriptor event argument = .ok t → t.Describes event argument :=
  ⟨{ spoiled := fun _ => groups_eq_error
     sound := groups_eq_ok
     tables := fun _ => tables_of_groups
     turned := fun _ _ _ => register_of_spoiled
     enrolled := fun _ _ _ h => by
       obtain ⟨a, ha, hid, hg⟩ := groups_of_register h
       exact ⟨a, ha, hid, hg, tables_of_groups hg⟩ },
    fun _ _ _ => Trigger.describes_of_ofDescriptor⟩

example :
    let named (label : String) : Handler := ⟨label, fun _ => .finish⟩
    let banana : ActorClass := { name := "Banana", kind := .sprite, handlers := [
      ⟨Trigger.ofDescriptor "green-flag" "", named "a"⟩,
      ⟨Trigger.ofDescriptor "message" "go", named "b"⟩,
      ⟨Trigger.ofDescriptor "green-flag" "", named "c"⟩] }
    banana.groups.map (·.map fun g => (g.trigger, g.handlers.map (·.label))) =
      .ok [(.greenFlag, ["a", "c"]), (.message "go", ["b"])] := rfl

end ActorClass

end SpriteStage

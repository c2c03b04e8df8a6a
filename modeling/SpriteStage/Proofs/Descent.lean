import Mathlib.Data.List.Induction
import SpriteStage.Proofs.Exchange

namespace SpriteStage

-- Trees beside each other, the oldest first; what grows below a root are the trees of its clones.
inductive Forest where
  | nil
  | tree (root : Nat) (below beside : Forest)

namespace Forest

def postorder : Forest → List Nat
  | nil => []
  | tree root below beside => below.postorder ++ root :: beside.postorder

def add (id : Nat) : Forest → Forest
  | nil => tree id nil nil
  | tree root below beside => tree root below (beside.add id)

-- The new node is the youngest below its parent.
def graft (parent id : Nat) : Forest → Forest
  | nil => nil
  | tree root below beside =>
    if root = parent then tree root (below.add id) beside
    else tree root (below.graft parent id) (beside.graft parent id)

theorem postorder_add (id : Nat) (f : Forest) : (f.add id).postorder = f.postorder ++ [id] := by
  induction f with
  | nil => rfl
  | tree root below beside _ ih =>
    simp only [add, postorder, ih, List.append_assoc, List.cons_append]

theorem graft_of_not_mem {parent : Nat} (id : Nat) {f : Forest} (h : parent ∉ f.postorder) :
    f.graft parent id = f := by
  induction f with
  | nil => rfl
  | tree root below beside ihb ihs =>
    simp only [postorder, List.mem_append, List.mem_cons, not_or] at h
    rw [graft, if_neg (Ne.symm h.2.1), ihb h.1, ihs h.2.2]

end Forest

namespace World

theorem insertBefore_append_of_mem {parent id : Nat} {front back : List Nat}
    (h : parent ∈ front) :
    insertBefore parent id (front ++ back) = insertBefore parent id front ++ back := by
  induction front with
  | nil => cases h
  | cons head rest ih =>
    by_cases he : head = parent
    · simp only [List.cons_append, insertBefore, if_pos he]
    · have hr : parent ∈ rest := (List.mem_cons.1 h).resolve_left (Ne.symm he)
      simp only [List.cons_append, insertBefore, if_neg he, ih hr]

theorem insertBefore_append_of_not_mem {parent id : Nat} {front back : List Nat}
    (h : parent ∉ front) :
    insertBefore parent id (front ++ back) = front ++ insertBefore parent id back := by
  induction front with
  | nil => rfl
  | cons head rest ih =>
    rw [List.mem_cons, not_or] at h
    simp only [List.cons_append, insertBefore, if_neg (Ne.symm h.1), ih h.2]

theorem filter_insertBefore {parent id : Nat} {ids : List Nat} {P : Nat → Bool}
    (hm : parent ∈ ids) (hp : P parent = true) (hid : P id = true) :
    (insertBefore parent id ids).filter P = insertBefore parent id (ids.filter P) := by
  induction ids with
  | nil => cases hm
  | cons head rest ih =>
    by_cases he : head = parent
    · simp only [insertBefore, if_pos he]
      rw [List.filter_cons_of_pos hid, List.filter_cons_of_pos (he ▸ hp), insertBefore, if_pos he]
    · have hr := ih ((List.mem_cons.1 hm).resolve_left (Ne.symm he))
      simp only [insertBefore, if_neg he, List.filter_cons, hr]
      split
      · rw [insertBefore, if_neg he]
      · rfl

theorem sublist_insertBefore (parent id : Nat) (ids : List Nat) :
    ids.Sublist (insertBefore parent id ids) := by
  induction ids with
  | nil => exact List.nil_sublist _
  | cons head rest ih =>
    simp only [insertBefore]
    split
    · exact .cons _ (.refl _)
    · exact ih.cons_cons _

end World

theorem Forest.postorder_graft {parent : Nat} (id : Nat) {f : Forest} (hn : f.postorder.Nodup)
    (h : parent ∈ f.postorder) :
    (f.graft parent id).postorder = World.insertBefore parent id f.postorder := by
  induction f with
  | nil => cases h
  | tree root below beside ihb ihs =>
    simp only [postorder] at hn h ⊢
    obtain ⟨hbelow, htail, hdisjoint⟩ := List.nodup_append.1 hn
    obtain ⟨hroot, hbeside⟩ := List.nodup_cons.1 htail
    by_cases he : root = parent
    · subst he
      have hno : root ∉ below.postorder := fun hm => hdisjoint _ hm _ List.mem_cons_self rfl
      rw [graft, if_pos rfl, postorder, postorder_add, World.insertBefore_append_of_not_mem hno,
        World.insertBefore, if_pos rfl, List.append_assoc]
      rfl
    · rw [graft, if_neg he, postorder]
      by_cases hm : parent ∈ below.postorder
      · have hno : parent ∉ beside.postorder := fun hs =>
          hdisjoint _ hm _ (List.mem_cons_of_mem _ hs) rfl
        rw [ihb hbelow hm, graft_of_not_mem id hno, World.insertBefore_append_of_mem hm]
      · have hs : parent ∈ beside.postorder := by
          simpa [hm, Ne.symm he] using h
        rw [graft_of_not_mem id hm, ihs hbeside hs, World.insertBefore_append_of_not_mem hm,
          World.insertBefore, if_neg he]

-- An instance that has been made, and the one it was made from.
structure Birth where
  parent : Nat
  id : Nat
  deriving DecidableEq

-- All that has ever come from a founder, whether it is still there or not.
def family (founder : Nat) (births : List Birth) : Forest :=
  births.foldl (fun f b => f.graft b.parent b.id) (.tree founder .nil .nil)

abbrev Descends (births : List Birth) : Nat → Nat → Prop :=
  Relation.TransGen fun id parent => ⟨parent, id⟩ ∈ births

section Family

variable {founder x y : Nat} {births : List Birth} {b : Birth}

theorem family_append (founder : Nat) (births : List Birth) (b : Birth) :
    family founder (births ++ [b]) = (family founder births).graft b.parent b.id := by
  simp only [family, List.foldl_append, List.foldl_cons, List.foldl_nil]

theorem family_of_childless (h : ∀ b ∈ births, b.parent ≠ founder) :
    family founder births = .tree founder .nil .nil := by
  induction births using List.reverseRecOn with
  | nil => rfl
  | append_singleton births b ih =>
    have hb : b.parent ≠ founder := h b (List.mem_append_right _ List.mem_cons_self)
    rw [family_append, ih fun c hc => h c (List.mem_append_left _ hc)]
    exact Forest.graft_of_not_mem b.id fun hm => hb (List.mem_singleton.1 hm)

theorem family_eq_tree (founder : Nat) (births : List Birth) :
    ∃ below, family founder births = .tree founder below .nil := by
  induction births using List.reverseRecOn with
  | nil => exact ⟨.nil, rfl⟩
  | append_singleton births b ih =>
    obtain ⟨below, hf⟩ := ih
    rw [family_append, hf, Forest.graft]
    split
    · exact ⟨_, rfl⟩
    · exact ⟨_, rfl⟩

theorem postorder_family (founder : Nat) (births : List Birth) :
    ∃ front, (family founder births).postorder = front ++ [founder] := by
  obtain ⟨below, hf⟩ := family_eq_tree founder births
  exact ⟨below.postorder, by rw [hf]; rfl⟩

-- The births of one history: each instance is numbered after all that were there before.
structure Chronological (births : List Birth) : Prop where
  increasing : births.Pairwise (·.id < ·.id)
  older : ∀ b ∈ births, b.parent < b.id

namespace Chronological

theorem of_append (h : Chronological (births ++ [b])) :
    Chronological births ∧ (∀ c ∈ births, c.id < b.id) ∧ b.parent < b.id := by
  obtain ⟨hl, -, hlt⟩ := List.pairwise_append.1 h.increasing
  exact ⟨⟨hl, fun c hc => h.older c (List.mem_append_left _ hc)⟩,
    fun c hc => hlt c hc b List.mem_cons_self, h.older b (List.mem_append_right _ List.mem_cons_self)⟩

theorem append (h : Chronological births) (hb : ∀ c ∈ births, c.id < b.id) (hp : b.parent < b.id) :
    Chronological (births ++ [b]) := by
  refine ⟨List.pairwise_append.2 ⟨h.increasing, List.pairwise_singleton _ _, fun c hc d hd => ?_⟩,
    fun c hc => ?_⟩
  · obtain rfl := List.mem_singleton.1 hd
    exact hb c hc
  · rcases List.mem_append.1 hc with hc | hc
    · exact h.older c hc
    · obtain rfl := List.mem_singleton.1 hc
      exact hp

end Chronological

theorem postorder_append (hn : (family founder births).postorder.Nodup) :
    (family founder (births ++ [b])).postorder =
      if b.parent ∈ (family founder births).postorder
        then World.insertBefore b.parent b.id (family founder births).postorder
        else (family founder births).postorder := by
  rw [family_append]
  split
  · rename_i hm
    exact Forest.postorder_graft b.id hn hm
  · rename_i hm
    rw [Forest.graft_of_not_mem b.id hm]

theorem mem_postorder_append {x : Nat} (hn : (family founder births).postorder.Nodup)
    (hx : x ∈ (family founder births).postorder) :
    x ∈ (family founder (births ++ [b])).postorder := by
  rw [postorder_append hn]
  split
  · exact World.mem_insertBefore.2 (.inr hx)
  · exact hx

theorem family_sound (ho : Chronological births) (hf : ∀ b ∈ births, b.id ≠ founder) :
    (family founder births).postorder.Nodup ∧
      ∀ x ∈ (family founder births).postorder, x = founder ∨ ∃ b ∈ births, b.id = x := by
  induction births using List.reverseRecOn with
  | nil => exact ⟨List.nodup_singleton _, fun x hx => .inl (List.mem_singleton.1 hx)⟩
  | append_singleton births b ih =>
    obtain ⟨hbefore, hlt, -⟩ := ho.of_append
    have hb : b.id ≠ founder := hf b (List.mem_append_right _ List.mem_cons_self)
    obtain ⟨hn, hmem⟩ := ih hbefore fun c hc => hf c (List.mem_append_left _ hc)
    have hfresh : b.id ∉ (family founder births).postorder := fun hm => by
      rcases hmem _ hm with he | ⟨c, hc, he⟩
      · exact hb he
      · exact Nat.ne_of_lt (hlt c hc) he
    have hold : ∀ x ∈ (family founder births).postorder,
        x = founder ∨ ∃ c ∈ births ++ [b], c.id = x := fun x hx =>
      (hmem x hx).imp_right fun ⟨c, hc, he⟩ => ⟨c, List.mem_append_left _ hc, he⟩
    rw [postorder_append hn]
    split
    · refine ⟨World.Registered.nodup_insertBefore hn hfresh, fun x hx => ?_⟩
      rcases World.mem_insertBefore.1 hx with rfl | hx
      · exact .inr ⟨b, List.mem_append_right _ List.mem_cons_self, rfl⟩
      · exact hold x hx
    · exact ⟨hn, hold⟩

-- A clone stands before its parent, and nothing that comes later changes that.
theorem parent_after (ho : Chronological births) (hf : ∀ b ∈ births, b.id ≠ founder) {b : Birth}
    (hb : b ∈ births) (hm : b.parent ∈ (family founder births).postorder) :
    [b.id, b.parent].Sublist (family founder births).postorder := by
  induction births using List.reverseRecOn with
  | nil => cases hb
  | append_singleton births c ih =>
    obtain ⟨hbefore, hlt, hparent⟩ := ho.of_append
    have hfbefore : ∀ b ∈ births, b.id ≠ founder := fun b hb => hf b (List.mem_append_left _ hb)
    have hn := (family_sound hbefore hfbefore).1
    have hne : ∀ b ∈ births, b.parent ≠ c.id := fun b hb =>
      Nat.ne_of_lt (Nat.lt_trans (hbefore.older b hb) (hlt b hb))
    rw [postorder_append hn] at hm ⊢
    split
    · rename_i hc
      rw [if_pos hc] at hm
      rcases List.mem_append.1 hb with hb | hb
      · have hold := (World.mem_insertBefore.1 hm).resolve_left (hne b hb)
        exact (ih hbefore hfbefore hb hold).trans (World.sublist_insertBefore _ _ _)
      · obtain rfl := List.mem_singleton.1 hb
        obtain ⟨front, back, -, hins⟩ := World.insertBefore_mem (n := b.id) hc
        rw [hins]
        exact (List.cons_sublist_cons.2 (List.singleton_sublist.2 List.mem_cons_self)).trans
          (List.sublist_append_right _ _)
    · rename_i hc
      rw [if_neg hc] at hm
      rcases List.mem_append.1 hb with hb | hb
      · exact ih hbefore hfbefore hb hm
      · obtain rfl := List.mem_singleton.1 hb
        exact absurd hm hc

theorem sublist_pair_trans {z : Nat} {ids : List Nat} (hn : ids.Nodup) (h : [x, y].Sublist ids)
    (h' : [y, z].Sublist ids) : [x, z].Sublist ids := by
  induction ids with
  | nil => cases h
  | cons head rest ih =>
    obtain ⟨hhead, hrest⟩ := List.nodup_cons.1 hn
    cases h' with
    | cons_cons _ h' =>
      -- Here `y` comes first, so nothing comes before it.
      cases h with
      | cons_cons _ h => exact absurd (h.mem List.mem_cons_self) hhead
      | cons _ h => exact absurd (h.mem (List.mem_cons_of_mem _ List.mem_cons_self)) hhead
    | cons _ h' =>
      cases h with
      | cons_cons _ h =>
        exact List.cons_sublist_cons.2 (List.singleton_sublist.2
          (h'.mem (List.mem_cons_of_mem _ List.mem_cons_self)))
      | cons _ h => exact (ih hrest h h').cons _

theorem ancestor_after (ho : Chronological births) (hf : ∀ b ∈ births, b.id ≠ founder)
    (hd : Descends births x y) (hy : y ∈ (family founder births).postorder) :
    [x, y].Sublist (family founder births).postorder := by
  induction hd using Relation.TransGen.head_induction_on with
  | single hb => exact parent_after ho hf hb hy
  | head hb hd ih =>
    have hmem : _ ∈ (family founder births).postorder := ih.mem List.mem_cons_self
    exact sublist_pair_trans (family_sound ho hf).1 (parent_after ho hf hb hmem) ih

end Family

end SpriteStage

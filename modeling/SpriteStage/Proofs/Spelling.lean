import Mathlib
import SpriteStage.Key

namespace SpriteStage.Key

variable {s s' key key' : String} {c : Char} {cs cs' : List Char}

section Characters

-- What a name is compared by, once it is in lower case; the rest of it is decoration.
def kept (c : Char) : Bool := c.isLower || c.isDigit

theorem ascii_cases {P : Char → Prop} (h : ∀ n < 128, P (Char.ofNat n)) (hc : c.toNat < 128) :
    P c := by
  have hn := h c.toNat hc
  rwa [Char.ofNat_toNat] at hn

theorem lt_of_isAlphanum (h : c.isAlphanum = true) : c.toNat < 128 := by
  simp only [Char.isAlphanum, Char.isAlpha, Char.isUpper, Char.isLower, Char.isDigit,
    Bool.or_eq_true, Bool.and_eq_true, decide_eq_true_eq, UInt32.le_iff_toNat_le, ge_iff_le,
    Char.toNat_val, Char.reduceToNat] at h
  omega

theorem isAlphanum_of_isUpper (h : c.isUpper = true) : c.isAlphanum = true := by
  simp only [Char.isAlphanum, Char.isAlpha, h, Bool.true_or]

theorem lt_of_kept (h : kept c = true) : c.toNat < 128 := by
  refine lt_of_isAlphanum ?_
  unfold kept at h
  rcases Bool.or_eq_true_iff.1 h with hl | hd
  · simp only [Char.isAlphanum, Char.isAlpha, hl, Bool.or_true, Bool.true_or]
  · simp only [Char.isAlphanum, hd, Bool.or_true]

theorem kept_toLower (hc : c.toNat < 128) : kept c.toLower = c.isAlphanum :=
  ascii_cases (P := fun c => kept c.toLower = c.isAlphanum) (by decide +kernel) hc

-- Two characters outside ASCII have a core, and both of them are letters.
structure Plain (c : Char) : Prop where
  kelvin : c.toNat ≠ 0x212a
  dotted : c.toNat ≠ 0x130

theorem core?_of_ascii (hc : c.toNat < 128) :
    core? c = if c.isAlphanum then some c.toLower else none :=
  ascii_cases (P := fun c => core? c = if c.isAlphanum then some c.toLower else none)
    (by decide +kernel) hc

theorem core?_of_foreign (hc : 128 ≤ c.toNat) (hp : Plain c) : core? c = none := by
  have hn : ¬ c.isAlphanum = true := fun h => absurd (lt_of_isAlphanum h) (Nat.not_lt.2 hc)
  simp only [Char.isAlphanum, Char.isAlpha, Bool.or_eq_true, not_or] at hn
  obtain ⟨⟨hu, hl⟩, hd⟩ := hn
  simp only [core?, hu, hl, hd, hp.kelvin, hp.dotted, Bool.or_self, if_false, Bool.false_eq_true]

theorem core?_of_plain (hp : Plain c) :
    core? c = if c.isAlphanum then some c.toLower else none := by
  by_cases hc : c.toNat < 128
  · exact core?_of_ascii hc
  · rw [core?_of_foreign (Nat.not_lt.1 hc) hp, if_neg fun h => hc (lt_of_isAlphanum h)]

theorem kept_of_core? {x : Char} (h : core? c = some x) : kept x = true := by
  unfold core? at h
  split at h
  · rename_i hk
    exact Option.some.inj h ▸ hk
  · split at h
    · rename_i hu
      have ha := isAlphanum_of_isUpper hu
      exact Option.some.inj h ▸ (kept_toLower (lt_of_isAlphanum ha)).trans ha
    · split at h
      · exact Option.some.inj h ▸ rfl
      · split at h
        · exact Option.some.inj h ▸ rfl
        · cases h

end Characters

section Names

theorem lower_injective : ∀ key ∈ names, ∀ key' ∈ names, lower key = lower key' → key = key' := by
  decide +kernel

theorem lower_ne_nil : ∀ key ∈ names, lower key ≠ [] := by
  decide +kernel

-- The first name that matches is the only one.
theorem find?_lower (hk : key ∈ names) :
    (names.find? fun key' => lower key' == lower key) = some key := by
  cases hf : names.find? fun key' => lower key' == lower key with
  | none => exact absurd (beq_self_eq_true (lower key)) (List.find?_eq_none.1 hf key hk)
  | some found =>
    have hsame := List.find?_some hf
    exact congrArg some
      (lower_injective found (List.mem_of_find?_eq_some hf) key hk (eq_of_beq hsame))

theorem suggestion?_eq_some_iff :
    suggestion? s = some key ↔ key ∈ names ∧ core s = lower key := by
  constructor
  · intro h
    refine ⟨suggestion?_mem h, ?_⟩
    unfold suggestion? at h
    split at h
    · cases h
    · have hsame := List.find?_some h
      exact (eq_of_beq hsame).symm
  · rintro ⟨hk, hcore⟩
    unfold suggestion?
    rw [hcore]
    split
    · rename_i hnil
      exact absurd hnil (lower_ne_nil key hk)
    · exact find?_lower hk

theorem suggestion?_ne_space (h : suggestion? s = some key) : key ≠ " " := by
  rintro rfl
  have hcore : core s = [' '] := (suggestion?_eq_some_iff.1 h).2
  have hmem : ' ' ∈ core s := hcore ▸ List.mem_singleton_self ' '
  obtain ⟨c, -, hc⟩ := List.mem_filterMap.1 hmem
  cases kept_of_core? hc

theorem check_eq_ok_iff : check s = .ok () ↔ s ∈ names := by
  rw [← isValid_iff]
  unfold check
  cases isValid s with
  | true => exact ⟨fun _ => rfl, fun _ => rfl⟩
  | false =>
    refine ⟨fun h => ?_, fun h => nomatch h⟩
    rw [if_neg Bool.false_ne_true] at h
    split at h <;> cases h

end Names

section Decoration

-- One step from a name to another that is decorated differently: one letter in another case, or one
-- more character that is neither a letter nor a digit.
inductive Redressed : List Char → List Char → Prop where
  | recased {front back : List Char} {c c' : Char} (h : c.isAlpha = true) (h' : c'.isAlpha = true)
      (hl : c'.toLower = c.toLower) : Redressed (front ++ c :: back) (front ++ c' :: back)
  | adorned {front back : List Char} {c : Char} (hc : c.toNat < 128) (hn : c.isAlphanum = false) :
      Redressed (front ++ back) (front ++ c :: back)

theorem core?_of_isAlpha (h : c.isAlpha = true) : core? c = some c.toLower := by
  have ha : c.isAlphanum = true := by simp only [Char.isAlphanum, h, Bool.true_or]
  rw [core?_of_ascii (lt_of_isAlphanum ha), if_pos ha]

theorem Redressed.core (h : Redressed cs cs') : cs'.filterMap core? = cs.filterMap core? := by
  cases h with
  | recased h h' hl =>
    rw [List.filterMap_append, List.filterMap_append, List.filterMap_cons, List.filterMap_cons,
      core?_of_isAlpha h, core?_of_isAlpha h', hl]
  | adorned hc hn =>
    have hnone : core? _ = none := (core?_of_ascii hc).trans (if_neg (by rw [hn]; exact nofun))
    rw [List.filterMap_append, List.filterMap_append, List.filterMap_cons, hnone]

theorem core_of_eqvGen (h : Relation.EqvGen Redressed cs cs') :
    cs'.filterMap core? = cs.filterMap core? := by
  induction h with
  | rel _ _ h => exact h.core
  | refl _ => rfl
  | symm _ _ _ ih => exact ih.symm
  | trans _ _ _ _ _ ih ih' => exact ih'.trans ih

theorem suggestion?_congr (h : core s' = core s) : suggestion? s' = suggestion? s := by
  unfold suggestion?
  rw [h]

-- A name spells a key by its letters and digits, in whatever case. Outside ASCII it has none, of
-- which only the two that have a core matter.
structure Spells (s key : String) : Prop where
  letters : (s.toList.filter Char.isAlphanum).map Char.toLower = lower key
  plain : ∀ c ∈ s.toList, Plain c

theorem core_of_plain (h : ∀ c ∈ cs, Plain c) :
    cs.filterMap core? = (cs.filter Char.isAlphanum).map Char.toLower := by
  induction cs with
  | nil => rfl
  | cons c cs ih =>
    rw [List.filterMap_cons, core?_of_plain (h c List.mem_cons_self), List.filter_cons,
      ih fun c hc => h c (List.mem_cons_of_mem _ hc)]
    cases c.isAlphanum <;> rfl

theorem Spells.core (h : Spells s key) : core s = lower key :=
  (core_of_plain h.plain).trans h.letters

end Decoration

section Lowering

-- Lower-casing as Unicode has it: what becomes of a character may depend on those around it, and
-- may be more than one character.
structure Lowering where
  piece : List Char → Char → List Char → List Char
  ascii : ∀ {c : Char}, c.toNat < 128 → ∀ before after, piece before c after = [c.toLower]
  kelvin : ∀ {c : Char}, c.toNat = 0x212a → ∀ before after, piece before c after = ['k']
  dotted : ∀ {c : Char}, c.toNat = 0x130 → ∀ before after,
    piece before c after = ['i', Char.ofNat 0x307]
  foreign : ∀ {c : Char}, 128 ≤ c.toNat → Plain c → ∀ before after,
    ∀ x ∈ piece before c after, 128 ≤ x.toNat

namespace Lowering

variable {L : Lowering}

def run (L : Lowering) : List Char → List Char → List Char
  | _, [] => []
  | before, c :: after => L.piece before c after ++ L.run (before ++ [c]) after

def lower (L : Lowering) (name : String) : List Char := L.run [] name.toList

-- A whole name is lower-cased first, and cleaned then.
def suggestion? (L : Lowering) (name : String) : Option String :=
  match (L.lower name).filter kept with
  | [] => none
  | cs => names.find? fun key => L.lower key == cs

theorem eq_ofNat {n : Nat} (h : c.toNat = n) : c = Char.ofNat n := by
  rw [← h, Char.ofNat_toNat]

theorem kept_piece (c : Char) (before after : List Char) :
    (L.piece before c after).filter kept = (core? c).toList := by
  by_cases hc : c.toNat < 128
  · rw [L.ascii hc, core?_of_ascii hc, List.filter_singleton, kept_toLower hc]
    cases c.isAlphanum <;> rfl
  · by_cases hk : c.toNat = 0x212a
    · have hcore : core? (Char.ofNat 0x212a) = some 'k' := rfl
      rw [L.kelvin hk, eq_ofNat hk, hcore]
      rfl
    · by_cases hd : c.toNat = 0x130
      · have hcore : core? (Char.ofNat 0x130) = some 'i' := rfl
        rw [L.dotted hd, eq_ofNat hd, hcore]
        rfl
      · rw [core?_of_foreign (Nat.not_lt.1 hc) ⟨hk, hd⟩]
        refine List.filter_eq_nil_iff.2 fun x hx hkept => ?_
        exact absurd (lt_of_kept hkept)
          (Nat.not_lt.2 (L.foreign (Nat.not_lt.1 hc) ⟨hk, hd⟩ before after x hx))

-- Cleaning goes through a name character by character, whatever lower-casing looks at.
theorem kept_run (cs before : List Char) : (L.run before cs).filter kept = cs.filterMap core? := by
  induction cs generalizing before with
  | nil => rfl
  | cons c cs ih =>
    rw [run, List.filter_append, kept_piece, ih, List.filterMap_cons]
    cases core? c <;> rfl

theorem run_of_ascii (h : ∀ c ∈ cs, c.toNat < 128) (before : List Char) :
    L.run before cs = cs.map Char.toLower := by
  induction cs generalizing before with
  | nil => rfl
  | cons c cs ih =>
    rw [run, L.ascii (h c List.mem_cons_self), ih fun c hc => h c (List.mem_cons_of_mem _ hc)]
    rfl

theorem lower_name (hk : key ∈ names) : L.lower key = Key.lower key := by
  have hascii : (names.all fun key => key.toList.all fun c => c.toNat < 128) = true := by
    decide +kernel
  have hkey := List.all_eq_true.1 hascii key hk
  exact run_of_ascii (fun c hc => of_decide_eq_true (List.all_eq_true.1 hkey c hc)) []

theorem suggestion?_eq (L : Lowering) (s : String) : L.suggestion? s = Key.suggestion? s := by
  have hclean : (L.lower s).filter kept = core s := kept_run s.toList []
  unfold Lowering.suggestion? Key.suggestion?
  rw [hclean]
  cases core s with
  | nil => rfl
  | cons c cs => exact List.find?_congr fun key hk => by rw [lower_name hk]

theorem toLower_of_foreign (hc : 128 ≤ c.toNat) : c.toLower = c := by
  refine dif_neg fun h => Nat.not_lt.2 hc (lt_of_isAlphanum (isAlphanum_of_isUpper ?_))
  simpa only [Char.isUpper, Bool.and_eq_true, decide_eq_true_eq] using h

-- The last letter of a word may look different, as the capital sigma does; all other characters
-- outside ASCII are left as they are here.
def least : Lowering where
  piece before c after :=
    if c.toNat = 0x212a then ['k']
    else if c.toNat = 0x130 then ['i', Char.ofNat 0x307]
    else if c.toNat = 0x3a3 then [if before ≠ [] ∧ after = [] then 'ς' else 'σ']
    else [c.toLower]
  ascii h _ _ := by
    rw [if_neg (by omega), if_neg (by omega), if_neg (by omega)]
  kelvin h _ _ := if_pos h
  dotted h _ _ := by
    rw [if_neg (by omega), if_pos h]
  foreign h hp _ _ x hx := by
    rw [if_neg hp.kelvin, if_neg hp.dotted] at hx
    split at hx
    · obtain rfl := List.mem_singleton.1 hx
      split <;> decide
    · obtain rfl := List.mem_singleton.1 hx
      rwa [toLower_of_foreign h]

instance : Inhabited Lowering := ⟨least⟩

end Lowering

end Lowering

-- What a name is told: it is valid as one of the names and no other, and what it is taken for does
-- not depend on how it is decorated.
structure Explained (s : String) : Prop where
  valid : check s = .ok () ↔ s ∈ names
  sound : ∀ {key : String}, suggestion? s = some key → key ∈ names ∧ key ≠ " "
  redressed : ∀ {s' : String}, Relation.EqvGen Redressed s.toList s'.toList →
    suggestion? s' = suggestion? s
  spelled : ∀ {key : String}, key ∈ names → Spells s key → suggestion? s = some key
  alone : ∀ {key key' : String}, key ∈ names → key' ∈ names → Spells s key → Spells s key' →
    key' = key
  lowered : ∀ L : Lowering, L.suggestion? s = suggestion? s

theorem explained (s : String) : Explained s where
  valid := check_eq_ok_iff
  sound h := ⟨suggestion?_mem h, suggestion?_ne_space h⟩
  redressed h := suggestion?_congr (core_of_eqvGen h)
  spelled hk hs := suggestion?_eq_some_iff.2 ⟨hk, hs.core⟩
  alone hk hk' hs hs' := lower_injective _ hk' _ hk (hs'.letters.symm.trans hs.letters)
  lowered L := L.suggestion?_eq s

example : suggestion? "arrow-LEFT" = some "ArrowLeft" := by decide +kernel

end SpriteStage.Key

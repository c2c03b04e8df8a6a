import SpriteStage.Proofs.Worth

namespace SpriteStage

open Binary64 Float.Model Float.Model.UnpackedFloat

-- A quantity as two extra binary digits tell it: half a unit, and whether anything is left over.
def Tells (em : ExtendedMantissa) (x : ℚ) : Prop :=
  ∃ rest : ℚ, 0 ≤ rest ∧ rest < 1 / 2 ∧ (em.stickyBit = false ↔ rest = 0) ∧
    x = em.mantissa + (if em.roundBit then 1 / 2 else 0) + rest

namespace Tells

variable {em : ExtendedMantissa} {x : ℚ}

theorem floor_le (h : Tells em x) : (em.mantissa : ℚ) ≤ x := by
  obtain ⟨rest, hpos, -, -, rfl⟩ := h
  split <;> linarith

theorem lt_succ (h : Tells em x) : x < em.mantissa + 1 := by
  obtain ⟨rest, -, hlt, -, rfl⟩ := h
  split <;> linarith

theorem shiftRightOne (h : Tells em x) : Tells em.shiftRightOne (x / 2) := by
  obtain ⟨m, half, sticky⟩ := em
  obtain ⟨rest, hpos, hlt, hsticky, rfl⟩ := h
  dsimp only at hsticky ⊢
  have hm : (m : ℚ) = 2 * (m / 2 : ℕ) + (m % 2 : ℕ) := by exact_mod_cast (Nat.div_add_mod m 2).symm
  refine ⟨(if half then 1 / 4 else 0) + rest / 2, ?_, ?_, ?_, ?_⟩
  · split <;> linarith
  · split <;> linarith
  · show (half || sticky) = false ↔ _
    cases half
    · rw [Bool.false_or, hsticky, if_neg Bool.false_ne_true, zero_add, div_eq_zero_iff,
        or_iff_left two_ne_zero]
    · refine iff_of_false Bool.noConfusion fun h0 => ?_
      rw [if_pos rfl] at h0
      linarith
  · show (m + (if half = true then 1 / 2 else 0) + rest) / 2 =
      (m / 2 : ℕ) + (if (m % 2 != 0) = true then 1 / 2 else 0) +
        ((if half = true then 1 / 4 else 0) + rest / 2)
    have hhalf : (if half = true then (1 / 4 : ℚ) else 0) =
        (if half = true then 1 / 2 else 0) / 2 := by
      split <;> norm_num
    have hodd : (if (m % 2 != 0) = true then (1 / 2 : ℚ) else 0) = (m % 2 : ℕ) / 2 := by
      rcases Nat.mod_two_eq_zero_or_one m with h | h <;> rw [h] <;> norm_num
    rw [hhalf, hodd, hm]
    ring

theorem shiftRight (h : Tells em x) (n : ℕ) : Tells (em >>> n) (x / 2 ^ n) := by
  show Tells (Nat.repeat ExtendedMantissa.shiftRightOne n em) (x / 2 ^ n)
  induction n with
  | zero => rw [pow_zero, div_one]; exact h
  | succ n ih => rw [pow_succ, ← div_div]; exact ih.shiftRightOne

-- Rounding moves a quantity by half a unit at most.
theorem roundedMantissa (h : Tells em x) : |(em.roundedMantissa : ℚ) - x| ≤ 1 / 2 := by
  obtain ⟨m, half, sticky⟩ := em
  obtain ⟨rest, hpos, hlt, hsticky, rfl⟩ := h
  dsimp only at hsticky ⊢
  cases half <;> cases sticky
  · rw [hsticky.1 rfl]
    show |(m : ℚ) - (m + 0 + 0)| ≤ 1 / 2
    norm_num
  · show |(m : ℚ) - (m + 0 + rest)| ≤ 1 / 2
    rw [abs_le]
    constructor <;> linarith
  · rw [hsticky.1 rfl]
    show |((m + m % 2 : ℕ) : ℚ) - (m + 1 / 2 + 0)| ≤ 1 / 2
    rcases Nat.mod_two_eq_zero_or_one m with h | h <;> rw [h, abs_le] <;> push_cast <;>
      constructor <;> linarith
  · show |((m + 1 : ℕ) : ℚ) - (m + 1 / 2 + rest)| ≤ 1 / 2
    rw [abs_le]
    push_cast
    constructor <;> linarith

theorem exact (m : ℕ) : Tells (.ofMantissaAndAccuracy m .exact) m :=
  ⟨0, le_rfl, by norm_num, iff_of_true rfl rfl, by simp [ExtendedMantissa.ofMantissaAndAccuracy]⟩

theorem fraction (num : ℕ) {den : ℕ} (h : 0 < den) :
    Tells (.ofMantissaAndAccuracy (num / den) (accuracyOfFraction (num % den) den))
      (num / den) := by
  have hden : (0 : ℚ) < den := by exact_mod_cast h
  have hlt : num % den < den := Nat.mod_lt _ h
  have hnum : (num : ℚ) / den = (num / den : ℕ) + (num % den : ℕ) / den := by
    rw [div_eq_iff hden.ne', add_mul, div_mul_cancel₀ _ hden.ne', mul_comm]
    exact_mod_cast (Nat.div_add_mod num den).symm
  generalize num % den = rest at hlt hnum ⊢
  rw [hnum]
  have hltq : (rest : ℚ) < den := by exact_mod_cast hlt
  unfold accuracyOfFraction
  split
  · rename_i h0
    rw [h0, Nat.cast_zero, zero_div, add_zero]
    exact exact _
  · rename_i h0
    have hpos : (0 : ℚ) < rest := by exact_mod_cast Nat.pos_of_ne_zero h0
    rcases lt_trichotomy (2 * rest) den with hc | hc | hc
    · have hcq : (2 * rest : ℚ) < den := by exact_mod_cast hc
      rw [Nat.compare_eq_lt.2 hc]
      refine ⟨rest / den, by positivity, ?_, iff_of_false nofun (by positivity), ?_⟩
      · rw [div_lt_iff₀ hden]
        linarith
      · simp [ExtendedMantissa.ofMantissaAndAccuracy]
    · have hcq : (2 * rest : ℚ) = den := by exact_mod_cast hc
      rw [Nat.compare_eq_eq.2 hc]
      refine ⟨0, le_rfl, by norm_num, iff_of_true rfl rfl, ?_⟩
      simp only [ExtendedMantissa.ofMantissaAndAccuracy, ↓reduceIte]
      rw [← hcq]
      field_simp
      norm_num
    · have hcq : (den : ℚ) < 2 * rest := by exact_mod_cast hc
      rw [Nat.compare_eq_gt.2 hc]
      refine ⟨rest / den - 1 / 2, ?_, ?_, iff_of_false nofun ?_, ?_⟩
      · rw [sub_nonneg, le_div_iff₀ hden]
        linarith
      · rw [sub_lt_iff_lt_add, div_lt_iff₀ hden]
        linarith
      · rw [sub_eq_zero, div_eq_iff hden.ne']
        linarith
      · simp [ExtendedMantissa.ofMantissaAndAccuracy]

end Tells

-- A number of at most 53 binary digits, none of them below the lowest exponent.
def OnGrid (z : ℚ) : Prop := ∃ n s : ℤ, -1074 ≤ s ∧ |n| < 2 ^ 53 ∧ z = n * 2 ^ s

-- The multiple of a unit that is nearest to a quantity; the unit is fine enough for its size.
structure NearsAt (t : ℤ) (v r : ℚ) : Prop where
  lowest : -1074 ≤ t
  multiple : ∃ n : ℤ, r = n * 2 ^ t
  close : |r - v| ≤ 2 ^ t / 2
  fine : t = -1074 ∨ 2 ^ (52 + t) ≤ |v|

def Nears (v r : ℚ) : Prop := ∃ t, NearsAt t v r

namespace OnGrid

variable {z : ℚ}

theorem neg (h : OnGrid z) : OnGrid (-z) := by
  obtain ⟨n, s, hs, hn, rfl⟩ := h
  exact ⟨-n, s, hs, by rwa [abs_neg], by push_cast; ring⟩

-- A number is a multiple of any finer unit.
theorem multiple_of_le {n s t : ℤ} (h : t ≤ s) : ∃ k : ℤ, (n * 2 ^ s : ℚ) = k * 2 ^ t := by
  refine ⟨n * 2 ^ (s - t).toNat, ?_⟩
  have hexp : ((s - t).toNat : ℤ) + t = s := by omega
  push_cast
  rw [mul_assoc, pow_mul_zpow, hexp]

end OnGrid

namespace Nears

variable {v r z : ℚ}

-- A double needs no rounding.
theorem refl {b : Binary64} (h : b.Canonical) : Nears b.worth b.worth := by
  refine ⟨b.exponent, h.lowest, ?_, by rw [sub_self, abs_zero]; positivity, ?_⟩
  · refine ⟨if b.negative then -b.mantissa else b.mantissa, ?_⟩
    unfold worth
    split <;> push_cast <;> ring
  · refine h.full.symm.imp_right fun hfull => ?_
    have hm : (2 ^ 52 : ℚ) ≤ b.mantissa := by exact_mod_cast hfull
    calc (2 : ℚ) ^ (52 + b.exponent) = 2 ^ 52 * 2 ^ b.exponent := (pow_mul_zpow 52 _).symm
      _ ≤ b.mantissa * 2 ^ b.exponent := by gcongr
      _ = |b.worth| := (abs_worth b).symm

theorem zero : Nears 0 0 :=
  ⟨-1074, le_rfl, ⟨0, by simp⟩, by rw [sub_self, abs_zero]; positivity, .inl rfl⟩

theorem neg (h : Nears v r) : Nears (-v) (-r) := by
  obtain ⟨t, hlow, ⟨n, rfl⟩, hclose, hfine⟩ := h
  refine ⟨t, hlow, ⟨-n, by push_cast; ring⟩, ?_, by rwa [abs_neg]⟩
  rwa [← neg_sub', abs_neg]

-- No number of the grid lies between a quantity and what it is rounded to.
theorem le (h : Nears v r) (hz : OnGrid z) (hv : v ≤ z) : r ≤ z := by
  obtain ⟨t, hlow, ⟨k, rfl⟩, hclose, hfine⟩ := h
  obtain ⟨n, s, hs, hn, rfl⟩ := hz
  have hunit : (0 : ℚ) < 2 ^ t := by positivity
  have hnear : (k * 2 ^ t : ℚ) ≤ v + 2 ^ t / 2 := by linarith [(abs_le.1 hclose).2]
  rcases le_or_gt t s with hts | hts
  · -- the number is a multiple of the same unit
    obtain ⟨j, hj⟩ := OnGrid.multiple_of_le (n := n) hts
    rw [hj] at hv ⊢
    have hkj : (k : ℚ) < j + 1 := by
      have : (k * 2 ^ t : ℚ) < (j + 1) * 2 ^ t := by linarith
      exact lt_of_mul_lt_mul_right this hunit.le
    have hkj' : k ≤ j := by
      have : k < j + 1 := by exact_mod_cast hkj
      omega
    have : (k : ℚ) ≤ j := by exact_mod_cast hkj'
    gcongr
  · -- the number is smaller in size than the quantity, which is therefore negative
    have hbig : (2 ^ (52 + t) : ℚ) ≤ |v| := hfine.resolve_left (by omega)
    have hsmall : |(n * 2 ^ s : ℚ)| < 2 ^ (52 + t) := by
      have hnq : |(n : ℚ)| < 2 ^ 53 := by exact_mod_cast hn
      rw [abs_mul, abs_of_pos (show (0 : ℚ) < 2 ^ s by positivity)]
      calc |(n : ℚ)| * 2 ^ s < 2 ^ 53 * 2 ^ s := by gcongr
        _ = 2 ^ (53 + s) := pow_mul_zpow 53 s
        _ ≤ 2 ^ (52 + t) := zpow_le_zpow_right₀ one_le_two (by omega)
    have hneg : v ≤ -2 ^ (52 + t) := by
      rcases le_abs'.1 hbig with h | h
      · exact h
      · linarith [le_abs_self (n * 2 ^ s : ℚ)]
    have hk : (k : ℚ) < -2 ^ 52 + 1 := by
      have hsplit : (2 ^ (52 + t) : ℚ) = 2 ^ 52 * 2 ^ t := (pow_mul_zpow 52 t).symm
      have : (k * 2 ^ t : ℚ) < (-2 ^ 52 + 1) * 2 ^ t := by linarith
      exact lt_of_mul_lt_mul_right this hunit.le
    have hk' : k ≤ -2 ^ 52 := by
      have : k < -2 ^ 52 + 1 := by exact_mod_cast hk
      omega
    have hkq : (k : ℚ) ≤ -2 ^ 52 := by exact_mod_cast hk'
    calc (k * 2 ^ t : ℚ) ≤ -2 ^ 52 * 2 ^ t := by gcongr
      _ = -2 ^ (52 + t) := by rw [neg_mul, pow_mul_zpow]; rfl
      _ ≤ n * 2 ^ s := by linarith [neg_abs_le (n * 2 ^ s : ℚ)]

theorem ge (h : Nears v r) (hz : OnGrid z) (hv : z ≤ v) : z ≤ r :=
  neg_le_neg_iff.1 (h.neg.le hz.neg (neg_le_neg hv))

theorem eq_of_onGrid (h : Nears v r) (hv : OnGrid v) : r = v :=
  le_antisymm (h.le hv le_rfl) (h.ge hv le_rfl)

-- Half a unit more than the greatest double is still rounded down to it.
theorem abs_lt (h : Nears v r) (hv : |v| < 2 ^ (1024 : ℤ) - 2 ^ (970 : ℤ)) :
    |r| < 2 ^ (1024 : ℤ) := by
  obtain ⟨t, hlow, -, hclose, hfine⟩ := h
  have ht : t ≤ 971 := by
    rcases hfine with rfl | hfine
    · norm_num
    · have : (2 : ℚ) ^ (52 + t) < 2 ^ (1024 : ℤ) :=
        (hfine.trans_lt hv).trans (sub_lt_self _ (by positivity))
      have := (zpow_lt_zpow_iff_right₀ one_lt_two).1 this
      omega
  have hunit : (2 : ℚ) ^ t / 2 ≤ 2 ^ (970 : ℤ) := by
    rw [div_le_iff₀ two_pos, ← zpow_add_one₀ two_ne_zero]
    exact zpow_le_zpow_right₀ one_le_two ht
  calc |r| = |v + (r - v)| := by rw [add_sub_cancel]
    _ ≤ |v| + |r - v| := abs_add_le _ _
    _ < 2 ^ (1024 : ℤ) := by linarith

end Nears

-- A float holds a quantity as well as a double can: rounded, or not at all if that is out of range.
def Rounds (v : ℚ) (x : Float) : Prop :=
  ∃ r, Nears v r ∧ worth? x = if |r| < 2 ^ (1024 : ℤ) then some r else none

namespace Rounds

variable {v r z : ℚ} {x : Float}

theorem zero (s : Sign) : Rounds 0 ⟨Float.Model.pack (.zero s)⟩ :=
  ⟨0, .zero, by rw [worth?_zero, abs_zero, if_pos (by positivity)]⟩

theorem nears (h : Rounds v x) (hx : worth? x = some r) : Nears v r := by
  obtain ⟨s, hs, hworth⟩ := h
  rw [hx] at hworth
  split at hworth <;> cases hworth
  exact hs

theorem isSome (h : Rounds v x) (hv : |v| < 2 ^ (1024 : ℤ) - 2 ^ (970 : ℤ)) :
    ∃ r, worth? x = some r := by
  obtain ⟨r, hr, hworth⟩ := h
  exact ⟨r, hworth.trans (if_pos (hr.abs_lt hv))⟩

theorem isSome_of_le (h : Rounds v x) (hz : OnGrid z) (hv : |v| ≤ z) (hlt : z < 2 ^ (1024 : ℤ)) :
    ∃ r, worth? x = some r := by
  obtain ⟨r, hr, hworth⟩ := h
  obtain ⟨hlow, hhigh⟩ := abs_le.1 hv
  exact ⟨r, hworth.trans (if_pos ((abs_le.2 ⟨hr.ge hz.neg hlow, hr.le hz hhigh⟩).trans_lt hlt))⟩

theorem exact (h : Rounds v x) (hv : OnGrid v) (hlt : |v| < 2 ^ (1024 : ℤ)) :
    worth? x = some v := by
  obtain ⟨r, hr, hworth⟩ := h
  obtain rfl := hr.eq_of_onGrid hv
  exact hworth.trans (if_pos hlt)

end Rounds

section Rounding

-- The exponent at which a number has 53 digits, or the lowest one.
def target (m : ℕ) (e : ℤ) : ℤ := max ((m.log2 : ℤ) + 1 + e - 53) (-1074)

variable {m : ℕ} {e t : ℤ} {acc : Accuracy} {v : ℚ}

theorem tells_shiftToExponent (h : Tells (.ofMantissaAndAccuracy m acc) (v / 2 ^ e)) (ht : e ≤ t) :
    Tells (shiftToExponent m e acc t).1 (v / 2 ^ t) ∧ (shiftToExponent m e acc t).2 = t := by
  have hexp : ((t - e).toNat : ℤ) + e = t := by omega
  refine ⟨?_, show e + ((t - e).toNat : ℤ) = t by omega⟩
  have := h.shiftRight (t - e).toNat
  rwa [div_div, mul_comm, pow_mul_zpow, hexp] at this

-- The rounded significand has 53 digits, or is the power of two after them.
theorem rounded_bounds {em : ExtendedMantissa} (h : Tells em (v / 2 ^ t))
    (hlt : v < 2 ^ (53 + t)) (hfine : t = -1074 ∨ 2 ^ (52 + t) ≤ v) :
    em.roundedMantissa ≤ 2 ^ 53 ∧ (t = -1074 ∨ 2 ^ 52 ≤ em.roundedMantissa) := by
  have hunit : (0 : ℚ) < 2 ^ t := by positivity
  obtain ⟨hbelow, habove⟩ := abs_le.1 h.roundedMantissa
  constructor
  · have hx : v / 2 ^ t < 2 ^ 53 := by rwa [div_lt_iff₀ hunit, pow_mul_zpow]
    have : (em.roundedMantissa : ℚ) < 2 ^ 53 + 1 := by linarith
    have : em.roundedMantissa < 2 ^ 53 + 1 := by exact_mod_cast this
    omega
  · refine hfine.imp_right fun hge => ?_
    have hx : (2 : ℚ) ^ 52 ≤ v / 2 ^ t := by rwa [le_div_iff₀ hunit, pow_mul_zpow]
    have : (2 ^ 52 : ℚ) < em.roundedMantissa + 1 := by linarith
    have : 2 ^ 52 < em.roundedMantissa + 1 := by exact_mod_cast this
    omega

theorem target_bounds (h : Tells (.ofMantissaAndAccuracy m acc) (v / 2 ^ e)) (he : e ≤ target m e) :
    v < 2 ^ (53 + target m e) ∧ (target m e = -1074 ∨ 2 ^ (52 + target m e) ≤ v) := by
  have hunit : (0 : ℚ) < 2 ^ e := by positivity
  have hm : (ExtendedMantissa.ofMantissaAndAccuracy m acc).mantissa = m := by
    rcases acc with _ | ⟨_ | _ | _⟩ <;> rfl
  have hlower := h.floor_le
  have hupper := h.lt_succ
  rw [hm] at hlower hupper
  rw [le_div_iff₀ hunit] at hlower
  rw [div_lt_iff₀ hunit] at hupper
  constructor
  · have hlog : (m + 1 : ℚ) ≤ 2 ^ (m.log2 + 1) := by exact_mod_cast Nat.lt_log2_self (n := m)
    calc v < (m + 1) * 2 ^ e := hupper
      _ ≤ 2 ^ (m.log2 + 1) * 2 ^ e := by gcongr
      _ = 2 ^ (((m.log2 + 1 : ℕ) : ℤ) + e) := pow_mul_zpow _ _
      _ ≤ 2 ^ (53 + target m e) := zpow_le_zpow_right₀ one_le_two (by unfold target; omega)
  · by_cases hlow : target m e = -1074
    · exact .inl hlow
    · have hne : m ≠ 0 := by
        rintro rfl
        unfold target at he hlow
        simp only [Nat.log2_zero] at he hlow
        omega
      have hlog : (2 ^ m.log2 : ℚ) ≤ m := by exact_mod_cast Nat.log2_self_le hne
      refine .inr ?_
      calc (2 : ℚ) ^ (52 + target m e) = 2 ^ ((m.log2 : ℤ) + e) := by
            congr 1
            unfold target at hlow ⊢
            omega
        _ = 2 ^ m.log2 * 2 ^ e := (pow_mul_zpow _ _).symm
        _ ≤ m * 2 ^ e := by gcongr
        _ ≤ v := hlower

-- A significand of 54 digits is a power of two, and gives its last digit up to the exponent.
theorem canonical_shift {n : ℕ} (negative : Bool) (ht : -1074 ≤ t) (hsmall : n ≤ 2 ^ 53)
    (hfull : t = -1074 ∨ 2 ^ 52 ≤ n) :
    (Binary64.mk negative (shiftToExponent n t .exact (target n t)).1.mantissa
        (shiftToExponent n t .exact (target n t)).2).Canonical ∧
      ((shiftToExponent n t .exact (target n t)).1.mantissa *
        2 ^ (shiftToExponent n t .exact (target n t)).2 : ℚ) = n * 2 ^ t := by
  rcases hsmall.lt_or_eq with hlt | rfl
  · have hlog : n.log2 ≤ 52 := by
      rcases eq_or_ne n 0 with rfl | hne
      · simp
      · exact Nat.le_of_lt_succ ((Nat.log2_lt hne).2 hlt)
    have hshift : (target n t - t).toNat = 0 := by unfold target; omega
    have hsame : shiftToExponent n t .exact (target n t) = (⟨n, false, false⟩, t) := by
      unfold shiftToExponent
      rw [hshift]
      exact Prod.ext rfl (add_zero t)
    rw [hsame]
    exact ⟨⟨hlt, ht, hfull.symm⟩, rfl⟩
  · have hlog : (2 ^ 53 : ℕ).log2 = 53 := Nat.log2_two_pow
    have hshift : (target (2 ^ 53) t - t).toNat = 1 := by unfold target; rw [hlog]; omega
    have hhalf : shiftToExponent (2 ^ 53) t .exact (target (2 ^ 53) t) =
        (⟨2 ^ 52, false, false⟩, t + 1) := by
      unfold shiftToExponent
      rw [hshift]
      rfl
    rw [hhalf]
    refine ⟨⟨by norm_num, by dsimp only; omega, .inl le_rfl⟩, ?_⟩
    push_cast
    rw [zpow_add_one₀ two_ne_zero]
    ring

theorem roundWithAccuracy_eq (s : Sign) (m : ℕ) (e : ℤ) (acc : Accuracy) :
    roundWithAccuracy Format.binary64 s m e acc =
      let first := shiftToExponent m e acc (target m e)
      let n := first.1.roundedMantissa
      let last := shiftToExponent n first.2 .exact (target n first.2)
      ofParts s last.1.mantissa last.2 := rfl

theorem Tells.nears {em : ExtendedMantissa} (h : Tells em (v / 2 ^ t)) (ht : -1074 ≤ t)
    (hfine : t = -1074 ∨ 2 ^ (52 + t) ≤ v) : Nears v (em.roundedMantissa * 2 ^ t) := by
  have hunit : (0 : ℚ) < 2 ^ t := by positivity
  refine ⟨t, ht, ⟨em.roundedMantissa, by norm_cast⟩, ?_,
    hfine.imp_right fun h => h.trans (le_abs_self v)⟩
  have hscale : (em.roundedMantissa * 2 ^ t - v : ℚ) =
      (em.roundedMantissa - v / 2 ^ t) * 2 ^ t := by
    rw [sub_mul, div_mul_cancel₀ _ hunit.ne']
  rw [hscale, abs_mul, abs_of_pos hunit]
  calc |(em.roundedMantissa : ℚ) - v / 2 ^ t| * 2 ^ t ≤ 1 / 2 * 2 ^ t := by
        gcongr
        exact h.roundedMantissa
    _ = 2 ^ t / 2 := by ring

theorem rounds_roundWithAccuracy (s : Sign) (h : Tells (.ofMantissaAndAccuracy m acc) (v / 2 ^ e))
    (he : e ≤ target m e) :
    Rounds (if isNegative s then -v else v)
      ⟨Float.Model.pack (roundWithAccuracy Format.binary64 s m e acc)⟩ := by
  obtain ⟨htells, hexp⟩ := tells_shiftToExponent h he
  obtain ⟨hlt, hfine⟩ := target_bounds h he
  obtain ⟨hsmall, hfull⟩ := rounded_bounds htells hlt hfine
  have hlow : -1074 ≤ target m e := le_max_right _ _
  have hnears := Tells.nears htells hlow hfine
  rw [roundWithAccuracy_eq]
  simp only [hexp]
  generalize (shiftToExponent m e acc (target m e)).1.roundedMantissa = n at *
  obtain ⟨hc, hworth⟩ := canonical_shift (isNegative s) hlow hsmall hfull
  generalize shiftToExponent n (target m e) .exact (target n (target m e)) = last at hc hworth ⊢
  refine ⟨worth ⟨isNegative s, n, target m e⟩, ?_, ?_⟩
  · cases s
    · rw [isNegative, worth_negative]
      exact hnears.neg
    · rw [isNegative, worth_positive]
      exact hnears
  · have hsame : worth ⟨isNegative s, n, target m e⟩ =
        worth ⟨isNegative s, last.1.mantissa, last.2⟩ :=
      congrArg ((if isNegative s then -1 else 1) * ·) hworth.symm
    rw [hsame, worth?_ofParts hc]

theorem log2_shiftLeft (hm : m ≠ 0) (k : ℕ) : (m <<< k).log2 = m.log2 + k := by
  rw [Nat.shiftLeft_eq, Nat.log2_eq_iff (by positivity)]
  constructor
  · rw [pow_add]
    exact Nat.mul_le_mul_right _ (Nat.log2_self_le hm)
  · rw [Nat.add_right_comm, pow_add]
    exact Nat.mul_lt_mul_of_pos_right Nat.lt_log2_self (by positivity)

theorem target_shiftLeft (hm : m ≠ 0) (e : ℤ) (k : ℕ) : target (m <<< k) (e - k) = target m e := by
  unfold target
  rw [log2_shiftLeft hm]
  push_cast
  congr 1
  ring

theorem shiftLeft_worth (m : ℕ) (e : ℤ) (k : ℕ) :
    ((m <<< k : ℕ) * 2 ^ (e - k) : ℚ) = m * 2 ^ e := by
  rw [Nat.shiftLeft_eq]
  push_cast
  rw [mul_assoc, pow_mul_zpow, add_sub_cancel]

theorem rounds_round (s : Sign) (hm : m ≠ 0) (e : ℤ) :
    Rounds (if isNegative s then -(m * 2 ^ e) else m * 2 ^ e)
      ⟨Float.Model.pack (round Format.binary64 s m e)⟩ := by
  have hround : round Format.binary64 s m e = roundWithAccuracy Format.binary64 s
      (m <<< (e - target m e).toNat) (e - (e - target m e).toNat) .exact := rfl
  rw [hround]
  refine rounds_roundWithAccuracy s ?_ ?_
  · rw [← shiftLeft_worth m e (e - target m e).toNat, mul_div_cancel_right₀ _ (by positivity)]
    exact Tells.exact _
  · rw [target_shiftLeft hm]
    omega

theorem rounds_normalize (n : ℤ) (e : ℤ) (s : Sign) :
    Rounds (n * 2 ^ e) ⟨Float.Model.pack (UnpackedFloat.normalize Format.binary64 n e s)⟩ := by
  unfold UnpackedFloat.normalize
  rcases lt_trichotomy n 0 with h | rfl | h
  · rw [Int.compare_eq_lt.2 h]
    have hcast : ((n * 2 ^ e : ℚ)) = -((-n).toNat * 2 ^ e) := by
      have : ((-n).toNat : ℤ) = -n := by omega
      rw [← Int.cast_natCast, this]
      push_cast
      ring
    rw [hcast]
    exact rounds_round .negative (by omega) e
  · rw [Int.cast_zero, zero_mul]
    exact Rounds.zero s
  · rw [Int.compare_eq_gt.2 h]
    have hcast : ((n * 2 ^ e : ℚ)) = n.toNat * 2 ^ e := by
      have : (n.toNat : ℤ) = n := by omega
      rw [← Int.cast_natCast, this]
    rw [hcast]
    exact rounds_round .positive (by omega) e

-- A float taken apart stands for a number, which a double holds exactly.
def Reads (u : UnpackedFloat) (v : ℚ) : Prop :=
  ∃ b, ofUnpacked? u = some b ∧ b.Canonical ∧ b.exponent ≤ 971 ∧ b.worth = v

theorem reads_unpack {x : Float} (h : worth? x = some v) : Reads x.toModel.unpack v := by
  obtain ⟨b, hb, h⟩ := worth?_eq_some h
  exact ⟨b, (ofFloat?_eq x).symm.trans hb, h⟩

namespace Reads

variable {u u' : UnpackedFloat} {w : ℚ}

-- The two zeros, and the numbers with a sign and a significand.
theorem cases (h : Reads u v) :
    (v = 0 ∧ ∃ s, u = .zero s) ∨ ∃ s m e hm, u = .finite s m e hm ∧ v = s.apply m * 2 ^ e := by
  obtain ⟨b, hb, -, -, rfl⟩ := h
  rcases u with _ | _ | s | ⟨s, m, e, hm⟩ <;> cases hb
  · exact .inl ⟨worth_zero _ _, s, rfl⟩
  · refine .inr ⟨s, m, e, hm, rfl, ?_⟩
    cases s
    · rw [isNegative, worth_negative, Sign.apply, Int.cast_neg, Int.cast_natCast, neg_mul]
    · rw [isNegative, worth_positive, Sign.apply, Int.cast_natCast]

theorem neg (h : Reads u v) : Reads u.neg (-v) := by
  obtain ⟨⟨n, m, e⟩, hb, ⟨hsmall, hlow, hfull⟩, he, rfl⟩ := h
  have hworth (n : Bool) : worth ⟨!n, m, e⟩ = -worth ⟨n, m, e⟩ := by
    cases n
    · rw [Bool.not_false, worth_negative, worth_positive]
    · rw [Bool.not_true, worth_negative, worth_positive, neg_neg]
  refine ⟨⟨!n, m, e⟩, ?_, ⟨hsmall, hlow, hfull⟩, he, hworth n⟩
  rcases u with _ | _ | s | ⟨s, m, e, hm⟩ <;> cases hb <;> cases s <;> rfl

theorem rounds (h : Reads u v) : Rounds v ⟨Float.Model.pack u⟩ := by
  obtain ⟨b, hb, hc, he, rfl⟩ := h
  refine ⟨b.worth, Nears.refl hc, ?_⟩
  rcases u with _ | _ | s | ⟨s, m, e, hm⟩ <;> cases hb
  · rw [worth?_zero, worth_zero, abs_zero, if_pos (by positivity)]
  · rw [← worth?_ofParts hc, ofParts, dif_neg hm.ne']

-- Two numbers at a common exponent.
theorem apply_shiftLeft (s : Sign) (m : ℕ) {e t : ℤ} (h : t ≤ e) :
    ((s.apply (m <<< (e - t).toNat : ℕ) : ℤ) * 2 ^ t : ℚ) = s.apply m * 2 ^ e := by
  have hexp : e - ((e - t).toNat : ℤ) = t := by omega
  have hworth := shiftLeft_worth m e (e - t).toNat
  rw [hexp] at hworth
  cases s
  · rw [Sign.apply, Sign.apply, Int.cast_neg, Int.cast_natCast, Int.cast_neg, Int.cast_natCast,
      neg_mul, neg_mul, hworth]
  · exact hworth

theorem add (h : Reads u v) (h' : Reads u' w) :
    Rounds (v + w) ⟨Float.Model.pack (UnpackedFloat.add Format.binary64 u u')⟩ := by
  rcases h.cases with ⟨rfl, s, rfl⟩ | ⟨s, m, e, hm, rfl, rfl⟩ <;>
    rcases h'.cases with ⟨rfl, s', rfl⟩ | ⟨s', m', e', hm', rfl, rfl⟩
  · rw [add_zero]
    cases s <;> cases s' <;> exact .zero _
  · rw [zero_add]
    exact h'.rounds
  · rw [add_zero]
    exact h.rounds
  · have hsum : UnpackedFloat.add Format.binary64 (.finite s m e hm) (.finite s' m' e' hm') =
        UnpackedFloat.normalize Format.binary64
          (s.apply (m <<< (e - min e e').toNat : ℕ) + s'.apply (m' <<< (e' - min e e').toNat : ℕ))
          (min e e') .positive := rfl
    rw [hsum, ← apply_shiftLeft s m (min_le_left e e'), ← apply_shiftLeft s' m' (min_le_right e e'),
      ← add_mul, ← Int.cast_add]
    exact rounds_normalize _ _ _

-- Taking away is adding the number with the other sign.
theorem sub_eq_add (u u' : UnpackedFloat) :
    UnpackedFloat.sub Format.binary64 u u' = UnpackedFloat.add Format.binary64 u u'.neg := by
  rcases u with _ | _ | _ | ⟨s, m, e, hm⟩ <;>
    rcases u' with _ | _ | _ | ⟨s', m', e', hm'⟩ <;> try rfl
  refine congrArg (UnpackedFloat.normalize Format.binary64 · (min e e') .positive) ?_
  cases s'
  · exact sub_neg_eq_add _ _
  · exact sub_eq_add_neg _ _

theorem sub (h : Reads u v) (h' : Reads u' w) :
    Rounds (v - w) ⟨Float.Model.pack (UnpackedFloat.sub Format.binary64 u u')⟩ := by
  rw [sub_eq_add, sub_eq_add_neg]
  exact h.add h'.neg

-- The quotient of two significands, with as many digits as rounding looks at.
theorem le_target_quotient {m m' k : ℕ} {t : ℤ} (hm : m ≠ 0) (hm' : m' ≠ 0)
    (h : t ≤ -1074 ∨ 53 + m'.log2 ≤ m.log2 + k) : t ≤ target ((m <<< k) / m') t := by
  unfold target
  rcases h with h | h
  · exact h.trans (le_max_right _ _)
  · have hquotient : 2 ^ 52 ≤ (m <<< k) / m' := by
      rw [Nat.le_div_iff_mul_le (Nat.pos_of_ne_zero hm'), Nat.shiftLeft_eq]
      calc 2 ^ 52 * m' ≤ 2 ^ 52 * 2 ^ (m'.log2 + 1) := by
            gcongr
            exact Nat.lt_log2_self.le
        _ = 2 ^ (53 + m'.log2) := by rw [← pow_add]; congr 1; omega
        _ ≤ 2 ^ (m.log2 + k) := Nat.pow_le_pow_right two_pos h
        _ = 2 ^ m.log2 * 2 ^ k := pow_add _ _ _
        _ ≤ m * 2 ^ k := by
            gcongr
            exact Nat.log2_self_le hm
    have hlog : 52 ≤ ((m <<< k) / m').log2 := (Nat.le_log2 (by positivity)).2 hquotient
    refine le_trans ?_ (le_max_left _ _)
    omega

theorem rounds_divCore (s : Sign) {m m' : ℕ} (hm : m ≠ 0) (hm' : m' ≠ 0) (e e' : ℤ) :
    Rounds (if isNegative s then -((m * 2 ^ e) / (m' * 2 ^ e')) else (m * 2 ^ e) / (m' * 2 ^ e'))
      ⟨Float.Model.pack (roundWithAccuracy Format.binary64 s (divCore Format.binary64 m e m' e').1
        (divCore Format.binary64 m e m' e').2.1 (divCore Format.binary64 m e m' e').2.2)⟩ := by
  have hcore : divCore Format.binary64 m e m' e' =
      let t := min (e - e') (max ((m.log2 : ℤ) + 1 + e - (m'.log2 + 1 + e') - 53) (-1074))
      let k := (e - e' - t).toNat
      ((m <<< k) / m', t, accuracyOfFraction ((m <<< k) % m') m') := rfl
  rw [hcore]
  dsimp only
  generalize ht : min (e - e') (max ((m.log2 : ℤ) + 1 + e - (m'.log2 + 1 + e') - 53) (-1074)) = t
  have hk : e - e' - ((e - e' - t).toNat : ℤ) = t := by omega
  refine rounds_roundWithAccuracy s ?_ (le_target_quotient hm hm' (by omega))
  have hworth := shiftLeft_worth m (e - e') (e - e' - t).toNat
  rw [hk] at hworth
  have hquotient : (m * 2 ^ e / (m' * 2 ^ e') : ℚ) / 2 ^ t =
      (m <<< (e - e' - t).toNat : ℕ) / m' := by
    rw [mul_div_mul_comm, ← zpow_sub₀ two_ne_zero, div_mul_eq_mul_div, ← hworth]
    field_simp
  rw [hquotient]
  exact Tells.fraction _ (Nat.pos_of_ne_zero hm')

theorem div (h : Reads u v) (h' : Reads u' w) (hw : w ≠ 0) :
    Rounds (v / w) ⟨Float.Model.pack (UnpackedFloat.div Format.binary64 u u')⟩ := by
  rcases h'.cases with ⟨rfl, -⟩ | ⟨s', m', e', hm', rfl, rfl⟩
  · exact absurd rfl hw
  rcases h.cases with ⟨rfl, s, rfl⟩ | ⟨s, m, e, hm, rfl, rfl⟩
  · rw [zero_div]
    exact Rounds.zero _
  · have hquotient := rounds_divCore (s / s') hm.ne' hm'.ne' e e'
    have hsign : (s.apply m * 2 ^ e / (s'.apply m' * 2 ^ e') : ℚ) =
        if isNegative (s / s') then -((m * 2 ^ e) / (m' * 2 ^ e') : ℚ)
        else (m * 2 ^ e) / (m' * 2 ^ e') := by
      have hdiv : isNegative (s / s') = (isNegative s != isNegative s') := by
        cases s <;> cases s' <;> rfl
      rw [hdiv]
      cases s <;> cases s' <;> simp [isNegative, Sign.apply, neg_div, div_neg]
    rw [hsign]
    exact hquotient

end Reads

theorem rounds_add {x y : Float} {w : ℚ} (hx : worth? x = some v) (hy : worth? y = some w) :
    Rounds (v + w) (x + y) := (reads_unpack hx).add (reads_unpack hy)

theorem rounds_sub {x y : Float} {w : ℚ} (hx : worth? x = some v) (hy : worth? y = some w) :
    Rounds (v - w) (x - y) := (reads_unpack hx).sub (reads_unpack hy)

theorem rounds_div {x y : Float} {w : ℚ} (hx : worth? x = some v) (hy : worth? y = some w)
    (hw : w ≠ 0) : Rounds (v / w) (x / y) := (reads_unpack hx).div (reads_unpack hy) hw

end Rounding

end SpriteStage

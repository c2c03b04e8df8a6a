import SpriteStage.Figure
import SpriteStage.Proofs.Rounding

namespace SpriteStage

open Binary64 Float.Model

namespace Binary64

-- How many of a unit a double is, its sign apart.
def count (b : Binary64) (unit : ℤ) : ℕ := b.mantissa * twoTo (b.exponent - unit).toNat

theorem worth_eq_count (b : Binary64) {unit : ℤ} (h : unit ≤ b.exponent) :
    b.worth = (if b.negative then -1 else 1) * (b.count unit * 2 ^ unit) := by
  have hexp : ((b.exponent - unit).toNat : ℤ) + unit = b.exponent := by omega
  have hcount : (b.count unit : ℚ) = b.mantissa * 2 ^ (b.exponent - unit).toNat := by
    show ((b.mantissa * 2 ^ (b.exponent - unit).toNat : ℕ) : ℚ) = _
    push_cast
    rfl
  rw [hcount, mul_assoc (b.mantissa : ℚ), pow_mul_zpow, hexp]
  rfl

theorem count_self (b : Binary64) : b.count b.exponent = b.mantissa := by
  unfold count
  rw [sub_self]
  exact mul_one _

variable {a b : Binary64}

theorem remainder_eq (a b : Binary64) : a.remainder b =
    ⟨a.negative, a.count (min a.exponent b.exponent) % b.count (min a.exponent b.exponent),
      min a.exponent b.exponent⟩ := rfl

-- What is left is shorter than both numbers, so there is room for it.
theorem remainder_small (ha : a.mantissa < 2 ^ 53) (hb : b.mantissa < 2 ^ 53)
    (hne : b.mantissa ≠ 0) : (a.remainder b).mantissa < 2 ^ 53 := by
  rw [remainder_eq]
  dsimp only
  rcases le_total a.exponent b.exponent with h | h
  · rw [min_eq_left h, count_self]
    exact (Nat.mod_le _ _).trans_lt ha
  · rw [min_eq_right h, count_self]
    exact (Nat.mod_lt _ (Nat.pos_of_ne_zero hne)).trans hb

theorem abs_remainder_lt (hne : b.mantissa ≠ 0) : |(a.remainder b).worth| < |b.worth| := by
  have hstep : 0 < b.count (min a.exponent b.exponent) :=
    Nat.mul_pos (Nat.pos_of_ne_zero hne) (twoTo_pos _)
  have hlt : ((a.count (min a.exponent b.exponent) % b.count (min a.exponent b.exponent) : ℕ) : ℚ) <
      b.count (min a.exponent b.exponent) := by
    exact_mod_cast Nat.mod_lt _ hstep
  have hb : |b.worth| = b.count (min a.exponent b.exponent) * 2 ^ min a.exponent b.exponent := by
    rw [worth_eq_count b (min_le_right a.exponent b.exponent)]
    have hunit : (0 : ℚ) < 2 ^ min a.exponent b.exponent := by positivity
    cases b.negative <;> simp [abs_of_pos hunit]
  rw [remainder_eq, abs_worth, hb]
  dsimp only
  gcongr

theorem remainder_multiple (a b : Binary64) :
    ∃ k : ℤ, a.worth = (a.remainder b).worth + k * b.worth := by
  have ha := worth_eq_count a (min_le_left a.exponent b.exponent)
  have hb := worth_eq_count b (min_le_right a.exponent b.exponent)
  rw [remainder_eq]
  generalize min a.exponent b.exponent = unit at ha hb ⊢
  generalize a.count unit = whole at ha ⊢
  generalize b.count unit = step at hb ⊢
  have hsplit : (whole : ℚ) = step * (whole / step : ℕ) + (whole % step : ℕ) := by
    exact_mod_cast (Nat.div_add_mod whole step).symm
  rw [ha, hb, worth, hsplit]
  dsimp only
  generalize whole / step = times
  generalize whole % step = rest
  refine ⟨(if a.negative then -1 else 1) * (if b.negative then -1 else 1) * times, ?_⟩
  cases a.negative <;> cases b.negative <;> simp <;> ring

end Binary64

section Remainder

variable {x y : Float} {v w : ℚ}

theorem worth?_remainder (hx : worth? x = some v) (hy : worth? y = some w) (hw : w ≠ 0) :
    ∃ r, worth? (remainder x y) = some r ∧ |r| < |w| ∧ ∃ k : ℤ, v = r + k * w := by
  obtain ⟨a, ha, ca, hea, rfl⟩ := worth?_eq_some hx
  obtain ⟨b, hb, cb, heb, rfl⟩ := worth?_eq_some hy
  have hne : b.mantissa ≠ 0 := by
    intro h
    rw [← abs_ne_zero, abs_worth, h, Nat.cast_zero, zero_mul] at hw
    exact hw rfl
  have hrem : remainder x y = (a.remainder b).toFloat := by
    unfold remainder
    rw [ha, hb]
    exact if_neg hne
  have hlt : |(a.remainder b).worth| < |b.worth| := abs_remainder_lt hne
  refine ⟨(a.remainder b).worth, ?_, hlt, remainder_multiple a b⟩
  rw [hrem]
  exact worth?_toFloat (remainder_small ca.small cb.small hne) (le_min ca.lowest cb.lowest)
    (hlt.trans (cb.exponent_le_iff.1 heb))

end Remainder

section Heading

variable {x : Float} {v r : ℚ}

theorem worth?_degrees : worth? 360.0 = some 360 ∧ worth? 180.0 = some 180 ∧
    worth? (-180.0) = some (-180) ∧ worth? 90.0 = some 90 := by
  have h360 : ofFloat? 360.0 = some ⟨false, 360 * 2 ^ 44, -44⟩ := by decide +kernel
  have h180 : ofFloat? 180.0 = some ⟨false, 180 * 2 ^ 45, -45⟩ := by decide +kernel
  have hneg : ofFloat? (-180.0) = some ⟨true, 180 * 2 ^ 45, -45⟩ := by decide +kernel
  have h90 : ofFloat? 90.0 = some ⟨false, 90 * 2 ^ 46, -46⟩ := by decide +kernel
  exact ⟨worth?_of_ofFloat? h360 (by norm_num [worth]),
    worth?_of_ofFloat? h180 (by norm_num [worth]),
    worth?_of_ofFloat? hneg (by norm_num [worth]), worth?_of_ofFloat? h90 (by norm_num [worth])⟩

-- A direction is a number above -180 and at most 180.
def Normalised (d : Float) : Prop := -180.0 < d ∧ d ≤ 180.0

instance (d : Float) : Decidable (Normalised d) := inferInstanceAs (Decidable (_ ∧ _))

theorem normalised_iff (hx : worth? x = some v) : Normalised x ↔ -180 < v ∧ v ≤ 180 := by
  obtain ⟨-, h180, hneg, -⟩ := worth?_degrees
  exact and_congr (lt_iff_worth hneg hx) (le_iff_worth hx h180)

theorem half_turn_lt {e : ℤ} (h : 8 ≤ e) : (180 : ℚ) < 2 ^ e :=
  (by norm_num : (180 : ℚ) < 2 ^ (8 : ℤ)).trans_le (zpow_le_zpow_right₀ one_le_two h)

-- Whole turns are exact where they are made.
theorem worth?_turned {y : Float} {k : ℤ} (hx : worth? x = some v) (hv : 128 ≤ |v|)
    (hy : Rounds (v + 360 * k) y) (hr : |v + 360 * k| ≤ 180) : worth? y = some (v + 360 * k) := by
  refine hy.exact ?_ (hr.trans_lt (half_turn_lt (by norm_num)))
  obtain ⟨n, rfl⟩ := (multiple_or_small hx (-45)).resolve_right fun h =>
    hv.not_gt (h.trans_eq (by norm_num))
  have hunit : (2 : ℚ) ^ (-45 : ℤ) * 2 ^ 45 = 1 := by norm_num
  have hsum : (n * 2 ^ (-45 : ℤ) + 360 * k : ℚ) = (n + 360 * 2 ^ 45 * k : ℤ) * 2 ^ (-45 : ℤ) := by
    push_cast
    linear_combination (-360 * k) * hunit
  rw [hsum] at hr ⊢
  refine ⟨_, -45, by norm_num, ?_, rfl⟩
  generalize n + 360 * 2 ^ 45 * k = m at hr ⊢
  rw [abs_mul, abs_of_pos (show (0 : ℚ) < 2 ^ (-45 : ℤ) by positivity)] at hr
  have hm : (|m| : ℚ) < 2 ^ 53 := by
    by_contra hge
    have : (2 : ℚ) ^ 53 * 2 ^ (-45 : ℤ) ≤ |(m : ℚ)| * 2 ^ (-45 : ℤ) := by
      gcongr
      exact not_lt.1 hge
    norm_num at this hr
    linarith
  exact_mod_cast hm

-- A number is brought into range by whole turns, and without rounding.
theorem worth?_heading (hx : worth? x = some v) : ∃ k : ℤ, worth? (heading x) = some (v + 360 * k) ∧
    -180 < v + 360 * k ∧ v + 360 * k ≤ 180 := by
  obtain ⟨h360, h180, hneg, -⟩ := worth?_degrees
  obtain ⟨r, hr, habs, k, hk⟩ := worth?_remainder hx h360 (by norm_num)
  rw [abs_of_pos (by norm_num : (0 : ℚ) < 360), abs_lt] at habs
  have hlt : remainder x 360.0 > 180.0 ↔ 180 < r := lt_iff_worth h180 hr
  have hle : remainder x 360.0 ≤ -180.0 ↔ r ≤ -180 := le_iff_worth hr hneg
  have hrest (j : ℤ) : v + 360 * (j - k : ℤ) = r + 360 * j := by
    rw [hk]
    push_cast
    ring
  have hdown : Rounds (r + 360 * (-1 : ℤ)) (remainder x 360.0 - 360.0) := by
    rw [show r + 360 * (-1 : ℤ) = r - 360 by push_cast; ring]
    exact rounds_sub hr h360
  have hup : Rounds (r + 360 * (1 : ℤ)) (remainder x 360.0 + 360.0) := by
    rw [Int.cast_one, mul_one]
    exact rounds_add hr h360
  unfold heading
  dsimp only
  split
  · rename_i h
    have h := hlt.1 h
    have hbounds : -180 < r + 360 * (-1 : ℤ) ∧ r + 360 * (-1 : ℤ) ≤ 180 := by
      constructor <;> push_cast <;> linarith
    refine ⟨-1 - k, ?_⟩
    rw [hrest]
    exact ⟨worth?_turned hr (le_abs.2 (.inl (by linarith))) hdown
      (abs_le.2 ⟨hbounds.1.le, hbounds.2⟩), hbounds⟩
  · rename_i h
    have h := not_lt.1 (mt hlt.2 h)
    split
    · rename_i h'
      have h' := hle.1 h'
      have hbounds : -180 < r + 360 * (1 : ℤ) ∧ r + 360 * (1 : ℤ) ≤ 180 := by
        constructor <;> push_cast <;> linarith
      refine ⟨1 - k, ?_⟩
      rw [hrest]
      exact ⟨worth?_turned hr (le_abs.2 (.inr (by linarith))) hup
        (abs_le.2 ⟨hbounds.1.le, hbounds.2⟩), hbounds⟩
    · rename_i h'
      have h' := not_le.1 (mt hle.2 h')
      refine ⟨0 - k, ?_⟩
      rw [hrest, Int.cast_zero, mul_zero, add_zero]
      exact ⟨hr, h', h⟩

theorem heading_normalised (hx : x.isFinite = true) : Normalised (heading x) := by
  obtain ⟨v, hv⟩ := isFinite_iff.1 hx
  obtain ⟨k, hk, hrange⟩ := worth?_heading hv
  exact (normalised_iff hk).2 hrange

-- Anything else becomes no direction at all.
theorem heading_isNaN (hx : x.isFinite = false) : (heading x).isNaN = true := by
  have hnone : ofFloat? x = none := by
    rw [isFinite_eq] at hx
    exact Option.isNone_iff_eq_none.1 (Option.isSome_eq_false_iff.1 hx)
  have hrest : remainder x 360.0 = 0.0 / 0.0 := by
    unfold remainder
    rw [hnone]
  have hnan : (0.0 / 0.0 : Float).isNaN = true := by decide +kernel
  unfold heading
  dsimp only
  rw [hrest, if_neg, if_neg]
  · exact hnan
  · exact fun h => Bool.noConfusion (hnan.symm.trans (float_le_iff.1 h).1)
  · exact fun h => Bool.noConfusion (hnan.symm.trans (float_lt_iff.1 h).2.1)

theorem Normalised.worth? {d : Float} (h : Normalised d) :
    ∃ v, SpriteStage.worth? d = some v ∧ -180 < v ∧ v ≤ 180 := by
  obtain ⟨-, h180, hneg, -⟩ := worth?_degrees
  obtain ⟨hn, hd, hlt⟩ := float_lt_iff.1 h.1
  obtain ⟨v, hv⟩ := worth?_between hneg h180 (float_le_iff.2 ⟨hn, hd, hlt.le⟩) h.2
  exact ⟨v, hv, (normalised_iff hv).1 h⟩

-- Half a turn more or less does not leave the range of doubles.
theorem Normalised.isFinite_add {d : Float} (hd : Normalised d) (hx : x.isFinite = true) :
    (d + x).isFinite = true := by
  obtain ⟨v, hv, hlow, hhigh⟩ := hd.worth?
  obtain ⟨w, hw⟩ := isFinite_iff.1 hx
  have hsmall : |v| < 2 ^ (970 : ℤ) :=
    (abs_le.2 ⟨hlow.le, hhigh⟩).trans_lt (half_turn_lt (by norm_num))
  have hunit : (2 : ℚ) ^ (971 : ℤ) = 2 ^ (970 : ℤ) * 2 := zpow_add_one₀ two_ne_zero 970
  refine isFinite_iff.2 ((rounds_add hv hw).isSome ?_)
  calc |v + w| ≤ |v| + |w| := abs_add_le v w
    _ < 2 ^ (970 : ℤ) + (2 ^ (1024 : ℤ) - 2 ^ (971 : ℤ)) :=
      add_lt_add_of_lt_of_le hsmall (abs_worth_le hw)
    _ = 2 ^ (1024 : ℤ) - 2 ^ (970 : ℤ) := by rw [hunit]; ring

-- A sum with a part that is not finite is not finite.
theorem add_of_not_finite {u v : UnpackedFloat} (h : u.isFinite = false ∨ v.isFinite = false) :
    UnpackedFloat.add .binary64 u v = .notANumber ∨
      ∃ s, UnpackedFloat.add .binary64 u v = .infinity s := by
  rcases u with s | _ | s | ⟨s, m, e, hm⟩ <;> rcases v with s' | _ | s' | ⟨s', m', e', hm'⟩ <;>
    first
      | exact .inl rfl
      | exact .inr ⟨_, rfl⟩
      | exact h.elim Bool.noConfusion Bool.noConfusion
      | (cases s <;> cases s' <;> first | exact .inl rfl | exact .inr ⟨_, rfl⟩)

theorem isFinite_add {d : Float} (h : d.isFinite = false ∨ x.isFinite = false) :
    (d + x).isFinite = false := by
  have hsum : d + x =
      ⟨Float.Model.pack (UnpackedFloat.add .binary64 d.toModel.unpack x.toModel.unpack)⟩ := rfl
  rw [hsum]
  rcases add_of_not_finite (u := d.toModel.unpack) (v := x.toModel.unpack) h with he | ⟨s, he⟩
  · rw [he]
    rfl
  · rw [he]
    cases s <;> rfl

theorem normalised_heading_iff : Normalised (heading x) ↔ x.isFinite = true := by
  refine ⟨fun h => ?_, heading_normalised⟩
  by_contra hx
  have hnan := heading_isNaN (Bool.eq_false_iff.2 hx)
  rw [(float_lt_iff.1 h.1).2.1] at hnan
  cases hnan

end Heading

end SpriteStage

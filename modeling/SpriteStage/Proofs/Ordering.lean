import Mathlib.Data.Prod.Lex
import Mathlib.Order.Compare
import SpriteStage.Geometry

namespace SpriteStage

open Float.Model

section Rank

-- Where a number stands among all numbers: the sign first, then the exponent, then the mantissa.
def rank : UnpackedFloat → ℤ ×ₗ ℤ ×ₗ ℤ
  | .infinity .negative => toLex (-2, toLex (0, 0))
  | .finite .negative mantissa exponent _ => toLex (-1, toLex (-exponent, -mantissa))
  | .zero _ | .notANumber => toLex (0, toLex (0, 0))
  | .finite .positive mantissa exponent _ => toLex (1, toLex (exponent, mantissa))
  | .infinity .positive => toLex (2, toLex (0, 0))

structure Ranks (a b : UnpackedFloat) (o : Ordering) : Prop where
  lt : o = .lt ↔ rank a < rank b
  gt : o = .gt ↔ rank b < rank a

theorem then_compare (e e' : ℤ) (m m' : ℕ) :
    ((compare e e').then (compare m m') = .lt ↔ e < e' ∨ e = e' ∧ m < m') ∧
      ((compare e e').then (compare m m') = .gt ↔ e' < e ∨ e' = e ∧ m' < m) := by
  rw [Ordering.then_eq_lt, Ordering.then_eq_gt, Int.compare_eq_lt, Int.compare_eq_gt,
    Int.compare_eq_eq, Nat.compare_eq_lt, Nat.compare_eq_gt, eq_comm (a := e)]
  exact ⟨Iff.rfl, Iff.rfl⟩

theorem Ranks.swap {a b : UnpackedFloat} {o : Ordering} (h : Ranks a b o) : Ranks b a o.swap :=
  ⟨by rw [Ordering.swap_eq_lt]; exact h.gt, by rw [Ordering.swap_eq_gt]; exact h.lt⟩

theorem ranks_of_lt {a b : UnpackedFloat} (h : rank a < rank b) : Ranks a b .lt :=
  ⟨iff_of_true rfl h, iff_of_false nofun (lt_asymm h)⟩

theorem ranks_of_gt {a b : UnpackedFloat} (h : rank b < rank a) : Ranks a b .gt :=
  (ranks_of_lt h).swap

theorem ranks_of_eq {a b : UnpackedFloat} (h : rank a = rank b) : Ranks a b .eq :=
  ⟨iff_of_false nofun (h ▸ lt_irrefl _), iff_of_false nofun (h ▸ lt_irrefl _)⟩

theorem rank_lt_of_sign {a b : UnpackedFloat} (h : (ofLex (rank a)).1 < (ofLex (rank b)).1) :
    rank a < rank b :=
  Prod.Lex.toLex_lt_toLex.2 (.inl h)

theorem ranks_positive (m m' : ℕ) (e e' : ℤ) (h h') :
    Ranks (.finite .positive m e h) (.finite .positive m' e' h')
      ((compare e e').then (compare m m')) := by
  obtain ⟨below, above⟩ := then_compare e e' m m'
  have hrank (m e h) : rank (.finite .positive m e h) = toLex (1, toLex (e, (m : ℤ))) := rfl
  constructor <;> rw [hrank, hrank] <;> simp [Prod.Lex.toLex_lt_toLex, below, above]

theorem ranks_negative (m m' : ℕ) (e e' : ℤ) (h h') :
    Ranks (.finite .negative m e h) (.finite .negative m' e' h')
      ((compare e e').then (compare m m')).swap := by
  obtain ⟨below, above⟩ := then_compare e e' m m'
  have hrank (m e h) : rank (.finite .negative m e h) = toLex (-1, toLex (-e, -(m : ℤ))) := rfl
  constructor <;> rw [hrank, hrank]
  · simp [Prod.Lex.toLex_lt_toLex, Ordering.swap_eq_lt, above, @eq_comm _ e']
  · simp [Prod.Lex.toLex_lt_toLex, Ordering.swap_eq_gt, below, @eq_comm _ e']

-- One case for each row of the table of comparisons.
theorem ranks_compare {a b : UnpackedFloat} (ha : a.isNaN = false) (hb : b.isNaN = false) :
    ∃ o, a.compare b = some o ∧ Ranks a b o := by
  rcases a with (_ | _) | _ | _ | ⟨_ | _, m, e, h⟩ <;>
    rcases b with (_ | _) | _ | _ | ⟨_ | _, m', e', h'⟩ <;>
    first
      | exact Bool.noConfusion ha
      | exact Bool.noConfusion hb
      | exact ⟨_, rfl, ranks_negative m m' e e' h h'⟩
      | exact ⟨_, rfl, ranks_positive m m' e e' h h'⟩
      | exact ⟨_, rfl, ranks_of_eq rfl⟩
      | exact ⟨_, rfl, ranks_of_lt (rank_lt_of_sign (of_decide_eq_true rfl))⟩
      | exact ⟨_, rfl, ranks_of_gt (rank_lt_of_sign (of_decide_eq_true rfl))⟩

end Rank

def height (x : Float) : ℤ ×ₗ ℤ ×ₗ ℤ := rank x.toModel.unpack

theorem compare_isNaN {a b : UnpackedFloat} (h : a.isNaN = true ∨ b.isNaN = true) :
    a.compare b = none := by
  rcases h with h | h
  · cases a with
    | notANumber => rfl
    | _ => cases h
  · cases b with
    | notANumber => cases a <;> rfl
    | _ => cases h

-- Numbers are ordered by their heights, and nothing else is below or above anything.
theorem float_compare (a b : Float) :
    (a.toModel.unpack.compare b.toModel.unpack = none ∧ (a.isNaN = true ∨ b.isNaN = true)) ∨
      ∃ o, a.toModel.unpack.compare b.toModel.unpack = some o ∧ a.isNaN = false ∧ b.isNaN = false ∧
        Ranks a.toModel.unpack b.toModel.unpack o := by
  by_cases h : a.isNaN = true ∨ b.isNaN = true
  · exact .inl ⟨compare_isNaN h, h⟩
  · obtain ⟨ha, hb⟩ := not_or.1 h
    obtain ⟨o, ho, hr⟩ := ranks_compare (Bool.eq_false_iff.2 ha) (Bool.eq_false_iff.2 hb)
    exact .inr ⟨o, ho, Bool.eq_false_iff.2 ha, Bool.eq_false_iff.2 hb, hr⟩

theorem float_lt_iff {a b : Float} :
    a < b ↔ a.isNaN = false ∧ b.isNaN = false ∧ height a < height b := by
  have hlt : a < b ↔ a.toModel.unpack.compare b.toModel.unpack = some .lt :=
    decide_eq_true_iff.trans beq_iff_eq
  rw [hlt]
  rcases float_compare a b with ⟨hn, hnan⟩ | ⟨o, ho, ha, hb, hr⟩
  · rw [hn]
    refine iff_of_false nofun ?_
    rintro ⟨ha, hb, -⟩
    rw [ha, hb] at hnan
    exact hnan.elim Bool.false_ne_true Bool.false_ne_true
  · rw [ho, Option.some.injEq, hr.lt]
    exact ⟨fun h => ⟨ha, hb, h⟩, fun h => h.2.2⟩

theorem float_le_iff {a b : Float} :
    a ≤ b ↔ a.isNaN = false ∧ b.isNaN = false ∧ height a ≤ height b := by
  have hle : a ≤ b ↔ (a.toModel.unpack.compare b.toModel.unpack).any (·.isLE) = true :=
    decide_eq_true_iff
  rw [hle]
  rcases float_compare a b with ⟨hn, hnan⟩ | ⟨o, ho, ha, hb, hr⟩
  · rw [hn]
    refine iff_of_false nofun ?_
    rintro ⟨ha, hb, -⟩
    rw [ha, hb] at hnan
    exact hnan.elim Bool.false_ne_true Bool.false_ne_true
  · have hgt : o.isLE = true ↔ height a ≤ height b := by
      rw [← not_lt]
      refine Iff.trans ?_ (not_congr hr.gt)
      cases o <;> decide
    rw [ho, Option.any_some, hgt]
    exact ⟨fun h => ⟨ha, hb, h⟩, fun h => h.2.2⟩

theorem float_max {a b : Float} (ha : a.isNaN = false) (hb : b.isNaN = false) :
    (max a b).isNaN = false ∧ height (max a b) = max (height a) (height b) := by
  have hmax : max a b = if a ≤ b then b else a := rfl
  rw [hmax]
  split
  · rename_i h
    exact ⟨hb, (max_eq_right (float_le_iff.1 h).2.2).symm⟩
  · rename_i h
    refine ⟨ha, (max_eq_left (le_of_not_ge fun hab => h ?_)).symm⟩
    exact float_le_iff.2 ⟨ha, hb, hab⟩

theorem float_min {a b : Float} (ha : a.isNaN = false) (hb : b.isNaN = false) :
    (min a b).isNaN = false ∧ height (min a b) = min (height a) (height b) := by
  have hmin : min a b = if a ≤ b then a else b := rfl
  rw [hmin]
  split
  · rename_i h
    exact ⟨ha, (min_eq_left (float_le_iff.1 h).2.2).symm⟩
  · rename_i h
    refine ⟨hb, (min_eq_right (le_of_not_ge fun hab => h ?_)).symm⟩
    exact float_le_iff.2 ⟨ha, hb, hab⟩

end SpriteStage

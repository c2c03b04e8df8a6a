import Mathlib
import SpriteStage.Number.Binary64
import SpriteStage.Proofs.Ordering

namespace SpriteStage

namespace Binary64

open Float.Model Float.Model.UnpackedFloat

def isNegative : Sign → Bool
  | .negative => true
  | .positive => false

def ofUnpacked? : UnpackedFloat → Option Binary64
  | .finite sign mantissa exponent _ => some ⟨isNegative sign, mantissa, exponent⟩
  | .zero sign => some ⟨isNegative sign, 0, -1074⟩
  | .infinity _ | .notANumber => none

-- The three fields of a double; the lowest exponent stands for a number without its leading bit.
def ofFields? (negative : Bool) (exponent fraction : ℕ) : Option Binary64 :=
  if exponent = 2047 then none
  else if exponent = 0 then some ⟨negative, fraction, -1074⟩
  else some ⟨negative, 2 ^ 52 + fraction, (exponent : ℤ) - 1075⟩

theorem ofBits?_eq (word : ℕ) : ofBits? word =
    ofFields? (decide (word / 2 ^ 63 % 2 = 1)) (word / 2 ^ 52 % 2 ^ 11) (word % 2 ^ 52) := rfl

theorem ofUnpacked?_unpack (v : BitVec 64) :
    ofUnpacked? (UnpackedFloat.unpack Format.binary64 v) =
      ofFields? (isNegative (.ofBitVec (@unpackSign Format.binary64 v)))
        (@unpackExponent Format.binary64 v).toNat
        (@unpackMantissa Format.binary64 v).toNat := by
  have hinf : @unpackExponent Format.binary64 v = -1#11 ↔
      (@unpackExponent Format.binary64 v).toNat = 2047 := BitVec.toNat_inj.symm
  have hmin : @unpackExponent Format.binary64 v = 0#11 ↔
      (@unpackExponent Format.binary64 v).toNat = 0 := BitVec.toNat_inj.symm
  have hfull : (1#1 ++ @unpackMantissa Format.binary64 v).toNat =
      2 ^ 52 + (@unpackMantissa Format.binary64 v).toNat := by
    rw [BitVec.toNat_append]
    exact (Nat.shiftLeft_add_eq_or_of_lt (BitVec.isLt _) _).symm
  unfold UnpackedFloat.unpack ofFields?
  simp only [hinf, hmin, hfull]
  split
  · split <;> rfl
  · split
    · rename_i he
      rw [he]
      split
      · rename_i hm
        rw [hm]
        rfl
      · rfl
    · rfl

section Fields

variable (v : BitVec 64)

theorem toNat_unpackExponent :
    (@unpackExponent Format.binary64 v).toNat = v.toNat / 2 ^ 52 % 2 ^ 11 := by
  rw [unpackExponent_def, BitVec.extractLsb'_toNat, Nat.shiftRight_eq_div_pow]

theorem toNat_unpackMantissa :
    (@unpackMantissa Format.binary64 v).toNat = v.toNat % 2 ^ 52 := by
  rw [unpackMantissa_def, BitVec.extractLsb'_toNat, Nat.shiftRight_zero]

theorem isNegative_unpackSign :
    isNegative (.ofBitVec (@unpackSign Format.binary64 v)) =
      decide (v.toNat / 2 ^ 63 % 2 = 1) := by
  have hs : (@unpackSign Format.binary64 v).toNat = v.toNat / 2 ^ 63 % 2 := by
    rw [unpackSign_def, BitVec.extractLsb'_toNat, Nat.shiftRight_eq_div_pow]
    rfl
  rw [← hs]
  have hb := (@unpackSign Format.binary64 v).isLt
  generalize @unpackSign Format.binary64 v = b at hb ⊢
  rcases (by omega : b.toNat = 0 ∨ b.toNat = 1) with h | h
  · obtain rfl : b = 0#1 := BitVec.eq_of_toNat_eq h
    rfl
  · obtain rfl : b = 1#1 := BitVec.eq_of_toNat_eq h
    rfl

theorem ofBits?_toNat :
    ofBits? v.toNat = ofUnpacked? (UnpackedFloat.unpack Format.binary64 v) := by
  rw [ofUnpacked?_unpack, ofBits?_eq, isNegative_unpackSign, toNat_unpackExponent,
    toNat_unpackMantissa]

theorem ofFloat?_eq (x : Float) : ofFloat? x = ofUnpacked? x.toModel.unpack := ofBits?_toNat _

theorem isFinite_eq (x : Float) : x.isFinite = (ofFloat? x).isSome := by
  rw [ofFloat?_eq]
  show x.toModel.unpack.isFinite = _
  cases x.toModel.unpack <;> rfl

end Fields

-- How a double is taken apart: its significand is full, or its exponent is the lowest.
structure Canonical (b : Binary64) : Prop where
  small : b.mantissa < 2 ^ 53
  lowest : -1074 ≤ b.exponent
  full : 2 ^ 52 ≤ b.mantissa ∨ b.exponent = -1074

theorem canonical_of_ofBits? {word : ℕ} {b : Binary64} (h : ofBits? word = some b) :
    b.Canonical ∧ b.exponent ≤ 971 := by
  have hf : word / 2 ^ 52 % 2 ^ 11 < 2 ^ 11 := Nat.mod_lt _ (by decide)
  have hm : word % 2 ^ 52 < 2 ^ 52 := Nat.mod_lt _ (by decide)
  rw [ofBits?_eq, ofFields?] at h
  split at h
  · cases h
  · rename_i hinf
    split at h <;> cases h
    · exact ⟨⟨by dsimp only; omega, le_rfl, .inr rfl⟩, by dsimp only; omega⟩
    · refine ⟨⟨?_, ?_, .inl (Nat.le_add_right _ _)⟩, ?_⟩ <;> dsimp only <;> omega

theorem canonical_of_ofFloat? {x : Float} {b : Binary64} (h : ofFloat? x = some b) :
    b.Canonical ∧ b.exponent ≤ 971 := canonical_of_ofBits? h

theorem ofUnpacked?_packComponents (s : Sign) (e : BitVec 11) (m : BitVec 52) :
    ofUnpacked? (UnpackedFloat.unpack Format.binary64 (packComponents Format.binary64 s e m)) =
      ofFields? (isNegative s) e.toNat m.toNat := by
  have hs : isNegative (Sign.ofBitVec s.toBitVec) = isNegative s := by cases s <;> rfl
  rw [ofUnpacked?_unpack, unpackExponent_packComponents, unpackMantissa_packComponents,
    unpackSign_packComponents, hs]

theorem ofFloat?_ofModel (f : UnpackedFloat) : ofFloat? ⟨Float.Model.pack f⟩ =
    ofUnpacked? (UnpackedFloat.unpack Format.binary64 (UnpackedFloat.pack Format.binary64 f)) :=
  ofFloat?_eq _

-- Numbers beyond the range become infinite; the others are stored as they are.
theorem ofFloat?_pack {s : Sign} {m : ℕ} {e : ℤ} (hm : 0 < m)
    (hc : (Binary64.mk (isNegative s) m e).Canonical) :
    ofFloat? ⟨Float.Model.pack (.finite s m e hm)⟩ =
      if e ≤ 971 then some ⟨isNegative s, m, e⟩ else none := by
  obtain ⟨hsmall, hlow, hfull⟩ := hc
  dsimp only at hsmall hlow hfull
  have hbias : e + Format.binary64.exponentBias + (52 : ℕ) = e + 1075 := Int.add_assoc e 1023 52
  have hlog : m.log2 + 1 = Format.binary64.mantissaBits ↔ 2 ^ 52 ≤ m := by
    show m.log2 + 1 = 53 ↔ 2 ^ 52 ≤ m
    have hlt : m.log2 < 53 := (Nat.log2_lt hm.ne').2 hsmall
    have hle : 52 ≤ m.log2 ↔ 2 ^ 52 ≤ m := Nat.le_log2 hm.ne'
    omega
  rw [ofFloat?_ofModel]
  unfold UnpackedFloat.pack
  simp only [hbias]
  by_cases hbig : 971 < e
  · rw [if_pos (show 2 ^ 11 ≤ (e + 1075).toNat + 1 by omega), if_neg (show ¬ e ≤ 971 by omega)]
    exact ofUnpacked?_packComponents s (-1#11) 0
  · rw [if_neg (show ¬ 2 ^ 11 ≤ (e + 1075).toNat + 1 by omega), if_pos (show e ≤ 971 by omega)]
    by_cases hn : 2 ^ 52 ≤ m
    · rw [if_pos (hlog.2 hn), ofUnpacked?_packComponents, ofFields?, BitVec.toNat_ofNat,
        BitVec.toNat_ofNat, if_neg (by omega), if_neg (by omega)]
      congr 2 <;> omega
    · rw [if_neg (mt hlog.1 hn), ofUnpacked?_packComponents, ofFields?, BitVec.toNat_ofNat,
        BitVec.toNat_ofNat, if_neg (by decide), if_pos rfl]
      congr 2 <;> omega

theorem pow_mul_zpow (k : ℕ) (e : ℤ) : (2 : ℚ) ^ k * 2 ^ e = 2 ^ ((k : ℤ) + e) := by
  rw [zpow_add₀ two_ne_zero, zpow_natCast]

-- The number that a double stands for.
def worth (b : Binary64) : ℚ := (if b.negative then -1 else 1) * (b.mantissa * 2 ^ b.exponent)

theorem worth_positive (m : ℕ) (e : ℤ) : worth ⟨false, m, e⟩ = m * 2 ^ e := one_mul _

theorem worth_negative (m : ℕ) (e : ℤ) : worth ⟨true, m, e⟩ = -(m * 2 ^ e) := neg_one_mul _

theorem worth_zero (n : Bool) (e : ℤ) : worth ⟨n, 0, e⟩ = 0 := by simp [worth]

theorem abs_worth (b : Binary64) : |b.worth| = b.mantissa * 2 ^ b.exponent := by
  have hpos : (0 : ℚ) ≤ b.mantissa * 2 ^ b.exponent := by positivity
  unfold worth
  split
  · rw [neg_one_mul, abs_neg, abs_of_nonneg hpos]
  · rw [one_mul, abs_of_nonneg hpos]

-- Of two doubles the one with the greater exponent is the greater one: its significand is full.
theorem Canonical.magnitude_lt {m m' : ℕ} {e e' : ℤ} {n n' : Bool} (h : Canonical ⟨n, m, e⟩)
    (h' : Canonical ⟨n', m', e'⟩) (hlt : e < e' ∨ e = e' ∧ m < m') :
    (m * 2 ^ e : ℚ) < m' * 2 ^ e' := by
  rcases hlt with hlt | ⟨rfl, hlt⟩
  · have hfull : 2 ^ 52 ≤ m' := h'.full.resolve_right (h.lowest.trans_lt hlt).ne'
    calc (m * 2 ^ e : ℚ) < 2 ^ 53 * 2 ^ e := by
          have hm : (m : ℚ) < 2 ^ 53 := by exact_mod_cast h.small
          gcongr
      _ = 2 ^ 52 * 2 ^ (e + 1) := by rw [zpow_add_one₀ two_ne_zero]; ring
      _ ≤ m' * 2 ^ e' := by
          have hm' : (2 ^ 52 : ℚ) ≤ m' := by exact_mod_cast hfull
          gcongr
          · norm_num
          · omega
  · have hm : (m : ℚ) < m' := by exact_mod_cast hlt
    gcongr

-- A double is in range just when its exponent is.
theorem Canonical.exponent_le_iff {b : Binary64} (h : b.Canonical) :
    b.exponent ≤ 971 ↔ |b.worth| < 2 ^ (1024 : ℤ) := by
  rw [abs_worth]
  constructor
  · intro he
    have hm : (b.mantissa : ℚ) < 2 ^ 53 := by exact_mod_cast h.small
    calc (b.mantissa * 2 ^ b.exponent : ℚ) < 2 ^ 53 * 2 ^ b.exponent := by gcongr
      _ ≤ 2 ^ 53 * 2 ^ (971 : ℤ) := by gcongr; norm_num
      _ = 2 ^ (1024 : ℤ) := pow_mul_zpow 53 971
  · intro hlt
    by_contra he
    have hfull : 2 ^ 52 ≤ b.mantissa := h.full.resolve_right (by omega)
    have hm : (2 ^ 52 : ℚ) ≤ b.mantissa := by exact_mod_cast hfull
    refine hlt.not_ge ?_
    calc (2 : ℚ) ^ (1024 : ℤ) = 2 ^ 52 * 2 ^ (972 : ℤ) := (pow_mul_zpow 52 972).symm
      _ ≤ b.mantissa * 2 ^ b.exponent := by
        gcongr
        · norm_num
        · omega

-- Heights and numbers run in the same order.
theorem worth_lt_of_rank {u v : UnpackedFloat} {a b : Binary64} (ha : ofUnpacked? u = some a)
    (hb : ofUnpacked? v = some b) (ca : a.Canonical) (cb : b.Canonical) (h : rank u < rank v) :
    a.worth < b.worth := by
  have pos (m : ℕ) (e : ℤ) (hm : 0 < m) : (0 : ℚ) < m * 2 ^ e := by positivity
  rcases u with _ | _ | s | ⟨s, m, e, hm⟩ <;> cases ha <;>
    rcases v with _ | _ | s' | ⟨s', m', e', hm'⟩ <;> cases hb
  · exact absurd h (lt_irrefl _)
  · cases s' with
    | positive => simpa [isNegative, worth_zero, worth_positive] using pos m' e' hm'
    | negative => simp [rank, Prod.Lex.toLex_lt_toLex] at h
  · cases s with
    | positive => simp [rank, Prod.Lex.toLex_lt_toLex] at h
    | negative => simpa [isNegative, worth_zero, worth_negative] using pos m e hm
  · cases s <;> cases s' <;>
      simp only [rank, Prod.Lex.toLex_lt_toLex, isNegative, worth_positive, worth_negative] at h ⊢
    · refine neg_lt_neg (cb.magnitude_lt ca ?_)
      omega
    · exact (neg_neg_of_pos (pos m e hm)).trans (pos m' e' hm')
    · omega
    · refine ca.magnitude_lt cb ?_
      omega

theorem worth_eq_of_rank {u v : UnpackedFloat} {a b : Binary64} (ha : ofUnpacked? u = some a)
    (hb : ofUnpacked? v = some b) (h : rank u = rank v) : a.worth = b.worth := by
  rcases u with _ | _ | s | ⟨s, m, e, hm⟩ <;> cases ha <;>
    rcases v with _ | _ | s' | ⟨s', m', e', hm'⟩ <;> cases hb
  · rw [worth_zero, worth_zero]
  · cases s' <;> simp [rank] at h
  · cases s <;> simp [rank] at h
  · cases s <;> cases s' <;> simp [rank] at h <;> obtain ⟨rfl, rfl⟩ := h <;> rfl

theorem rank_lt_iff {u v : UnpackedFloat} {a b : Binary64} (ha : ofUnpacked? u = some a)
    (hb : ofUnpacked? v = some b) (ca : a.Canonical) (cb : b.Canonical) :
    rank u < rank v ↔ a.worth < b.worth := by
  refine ⟨worth_lt_of_rank ha hb ca cb, fun h => ?_⟩
  rcases lt_trichotomy (rank u) (rank v) with hlt | heq | hgt
  · exact hlt
  · exact absurd (worth_eq_of_rank ha hb heq) h.ne
  · exact absurd (worth_lt_of_rank hb ha cb ca hgt) h.not_gt

end Binary64

open Binary64

-- The number that a float is, if it is a finite one.
def worth? (x : Float) : Option ℚ := (ofFloat? x).map Binary64.worth

theorem worth?_eq_some {x : Float} {v : ℚ} (h : worth? x = some v) :
    ∃ b, ofFloat? x = some b ∧ b.Canonical ∧ b.exponent ≤ 971 ∧ b.worth = v := by
  obtain ⟨b, hb, hv⟩ := Option.map_eq_some_iff.1 h
  obtain ⟨hc, he⟩ := canonical_of_ofFloat? hb
  exact ⟨b, hb, hc, he, hv⟩

theorem worth?_of_ofFloat? {x : Float} {b : Binary64} {v : ℚ} (h : ofFloat? x = some b)
    (hv : b.worth = v) : worth? x = some v := by
  rw [worth?, h, Option.map_some, hv]

theorem worth?_isSome (x : Float) : (worth? x).isSome = x.isFinite := by
  rw [isFinite_eq, worth?, Option.isSome_map]

theorem isFinite_iff {x : Float} : x.isFinite = true ↔ ∃ v, worth? x = some v := by
  rw [← worth?_isSome, Option.isSome_iff_exists]

theorem isNaN_of_worth? {x : Float} {v : ℚ} (h : worth? x = some v) : x.isNaN = false := by
  obtain ⟨b, hb, -⟩ := worth?_eq_some h
  rw [ofFloat?_eq] at hb
  show x.toModel.unpack.isNaN = false
  cases hu : x.toModel.unpack with
  | notANumber => rw [hu] at hb; cases hb
  | _ => rfl

section Order

variable {x y : Float} {v w : ℚ}

theorem lt_iff_worth (hx : worth? x = some v) (hy : worth? y = some w) : x < y ↔ v < w := by
  have hnx := isNaN_of_worth? hx
  have hny := isNaN_of_worth? hy
  obtain ⟨a, ha, ca, -, rfl⟩ := worth?_eq_some hx
  obtain ⟨b, hb, cb, -, rfl⟩ := worth?_eq_some hy
  rw [ofFloat?_eq] at ha hb
  rw [float_lt_iff, ← rank_lt_iff ha hb ca cb]
  exact ⟨fun h => h.2.2, fun h => ⟨hnx, hny, h⟩⟩

theorem le_iff_worth (hx : worth? x = some v) (hy : worth? y = some w) : x ≤ y ↔ v ≤ w := by
  have hlt : height y < height x ↔ w < v := by
    have := lt_iff_worth hy hx
    rw [float_lt_iff] at this
    rw [← this]
    exact ⟨fun h => ⟨isNaN_of_worth? hy, isNaN_of_worth? hx, h⟩, fun h => h.2.2⟩
  rw [float_le_iff, ← not_lt, hlt, not_lt]
  exact ⟨fun h => h.2.2, fun h => ⟨isNaN_of_worth? hx, isNaN_of_worth? hy, h⟩⟩

-- What lies between two finite numbers is one.
theorem worth?_between {lo hi : Float} {a b : ℚ} (ha : worth? lo = some a) (hb : worth? hi = some b)
    (hlo : lo ≤ x) (hhi : x ≤ hi) : ∃ v, worth? x = some v := by
  have hfirst {y : Float} {c : ℚ} (hc : worth? y = some c) :
      -1 ≤ (ofLex (height y)).1 ∧ (ofLex (height y)).1 ≤ 1 := by
    obtain ⟨d, hd, -⟩ := worth?_eq_some hc
    rw [ofFloat?_eq] at hd
    unfold height
    cases hu : y.toModel.unpack with
    | infinity s => rw [hu] at hd; cases hd
    | notANumber => rw [hu] at hd; cases hd
    | zero s => exact (by decide : (-1 : ℤ) ≤ 0 ∧ (0 : ℤ) ≤ 1)
    | finite s m e hm =>
      cases s
      · exact (by decide : (-1 : ℤ) ≤ -1 ∧ (-1 : ℤ) ≤ 1)
      · exact (by decide : (-1 : ℤ) ≤ 1 ∧ (1 : ℤ) ≤ 1)
  obtain ⟨-, hnan, hlo⟩ := float_le_iff.1 hlo
  obtain ⟨-, -, hhi⟩ := float_le_iff.1 hhi
  have hbelow := (hfirst ha).1.trans (Prod.Lex.monotone_fst _ _ hlo)
  have habove := (Prod.Lex.monotone_fst _ _ hhi).trans (hfirst hb).2
  rw [← isFinite_iff]
  show x.toModel.unpack.isFinite = true
  have hnan : x.toModel.unpack.isNaN = false := hnan
  unfold height at hbelow habove
  cases hu : x.toModel.unpack with
  | infinity s =>
    rw [hu] at hbelow habove
    cases s
    · exact absurd hbelow (by decide)
    · exact absurd habove (by decide)
  | notANumber =>
    rw [hu] at hnan
    cases hnan
  | _ => rfl

theorem abs_worth_le (hx : worth? x = some v) : |v| ≤ 2 ^ (1024 : ℤ) - 2 ^ (971 : ℤ) := by
  obtain ⟨b, -, hc, he, rfl⟩ := worth?_eq_some hx
  have hm : (b.mantissa : ℚ) ≤ 2 ^ 53 - 1 := by
    have := hc.small
    have : b.mantissa + 1 ≤ 2 ^ 53 := this
    have : (b.mantissa + 1 : ℚ) ≤ 2 ^ 53 := by exact_mod_cast this
    linarith
  calc |b.worth| = b.mantissa * 2 ^ b.exponent := abs_worth b
    _ ≤ (2 ^ 53 - 1) * 2 ^ (971 : ℤ) := by
      gcongr
      · norm_num
    _ = 2 ^ (1024 : ℤ) - 2 ^ (971 : ℤ) := by rw [sub_mul, one_mul, pow_mul_zpow]; rfl

-- Below a size that goes with a unit, numbers need not be multiples of that unit.
theorem multiple_or_small (hx : worth? x = some v) (t : ℤ) :
    (∃ n : ℤ, v = n * 2 ^ t) ∨ |v| < 2 ^ (52 + t) := by
  obtain ⟨b, -, hc, -, rfl⟩ := worth?_eq_some hx
  rcases le_or_gt t b.exponent with ht | ht
  · have hexp : ((b.exponent - t).toNat : ℤ) + t = b.exponent := by omega
    refine .inl ⟨(if b.negative then -1 else 1) * (b.mantissa * 2 ^ (b.exponent - t).toNat), ?_⟩
    push_cast
    rw [worth, mul_assoc, mul_assoc (b.mantissa : ℚ), pow_mul_zpow, hexp]
  · have hm : (b.mantissa : ℚ) < 2 ^ 53 := by exact_mod_cast hc.small
    refine .inr ?_
    calc |b.worth| = b.mantissa * 2 ^ b.exponent := abs_worth b
      _ < 2 ^ 53 * 2 ^ b.exponent := by gcongr
      _ = 2 ^ (53 + b.exponent) := pow_mul_zpow 53 _
      _ ≤ 2 ^ (52 + t) := zpow_le_zpow_right₀ one_le_two (by omega)

end Order

namespace Binary64

open Float.Model Float.Model.UnpackedFloat

theorem ofFloat?_ofBits (word : UInt64) : ofFloat? (Float.ofBits word) = ofBits? word.toNat := by
  have hpack : ofFloat? (Float.ofBits word) = ofUnpacked? (unpack Format.binary64
      (pack Format.binary64 (unpack Format.binary64 word.toBitVec))) := ofFloat?_ofModel _
  have hbits : ofBits? word.toNat = ofUnpacked? (unpack Format.binary64 word.toBitVec) :=
    ofBits?_toNat word.toBitVec
  rw [hpack, hbits, pack_unpack]
  split
  · rename_i h
    obtain ⟨he, -⟩ := of_decide_eq_true h
    rw [ofUnpacked?_unpack word.toBitVec, he]
    rfl
  · rfl

-- A significand of at most 53 digits is stored as it is.
theorem ofBits?_word {negative : Bool} {field fraction : ℕ} (hfield : field < 2047)
    (hfraction : fraction < 2 ^ 52) :
    ofBits? ((if negative then 2 ^ 63 else 0) + field * 2 ^ 52 + fraction) =
      ofFields? negative field fraction := by
  rw [ofBits?_eq]
  cases negative
  · simp only [Bool.false_eq_true, ↓reduceIte]
    congr 1
    · rw [decide_eq_false_iff_not]; omega
    · omega
    · omega
  · simp only [↓reduceIte]
    congr 1
    · rw [decide_eq_true_iff]; omega
    · omega
    · omega

section Word

-- The exponent at which the significand of a number is full, or the lowest one.
def unit (b : Binary64) : ℤ := max ((b.mantissa.log2 : ℤ) + b.exponent - 52) (-1074)

-- The same number at that exponent.
def filled (b : Binary64) : Binary64 :=
  ⟨b.negative, b.mantissa * 2 ^ (b.exponent - b.unit).toNat, b.unit⟩

variable {b : Binary64}

theorem unit_le (hsmall : b.mantissa < 2 ^ 53) (hlow : -1074 ≤ b.exponent) (hne : b.mantissa ≠ 0) :
    b.unit ≤ b.exponent := by
  have hlog : b.mantissa.log2 < 53 := (Nat.log2_lt hne).2 hsmall
  unfold unit
  omega

theorem canonical_filled (hsmall : b.mantissa < 2 ^ 53) (hlow : -1074 ≤ b.exponent)
    (hne : b.mantissa ≠ 0) : b.filled.Canonical := by
  have hle : b.unit ≤ b.exponent := unit_le hsmall hlow hne
  have hlog : b.mantissa.log2 < 53 := (Nat.log2_lt hne).2 hsmall
  have hk : (b.exponent - b.unit).toNat ≤ 52 - b.mantissa.log2 := by unfold unit; omega
  refine ⟨?_, le_max_right _ _, ?_⟩
  · calc b.mantissa * 2 ^ (b.exponent - b.unit).toNat
        < 2 ^ (b.mantissa.log2 + 1) * 2 ^ (b.exponent - b.unit).toNat := by
          gcongr
          exact Nat.lt_log2_self
      _ ≤ 2 ^ (b.mantissa.log2 + 1) * 2 ^ (52 - b.mantissa.log2) := by gcongr; norm_num
      _ = 2 ^ 53 := by rw [← pow_add]; congr 1; omega
  · by_cases hunit : b.unit = -1074
    · exact .inr hunit
    · have hk' : (b.exponent - b.unit).toNat = 52 - b.mantissa.log2 := by unfold unit at *; omega
      refine .inl ?_
      calc 2 ^ 52 = 2 ^ b.mantissa.log2 * 2 ^ (52 - b.mantissa.log2) := by
            rw [← pow_add]; congr 1; omega
        _ ≤ b.mantissa * 2 ^ (52 - b.mantissa.log2) := by
            gcongr
            exact Nat.log2_self_le hne
        _ = b.mantissa * 2 ^ (b.exponent - b.unit).toNat := by rw [hk']

theorem worth_filled (hsmall : b.mantissa < 2 ^ 53) (hlow : -1074 ≤ b.exponent)
    (hne : b.mantissa ≠ 0) : b.filled.worth = b.worth := by
  have hle : b.unit ≤ b.exponent := unit_le hsmall hlow hne
  have hexp : ((b.exponent - b.unit).toNat : ℤ) + b.unit = b.exponent := by omega
  unfold worth filled
  dsimp only
  rw [Nat.cast_mul, Nat.cast_pow, Nat.cast_ofNat, mul_assoc (b.mantissa : ℚ), pow_mul_zpow, hexp]

theorem toBits_eq (hle : b.unit ≤ b.exponent) (hne : b.mantissa ≠ 0) (hunit : b.unit ≤ 971) :
    b.toBits = if b.filled.mantissa < 2 ^ 52 then
        (if b.negative then 2 ^ 63 else 0) + 0 * 2 ^ 52 + b.filled.mantissa
      else (if b.negative then 2 ^ 63 else 0) + (b.unit + 1075).toNat * 2 ^ 52 +
        (b.filled.mantissa - 2 ^ 52) := by
  have hdef : b.toBits = if b.mantissa = 0 then if b.negative then 2 ^ 63 else 0 else
      if (if b.unit ≤ b.exponent then b.filled.mantissa
        else b.mantissa / 2 ^ (b.unit - b.exponent).toNat) < 2 ^ 52 then
        (if b.negative then 2 ^ 63 else 0) + (if b.unit ≤ b.exponent then b.filled.mantissa
          else b.mantissa / 2 ^ (b.unit - b.exponent).toNat)
      else if 972 ≤ b.unit then (if b.negative then 2 ^ 63 else 0) + 2047 * 2 ^ 52
      else (if b.negative then 2 ^ 63 else 0) + (b.unit + 1075).toNat * 2 ^ 52 +
        ((if b.unit ≤ b.exponent then b.filled.mantissa
          else b.mantissa / 2 ^ (b.unit - b.exponent).toNat) - 2 ^ 52) := rfl
  rw [hdef, if_neg hne, if_pos hle, if_neg (show ¬ 972 ≤ b.unit by omega), zero_mul, add_zero]

theorem ofBits?_toBits (c : b.filled.Canonical) (hle : b.unit ≤ b.exponent) (hne : b.mantissa ≠ 0)
    (hunit : b.unit ≤ 971) : b.toBits < 2 ^ 64 ∧ ofBits? b.toBits = some b.filled := by
  have hsmall : b.filled.mantissa < 2 ^ 53 := c.small
  have hlow : -1074 ≤ b.unit := c.lowest
  have hsign : (if b.negative then 2 ^ 63 else 0) ≤ 2 ^ 63 := by split <;> omega
  rw [toBits_eq hle hne hunit]
  split
  · rename_i hlt
    have he : b.unit = -1074 := c.full.resolve_left hlt.not_ge
    refine ⟨by omega, ?_⟩
    rw [ofBits?_word (by omega) hlt, ofFields?, if_neg (by omega), if_pos rfl, ← he]
    rfl
  · rename_i hge
    refine ⟨by omega, ?_⟩
    rw [ofBits?_word (by omega) (by omega), ofFields?, if_neg (by omega), if_neg (by omega),
      Nat.add_sub_cancel' (not_lt.1 hge)]
    have he : ((b.unit + 1075).toNat : ℤ) - 1075 = b.unit := by omega
    rw [he]
    rfl

end Word

-- A number that fits is stored without loss.
theorem worth?_toFloat {b : Binary64} (hsmall : b.mantissa < 2 ^ 53) (hlow : -1074 ≤ b.exponent)
    (hlt : |b.worth| < 2 ^ (1024 : ℤ)) : worth? b.toFloat = some b.worth := by
  have hfloat : ofFloat? b.toFloat = ofBits? (UInt64.ofNat b.toBits).toNat := ofFloat?_ofBits _
  by_cases hne : b.mantissa = 0
  · have hzero (n : Bool) : ofBits? (UInt64.ofNat (if n then 2 ^ 63 else 0)).toNat =
        some ⟨n, 0, -1074⟩ := by
      cases n <;> decide
    have hbits : b.toBits = if b.negative then 2 ^ 63 else 0 := if_pos hne
    have hworth : b.worth = 0 := by rw [← abs_eq_zero, abs_worth, hne, Nat.cast_zero, zero_mul]
    rw [worth?, hfloat, hbits, hzero, Option.map_some, worth_zero, hworth]
  · have c : b.filled.Canonical := canonical_filled hsmall hlow hne
    have hle : b.unit ≤ b.exponent := unit_le hsmall hlow hne
    have hunit : b.unit ≤ 971 := by
      rw [← worth_filled hsmall hlow hne] at hlt
      exact c.exponent_le_iff.2 hlt
    obtain ⟨hword, hof⟩ := ofBits?_toBits c hle hne hunit
    rw [worth?, hfloat, UInt64.toNat_ofNat_of_lt' hword, hof, Option.map_some,
      worth_filled hsmall hlow hne]

section Pack

open Float.Model Float.Model.UnpackedFloat

theorem worth?_zero (s : Sign) : worth? ⟨Float.Model.pack (.zero s)⟩ = some 0 := by
  have hpack : ofFloat? ⟨Float.Model.pack (.zero s)⟩ = some ⟨isNegative s, 0, -1074⟩ :=
    (ofFloat?_ofModel _).trans (ofUnpacked?_packComponents s 0 0)
  rw [worth?, hpack, Option.map_some, worth_zero]

-- A significand and an exponent as a float; no significand means zero.
def ofParts (s : Sign) (m : ℕ) (e : ℤ) : UnpackedFloat :=
  if h : m = 0 then .zero s else .finite s m e (Nat.pos_of_ne_zero h)

theorem worth?_ofParts {s : Sign} {m : ℕ} {e : ℤ}
    (hc : (Binary64.mk (isNegative s) m e).Canonical) :
    worth? ⟨Float.Model.pack (ofParts s m e)⟩ =
      if |worth ⟨isNegative s, m, e⟩| < 2 ^ (1024 : ℤ) then some (worth ⟨isNegative s, m, e⟩)
      else none := by
  unfold ofParts
  split
  · rename_i h
    rw [worth?_zero, h, worth_zero, abs_zero, if_pos (by positivity)]
  · rename_i h
    rw [worth?, ofFloat?_pack (Nat.pos_of_ne_zero h) hc, apply_ite (Option.map worth)]
    exact if_congr hc.exponent_le_iff rfl rfl

end Pack

end Binary64
end SpriteStage

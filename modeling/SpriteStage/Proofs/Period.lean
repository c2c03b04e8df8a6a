import SpriteStage.Proofs.Countdown
import SpriteStage.Proofs.Rounding

namespace SpriteStage

open Binary64 Project Float.Model.UnpackedFloat

section Nanoseconds

variable {x : Float} {v : ℚ}

-- It is what doubles do with what is left behind their last digit.
theorem nearestEven_eq (num : ℕ) {den : ℕ} (h : 0 < den) : nearestEven num den =
    (ExtendedMantissa.ofMantissaAndAccuracy (num / den)
      (accuracyOfFraction (num % den) den)).roundedMantissa := by
  unfold nearestEven accuracyOfFraction
  dsimp only
  split
  · rename_i hlt
    split
    · rfl
    · rw [Nat.compare_eq_lt.2 hlt]
      rfl
  · rename_i hge
    rw [if_neg (show num % den ≠ 0 by omega)]
    split
    · rename_i hgt
      rw [Nat.compare_eq_gt.2 hgt]
      rfl
    · rw [Nat.compare_eq_eq.2 (by omega)]
      rfl

theorem nearestEven_close (num : ℕ) {den : ℕ} (h : 0 < den) :
    |(nearestEven num den : ℚ) - num / den| ≤ 1 / 2 := by
  rw [nearestEven_eq num h]
  exact (Tells.fraction num h).roundedMantissa

-- The nanoseconds of a number of seconds before they are rounded, as the ratio of two counts.
theorem nanoseconds_ratio (m : ℕ) (e : ℤ) :
    ((m * tenTo 9 * twoTo e.toNat : ℕ) : ℚ) / (twoTo (-e).toNat : ℕ) =
      10 ^ 9 * (m * 2 ^ e) := by
  have hnum : m * tenTo 9 * twoTo e.toNat = m * 10 ^ 9 * 2 ^ e.toNat := rfl
  have hden : twoTo (-e).toNat = 2 ^ (-e).toNat := rfl
  have hpow : (2 : ℚ) ^ (-e).toNat * 2 ^ e = 2 ^ e.toNat := by
    rw [pow_mul_zpow, ← zpow_natCast]
    congr 1
    omega
  rw [hnum, hden, div_eq_iff (by positivity)]
  push_cast
  linear_combination (-(10 ^ 9 * m : ℚ)) * hpow

-- No double lies between 2 ^ 64 - 2 ^ 11 and 2 ^ 64.
theorem le_of_lt_two_pow (hx : worth? x = some v) (hlt : v < 2 ^ 64) : v ≤ 2 ^ 64 - 2 ^ 11 := by
  rcases multiple_or_small hx 11 with ⟨n, rfl⟩ | hsmall
  · have hn : n < 2 ^ 53 := by
      have : (n : ℚ) < 2 ^ 53 := by
        by_contra hge
        norm_num at hlt hge
        linarith
      exact_mod_cast this
    have : (n : ℚ) ≤ 2 ^ 53 - 1 := by
      have : n ≤ 2 ^ 53 - 1 := by omega
      exact_mod_cast this
    norm_num at this ⊢
    linarith
  · have := (le_abs_self v).trans_lt hsmall
    norm_num at this ⊢
    linarith

theorem nanoseconds?_none (hx : worth? x = none) : Config.nanoseconds? x = none := by
  unfold Config.nanoseconds?
  rw [Option.map_eq_none_iff.1 hx]

-- The number of nanoseconds before it is known whether it can be counted.
def Binary64.nanoseconds (b : Binary64) : ℕ :=
  nearestEven (b.mantissa * tenTo 9 * twoTo b.exponent.toNat) (twoTo (-b.exponent).toNat)

theorem nanoseconds?_some {b : Binary64} (hb : ofFloat? x = some b) : Config.nanoseconds? x =
    if b.negative = true ∧ b.mantissa ≠ 0 then none
    else if b.nanoseconds < 2 ^ 64 * 10 ^ 9 then some b.nanoseconds else none := by
  unfold Config.nanoseconds?
  rw [hb]
  rfl

theorem nanoseconds_close (b : Binary64) :
    |(b.nanoseconds : ℚ) - 10 ^ 9 * (b.mantissa * 2 ^ b.exponent)| ≤ 1 / 2 := by
  rw [← nanoseconds_ratio]
  exact nearestEven_close _ (twoTo_pos _)

theorem worth_of_nonneg {b : Binary64} (h : 0 ≤ b.worth) :
    ¬(b.negative = true ∧ b.mantissa ≠ 0) ∧ b.worth = b.mantissa * 2 ^ b.exponent := by
  obtain ⟨negative, m, e⟩ := b
  cases negative
  · exact ⟨fun h => Bool.noConfusion h.1, worth_positive m e⟩
  · rw [worth_negative] at h
    have hzero : (m * 2 ^ e : ℚ) = 0 := le_antisymm (neg_nonneg.1 h) (by positivity)
    have hm : m = 0 := by
      exact_mod_cast (mul_eq_zero.1 hzero).resolve_right (zpow_ne_zero e two_ne_zero)
    exact ⟨fun h => h.2 hm, by rw [worth_negative, hzero, neg_zero]⟩

theorem nanoseconds?_large (hx : worth? x = some v) (hv : 2 ^ 64 ≤ v) :
    Config.nanoseconds? x = none := by
  obtain ⟨b, hb, -, -, rfl⟩ := worth?_eq_some hx
  obtain ⟨hsign, hworth⟩ := worth_of_nonneg ((by positivity : (0 : ℚ) ≤ 2 ^ 64).trans hv)
  rw [nanoseconds?_some hb, if_neg hsign, if_neg]
  intro hlt
  have hlt : (b.nanoseconds : ℚ) + 1 ≤ 2 ^ 64 * 10 ^ 9 := by exact_mod_cast hlt
  have hclose := (abs_le.1 (nanoseconds_close b)).1
  rw [← hworth] at hclose
  linarith

theorem nanoseconds?_counted (hx : worth? x = some v) (hv : 0 ≤ v) (hlt : v < 2 ^ 64) :
    ∃ n, Config.nanoseconds? x = some n ∧ |(n : ℚ) - 10 ^ 9 * v| ≤ 1 / 2 := by
  have hgap := le_of_lt_two_pow hx hlt
  obtain ⟨b, hb, -, -, rfl⟩ := worth?_eq_some hx
  obtain ⟨hsign, hworth⟩ := worth_of_nonneg hv
  have hclose := nanoseconds_close b
  rw [← hworth] at hclose
  refine ⟨b.nanoseconds, ?_, hclose⟩
  rw [nanoseconds?_some hb, if_neg hsign, if_pos]
  have : (b.nanoseconds : ℚ) < 2 ^ 64 * 10 ^ 9 := by linarith [(abs_le.1 hclose).2]
  exact_mod_cast this

end Nanoseconds

namespace Config

variable {c : Config}

-- The greatest rate at which a frame lasts too long to be counted: one frame in 2 ^ 64 seconds.
def slowest : Float := Float.ofBits 0x3BF0000000000000

theorem worth?_slowest : worth? slowest = some (2 ^ (-64 : ℤ)) := by
  have hbits : ofFloat? slowest = some ⟨false, 2 ^ 52, -116⟩ := by decide +kernel
  exact worth?_of_ofFloat? hbits (by norm_num [worth])

-- The rate after it is greater by a part in 2 ^ 52.
theorem next_rate {x : Float} {v : ℚ} (hx : worth? x = some v) (hv : 2 ^ (-64 : ℤ) < v) :
    (2 ^ 52 + 1) * 2 ^ (-116 : ℤ) ≤ v := by
  rcases multiple_or_small hx (-116) with ⟨n, rfl⟩ | hsmall
  · have hn : (2 ^ 52 : ℚ) < n := by
      by_contra hge
      norm_num at hv hge
      linarith
    have hn : (2 ^ 52 + 1 : ℚ) ≤ n := by
      have : 2 ^ 52 < n := by exact_mod_cast hn
      have : 2 ^ 52 + 1 ≤ n := by omega
      exact_mod_cast this
    gcongr
  · have := (le_abs_self v).trans_lt hsmall
    norm_num at this hv
    linarith

theorem rate_of_check (h : c.check = .ok ()) : ∃ q, worth? c.frameRate = some q ∧ 0 < q := by
  have hrate : c.frameRate.isFinite = true ∧ c.frameRate > 0.0 := by
    unfold check flaw? at h
    split at h
    · cases h
    · rename_i hflaw
      split at hflaw
      · cases hflaw
      · rename_i hok
        simpa using hok
  obtain ⟨q, hq⟩ := isFinite_iff.1 hrate.1
  have hbits : ofFloat? 0.0 = some ⟨false, 0, -1074⟩ := by decide +kernel
  have hzero : worth? 0.0 = some 0 := worth?_of_ofFloat? hbits (worth_zero _ _)
  exact ⟨q, hq, (lt_iff_worth hzero hq).1 hrate.2⟩

theorem rounds_frameSeconds {q : ℚ} (hq : worth? c.frameRate = some q) (hpos : 0 < q) :
    Rounds (1 / q) c.frameSeconds := by
  have hbits : ofFloat? 1.0 = some ⟨false, 2 ^ 52, -52⟩ := by decide +kernel
  have hone : worth? 1.0 = some 1 := worth?_of_ofFloat? hbits (by norm_num [worth])
  exact rounds_div hone hq hpos.ne'

-- When a frame lasts a time that can be counted, and how long it then lasts.
structure Timed (c : Config) : Prop where
  uncounted : c.frameDuration? = none ↔ c.frameRate ≤ slowest
  nearest : ∀ nanos, c.frameDuration? = some nanos →
    ∃ seconds, worth? c.frameSeconds = some seconds ∧ |(nanos : ℚ) - 10 ^ 9 * seconds| ≤ 1 / 2

theorem frameDuration?_slow (h : c.check = .ok ()) (hle : c.frameRate ≤ slowest) :
    c.frameDuration? = none := by
  obtain ⟨q, hq, hpos⟩ := rate_of_check h
  have hslow := (le_iff_worth hq worth?_slowest).1 hle
  have hlong : (2 ^ 64 : ℚ) ≤ 1 / q := by
    rw [le_div_iff₀ hpos]
    norm_num at hslow ⊢
    linarith
  have hgrid : OnGrid (2 ^ 64) := ⟨1, 64, by norm_num, by norm_num, by norm_num⟩
  cases hs : worth? c.frameSeconds with
  | none => exact nanoseconds?_none hs
  | some r => exact nanoseconds?_large hs (((rounds_frameSeconds hq hpos).nears hs).ge hgrid hlong)

theorem frameDuration?_fast (h : c.check = .ok ()) (hlt : slowest < c.frameRate) :
    ∃ seconds nanos, worth? c.frameSeconds = some seconds ∧ c.frameDuration? = some nanos ∧
      |(nanos : ℚ) - 10 ^ 9 * seconds| ≤ 1 / 2 := by
  obtain ⟨q, hq, hpos⟩ := rate_of_check h
  have hround := rounds_frameSeconds hq hpos
  have hfast := next_rate hq ((lt_iff_worth worth?_slowest hq).1 hlt)
  have hlow : (0 : ℚ) ≤ 1 / q := by positivity
  have hshort : 1 / q ≤ (2 ^ 53 - 1) * 2 ^ (11 : ℤ) := by
    rw [div_le_iff₀ hpos]
    norm_num at hfast ⊢
    linarith
  have hgrid : OnGrid ((2 ^ 53 - 1) * 2 ^ (11 : ℤ)) :=
    ⟨2 ^ 53 - 1, 11, by norm_num, by norm_num, by norm_num⟩
  have hrange : (2 ^ 53 - 1) * 2 ^ (11 : ℤ) < (2 : ℚ) ^ (1024 : ℤ) :=
    (by norm_num : (2 ^ 53 - 1) * 2 ^ (11 : ℤ) < (2 : ℚ) ^ (64 : ℤ)).trans_le
      (zpow_le_zpow_right₀ one_le_two (by norm_num))
  obtain ⟨r, hr⟩ := hround.isSome_of_le hgrid (by rwa [abs_of_nonneg hlow]) hrange
  have hle := (hround.nears hr).le hgrid hshort
  have hge := (hround.nears hr).ge ⟨0, 0, by norm_num, by norm_num, by norm_num⟩ hlow
  obtain ⟨n, hn, hclose⟩ := nanoseconds?_counted hr hge (hle.trans_lt (by norm_num))
  exact ⟨r, n, hr, hn, hclose⟩

theorem timed_of_check (h : c.check = .ok ()) : c.Timed := by
  obtain ⟨q, hq, -⟩ := rate_of_check h
  by_cases hle : c.frameRate ≤ slowest
  · have hnone := frameDuration?_slow h hle
    refine ⟨iff_of_true hnone hle, fun nanos hn => ?_⟩
    rw [hnone] at hn
    cases hn
  · have hlt : slowest < c.frameRate := by
      rw [le_iff_worth hq worth?_slowest, not_le] at hle
      exact (lt_iff_worth worth?_slowest hq).2 hle
    obtain ⟨seconds, nanos, hs, hn, hclose⟩ := frameDuration?_fast h hlt
    refine ⟨iff_of_false (fun h => ?_) hle, fun nanos' hn' => ?_⟩
    · rw [hn] at h
      cases h
    · obtain rfl := Option.some.inj (hn.symm.trans hn')
      exact ⟨seconds, hs, hclose⟩

theorem check_of_isNone (h : c.flaw?.isNone = true) : c.check = .ok () := by
  unfold check
  rw [Option.isNone_iff_eq_none.1 h]

theorem check_default : ({} : Config).check = .ok () := check_of_isNone (by decide +kernel)

theorem check_of_text {content : String} (h : ofText content = .ok c) : c.check = .ok () := by
  unfold ofText at h
  split at h
  · cases h
  · rename_i c' _
    cases hc : c'.check with
    | error e =>
      rw [hc] at h
      cases h
    | ok u =>
      rw [hc] at h
      cases h
      exact hc

theorem check_of_load {file : Option String} (h : load file = .ok c) : c.check = .ok () := by
  cases file with
  | none => cases h
  | some content => exact check_of_text h

-- All the ways to come by a configuration that has passed the check.
inductive Admitted : Config → Prop where
  | checked {c : Config} (h : c.check = .ok ()) : Admitted c
  | text {content : String} {c : Config} (h : ofText content = .ok c) : Admitted c
  | loaded {file : Option String} {c : Config} (h : load file = .ok c) : Admitted c
  | fallback (file : Option String) : Admitted (loadOrDefault file)
  | project {κ : Conduct} {m : Moment} (hm : Moment.Reachable κ m) : Admitted m.project.world.config

end Config

namespace Project

theorem check_apply (op : Operation) (p : Project) :
    (op.apply p).world.config.check = p.world.config.check := by
  cases op with
  | press | release | click | limitLoops | countLoop => rfl
  | _ => exact congrArg Config.check (Operation.sameFixture rfl p).config

theorem check_new {config : Config} {p : Project} (h : Project.new config = .ok p) :
    p.world.config.check = .ok () := by
  rw [new_eq_ok h]
  unfold Project.new at h
  cases hc : config.check with
  | error e =>
    rw [hc] at h
    cases h
  | ok u => rfl

theorem check_answer (query : Script.Query) (l : Script.Loading) :
    (Script.Loading.answer query l).2.project.world.config.check =
      l.project.world.config.check := by
  cases query with
  | call c awaits => exact congrArg Config.check (sameFixture_call l.project c).config
  | declare d => rfl
  | limitLoops max => rfl
  | countLoop =>
    simp only [Script.Loading.answer, noteImportLoop]
    cases (l.project.world.noteImportLoop).1 <;> rfl

theorem check_load {source : String} {config : Config} {p : Project}
    (h : Project.load source config = (.ok (), p)) : p.world.config.check = .ok () := by
  refine load_written (J := fun p => p.world.config.check = .ok ())
    (I := fun p => p.world.config.check = .ok ()) (fun _ => check_new)
    (fun query l hl => (check_answer query l).trans hl) (fun _ _ hp => hp)
    (fun p c kind _ hp => ?_) h
  rw [(sameFixture_register p c kind).config]
  exact hp

end Project

namespace Moment

variable {κ : Conduct} {m n : Moment}

theorem Step.check (hs : Step κ m n) (hm : Reachable κ m) :
    n.project.world.config.check = m.project.world.config.check := by
  cases hs with
  | operate ho => exact check_apply _ _
  | frame => exact congrArg Config.check (sameTerms_prepare _).config
  | turn ht => exact congrArg Config.check (hm.passes ht).config

theorem Reachable.check (hm : Reachable κ m) : m.project.world.config.check = .ok () := by
  refine hm.induction (fun hp => ?_) fun hm hs ih => (hs.check hm).trans ih
  cases hp with
  | new h bus hl =>
    have hnew := check_new h
    exact hnew
  | script h hl hj => exact check_load h

end Moment

namespace Config

variable {c : Config}

theorem Admitted.check (h : c.Admitted) : c.check = .ok () := by
  cases h with
  | checked h => exact h
  | text h => exact check_of_text h
  | loaded h => exact check_of_load h
  | project hm => exact hm.check
  | fallback file =>
    unfold loadOrDefault
    cases hl : load file with
    | ok c => exact check_of_load hl
    | error e => exact check_default

theorem Admitted.timed (h : c.Admitted) : c.Timed := timed_of_check h.check

-- Sixty frames in a second.
theorem default_timed : ({} : Config).Admitted ∧ ({} : Config).Timed ∧
    ({} : Config).frameDuration? = some 16666667 :=
  ⟨.checked check_default, Admitted.timed (.checked check_default), by decide +kernel⟩

-- A rate that is a positive number.
def crawling : Config := { frameRate := 1e-300 }

theorem crawling_uncounted : crawling.check = .ok () ∧ crawling.frameDuration? = none :=
  ⟨check_of_isNone (by decide +kernel), by decide +kernel⟩

end Config

end SpriteStage

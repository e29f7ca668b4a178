import Mathlib.Algebra.Order.Field.Power
import Mathlib.Algebra.Order.Field.Rat
import Mathlib.Tactic.FieldSimp
import Mathlib.Tactic.Linarith
import Mathlib.Tactic.Ring
import ObjectRelational.Number.Binary64

/-!
# Rounding to binary numbers

What a fraction is rounded to depends on its value only, and a number is rounded to itself.

* `Fits`: the fraction has at most 53 bits in units of a power of two.
* `fits_unitOf`, `not_fits_of_lt_unitOf`: `unitOf` is the least exponent from `-1074` up that fits.
* `nearest?_congr`: equal fractions are rounded to the same number.
* `nearest?_fraction`: the fraction of a number is rounded to the number.
-/

namespace ObjectRelational.Binary64

variable {num den num' den' : Nat}

/-! ## Units -/

theorem inUnits_snd_pos (hden : 0 < den) (e : Int) : 0 < (inUnits num den e).2 := by
  unfold inUnits
  split
  · exact Nat.mul_pos hden (Nat.pow_pos (by omega))
  · exact hden

/-- Units of a power of two divide a fraction by it. -/
theorem inUnits_value (hden : 0 < den) (e : Int) :
    ((inUnits num den e).1 : ℚ) = num / den / 2 ^ e * (inUnits num den e).2 := by
  have hden' : (den : ℚ) ≠ 0 := by exact_mod_cast hden.ne'
  unfold inUnits
  split
  · rename_i he
    rcases Int.eq_ofNat_of_zero_le he with ⟨n, rfl⟩
    simp only [Int.toNat_natCast, Nat.pow_eq, zpow_natCast]
    push_cast
    field_simp
  · rename_i he
    obtain ⟨n, hn⟩ := Int.eq_ofNat_of_zero_le (show 0 ≤ -e by omega)
    obtain rfl : e = -(n : Int) := by omega
    simp only [neg_neg, Int.toNat_natCast, Nat.pow_eq, zpow_neg, zpow_natCast]
    push_cast
    field_simp

/-- Equal fractions are equal in units. -/
theorem inUnits_cross (h : num * den' = num' * den) (e : Int) :
    (inUnits num den e).1 * (inUnits num' den' e).2 =
      (inUnits num' den' e).1 * (inUnits num den e).2 := by
  unfold inUnits
  split
  · calc num * (den' * Nat.pow 2 e.toNat) = num * den' * Nat.pow 2 e.toNat := by ring
      _ = num' * den * Nat.pow 2 e.toNat := by rw [h]
      _ = num' * (den * Nat.pow 2 e.toNat) := by ring
  · calc num * Nat.pow 2 (-e).toNat * den' = num * den' * Nat.pow 2 (-e).toNat := by ring
      _ = num' * den * Nat.pow 2 (-e).toNat := by rw [h]
      _ = num' * Nat.pow 2 (-e).toNat * den := by ring

/-! ## The exponent -/

/-- The fraction has at most 53 bits in units of a power of two. -/
def Fits (num den : Nat) (e : Int) : Prop :=
  (inUnits num den e).1 / (inUnits num den e).2 < significandLimit

theorem fits_iff (hden : 0 < den) (e : Int) :
    Fits num den e ↔ (num : ℚ) < 2 ^ (e + 53) * den := by
  have hden' : (0 : ℚ) < den := by exact_mod_cast hden
  have hunits : (0 : ℚ) < (inUnits num den e).2 := by exact_mod_cast inUnits_snd_pos hden e
  have hpow : (0 : ℚ) < 2 ^ e := zpow_pos (by norm_num) e
  have hlimit : ((significandLimit : Nat) : ℚ) = 2 ^ (53 : Int) := by norm_num [significandLimit]
  unfold Fits
  rw [Nat.div_lt_iff_lt_mul (inUnits_snd_pos hden e)]
  calc (inUnits num den e).1 < significandLimit * (inUnits num den e).2
      ↔ ((inUnits num den e).1 : ℚ) < significandLimit * (inUnits num den e).2 := by
        exact_mod_cast Iff.rfl
    _ ↔ (num : ℚ) / den / 2 ^ e < 2 ^ (53 : Int) := by
        rw [inUnits_value hden, hlimit, mul_lt_mul_iff_left₀ hunits]
    _ ↔ (num : ℚ) < 2 ^ (e + 53) * den := by
        rw [div_lt_iff₀ hpow, div_lt_iff₀ hden', zpow_add₀ (by norm_num), mul_comm (2 ^ e)]

/-- What fits is told by the value of the fraction. -/
theorem fits_congr (hden : 0 < den) (hden' : 0 < den') (h : num * den' = num' * den) (e : Int) :
    Fits num den e ↔ Fits num' den' e := by
  have hden₀ : (0 : ℚ) < den := by exact_mod_cast hden
  have hden₁ : (0 : ℚ) < den' := by exact_mod_cast hden'
  have hcross : (num : ℚ) * den' = num' * den := by exact_mod_cast h
  rw [fits_iff hden, fits_iff hden', ← mul_lt_mul_iff_left₀ hden₁, hcross,
    ← mul_lt_mul_iff_left₀ hden₀ (b := (num' : ℚ))]
  ring_nf

/-- What fits also fits in larger units. -/
theorem Fits.mono (hden : 0 < den) {e f : Int} (h : Fits num den e) (hle : e ≤ f) :
    Fits num den f := by
  have hden' : (0 : ℚ) < den := by exact_mod_cast hden
  have hpow : (2 : ℚ) ^ (e + 53) ≤ 2 ^ (f + 53) := zpow_le_zpow_right₀ (by norm_num) (by omega)
  rw [fits_iff hden] at h ⊢
  exact h.trans_le (mul_le_mul_of_nonneg_right hpow hden'.le)

theorem two_pow_log2_le (hnum : 0 < num) : (2 : ℚ) ^ (num.log2 : Int) ≤ num := by
  rw [zpow_natCast]
  exact_mod_cast Nat.log2_self_le hnum.ne'

theorem lt_two_pow_log2 (num : Nat) : (num : ℚ) < 2 ^ ((num.log2 : Int) + 1) := by
  have h : num < 2 ^ (num.log2 + 1) := Nat.lt_log2_self
  have hcast : ((num.log2 : Int) + 1) = ((num.log2 + 1 : Nat) : Int) := by push_cast; rfl
  rw [hcast, zpow_natCast]
  exact_mod_cast h

/-- The difference of the binary logarithms is at most one too small. -/
theorem fits_of_log2_le (hden : 0 < den) {e : Int}
    (he : (num.log2 : Int) - den.log2 - 52 ≤ e) : Fits num den e := by
  rw [fits_iff hden]
  calc (num : ℚ) < 2 ^ ((num.log2 : Int) + 1) := lt_two_pow_log2 num
    _ ≤ 2 ^ ((e + 53) + (den.log2 : Int)) := zpow_le_zpow_right₀ (by norm_num) (by omega)
    _ = 2 ^ (e + 53) * 2 ^ (den.log2 : Int) := zpow_add₀ (by norm_num) _ _
    _ ≤ 2 ^ (e + 53) * den :=
      mul_le_mul_of_nonneg_left (two_pow_log2_le hden) (zpow_nonneg (by norm_num) _)

/-- The difference of the binary logarithms is never too large. -/
theorem not_fits_of_lt_log2 (hnum : 0 < num) (hden : 0 < den) {e : Int}
    (he : e < (num.log2 : Int) - den.log2 - 53) : ¬ Fits num den e := by
  rw [fits_iff hden, not_lt]
  calc (2 : ℚ) ^ (e + 53) * den ≤ 2 ^ (e + 53) * 2 ^ ((den.log2 : Int) + 1) :=
      mul_le_mul_of_nonneg_left (lt_two_pow_log2 den).le (zpow_nonneg (by norm_num) _)
    _ = 2 ^ ((e + 53) + ((den.log2 : Int) + 1)) := (zpow_add₀ (by norm_num) _ _).symm
    _ ≤ 2 ^ (num.log2 : Int) := zpow_le_zpow_right₀ (by norm_num) (by omega)
    _ ≤ num := two_pow_log2_le hnum

theorem le_unitOf (num den : Nat) : -1074 ≤ unitOf num den := by
  unfold unitOf
  simp only
  split <;> omega

theorem fits_unitOf (hden : 0 < den) : Fits num den (unitOf num den) := by
  unfold unitOf
  simp only
  split
  · rename_i h
    exact h
  · exact fits_of_log2_le hden (by omega)

/-- In smaller units the fraction has too many bits, unless there are no smaller ones. -/
theorem not_fits_of_lt_unitOf (hnum : 0 < num) (hden : 0 < den) {e : Int} (hleast : -1074 ≤ e)
    (he : e < unitOf num den) : ¬ Fits num den e := by
  unfold unitOf at he
  simp only at he
  split at he
  · exact not_fits_of_lt_log2 hnum hden (by omega)
  · rename_i hlow
    intro hfits
    exact hlow (hfits.mono hden (by omega))

/-- The exponent is the least one that fits. -/
theorem unitOf_eq (hnum : 0 < num) (hden : 0 < den) {e : Int} (hleast : -1074 ≤ e)
    (hfits : Fits num den e) (hnot : e = -1074 ∨ ¬ Fits num den (e - 1)) : unitOf num den = e := by
  rcases lt_trichotomy (unitOf num den) e with hlt | heq | hgt
  · rcases hnot with rfl | hnot
    · exact absurd (le_unitOf num den) (by omega)
    · exact absurd ((fits_unitOf hden).mono hden (by omega)) hnot
  · exact heq
  · exact absurd hfits (not_fits_of_lt_unitOf hnum hden hleast hgt)

theorem unitOf_congr (hnum : 0 < num) (hden : 0 < den) (hden' : 0 < den')
    (h : num * den' = num' * den) : unitOf num den = unitOf num' den' := by
  have hnum' : 0 < num' := by
    rcases Nat.eq_zero_or_pos num' with rfl | hpos
    · have hzero : num * den' = 0 := by rw [h, Nat.zero_mul]
      exact absurd hzero (Nat.mul_pos hnum hden').ne'
    · exact hpos
  refine unitOf_eq hnum hden (le_unitOf num' den') ?_ ?_
  · exact (fits_congr hden hden' h _).2 (fits_unitOf hden')
  · rcases (le_unitOf num' den').eq_or_lt with heq | hlt
    · exact .inl heq.symm
    · refine .inr fun hfits => ?_
      exact not_fits_of_lt_unitOf hnum' hden' (by omega) (by omega)
        ((fits_congr hden hden' h _).1 hfits)

/-! ## The significand -/

theorem roundHalfEven_mul {c : Nat} (hc : 0 < c) :
    roundHalfEven (num * c) (den * c) = roundHalfEven num den := by
  unfold roundHalfEven
  simp only [Nat.mul_mod_mul_right, Nat.mul_div_mul_right num den hc, ← Nat.mul_assoc 2,
    Nat.mul_lt_mul_right hc]

theorem roundHalfEven_congr (hden : 0 < den) (hden' : 0 < den') (h : num * den' = num' * den) :
    roundHalfEven num den = roundHalfEven num' den' := by
  rw [← roundHalfEven_mul hden', h, Nat.mul_comm den den', roundHalfEven_mul hden]

/-- An integer is rounded to itself. -/
theorem roundHalfEven_one (n : Nat) : roundHalfEven n 1 = n := by
  unfold roundHalfEven
  simp [Nat.mod_one]

/-! ## The nearest number -/

/-- Equal fractions are rounded to the same number. -/
theorem nearest?_congr (negative : Bool) (hden : 0 < den) (hden' : 0 < den')
    (h : num * den' = num' * den) : nearest? negative num den = nearest? negative num' den' := by
  rcases Nat.eq_zero_or_pos num with rfl | hnum
  · have hzero : num' = 0 := by
      rw [Nat.zero_mul] at h
      rcases Nat.mul_eq_zero.1 h.symm with hzero | hzero
      · exact hzero
      · exact absurd hzero hden.ne'
    simp [nearest?, hzero]
  · have hnum' : num' ≠ 0 := by
      rintro rfl
      rw [Nat.zero_mul] at h
      exact (Nat.mul_pos hnum hden').ne' h
    have hunit := unitOf_congr hnum hden hden' h
    have hround := roundHalfEven_congr (inUnits_snd_pos hden (unitOf num den))
      (inUnits_snd_pos hden' (unitOf num den)) (inUnits_cross h (unitOf num den))
    unfold nearest?
    simp only [hnum.ne', hnum', if_false]
    rw [← hunit, hround]

theorem fraction_snd_pos (x : Binary64) : 0 < x.fraction.2 := by
  unfold fraction
  split
  · exact Nat.one_pos
  · exact Nat.pow_pos (by omega)

/-- The magnitude of a number. -/
theorem fraction_value (x : Binary64) :
    (x.fraction.1 : ℚ) = x.significand * 2 ^ x.exponent * x.fraction.2 := by
  unfold fraction
  split
  · rename_i he
    rcases Int.eq_ofNat_of_zero_le he with ⟨n, hn⟩
    rw [hn]
    push_cast
    simp
  · rename_i he
    obtain ⟨n, hn⟩ := Int.eq_ofNat_of_zero_le (show 0 ≤ -x.exponent by omega)
    obtain hexp : x.exponent = -(n : Int) := by omega
    rw [hexp]
    simp only [neg_neg, Int.toNat_natCast, Nat.pow_eq, zpow_neg, zpow_natCast]
    push_cast
    field_simp

theorem eq_zero_of_significand (x : Binary64) (h : x.significand = 0) : x = zero x.negative := by
  rcases x with ⟨negative, significand, exponent, hcanonical⟩
  subst h
  rcases hcanonical with ⟨-, -, -, hnormal | rfl⟩
  · exact absurd hnormal (by decide)
  · rfl

/-- A fraction of the value of a number that is not zero has the unit of the number. -/
theorem unitOf_of_value (x : Binary64) (hden : 0 < den) (hnum : 0 < num)
    (h : (num : ℚ) = x.significand * 2 ^ x.exponent * den) : unitOf num den = x.exponent := by
  have hden₀ : (0 : ℚ) < den := by exact_mod_cast hden
  have hpow : (0 : ℚ) < 2 ^ x.exponent := zpow_pos (by norm_num) _
  rcases x.canonical with ⟨hlimit, hleast, -, hnormal⟩
  refine unitOf_eq hnum hden hleast ?_ ?_
  · have hlimit₀ : (x.significand : ℚ) < 2 ^ (53 : Int) := by
      have hcast : (x.significand : ℚ) < (significandLimit : Nat) := by exact_mod_cast hlimit
      exact hcast.trans_le (by norm_num [significandLimit])
    rw [fits_iff hden, h, mul_lt_mul_iff_left₀ hden₀, zpow_add₀ (by norm_num), mul_comm,
      mul_lt_mul_iff_right₀ hpow]
    exact hlimit₀
  · -- a smaller unit would leave the number too many bits, unless there is none
    rcases hnormal with hnormal | hexp
    · refine .inr ?_
      have hnormal₀ : (2 : ℚ) ^ (52 : Int) ≤ x.significand := by
        have hcast : ((leastNormal : Nat) : ℚ) ≤ x.significand := by exact_mod_cast hnormal
        exact le_trans (by norm_num [leastNormal]) hcast
      have hexp : x.exponent - 1 + 53 = x.exponent + 52 := by omega
      rw [fits_iff hden, not_lt, h, hexp, mul_le_mul_iff_left₀ hden₀, zpow_add₀ (by norm_num),
        mul_comm, mul_le_mul_iff_left₀ hpow]
      exact hnormal₀
    · exact .inl hexp

/-- In units of the number such a fraction is the significand, so nothing is rounded. -/
theorem roundHalfEven_of_value (x : Binary64) (hden : 0 < den)
    (h : (num : ℚ) = x.significand * 2 ^ x.exponent * den) :
    roundHalfEven (inUnits num den x.exponent).1 (inUnits num den x.exponent).2 =
      x.significand := by
  have hden₀ : (0 : ℚ) < den := by exact_mod_cast hden
  have hunits : (inUnits num den x.exponent).1 * 1 =
      x.significand * (inUnits num den x.exponent).2 := by
    have hvalue : ((inUnits num den x.exponent).1 : ℚ) =
        num / den / 2 ^ x.exponent * (inUnits num den x.exponent).2 :=
      inUnits_value hden x.exponent
    have hcancel : (x.significand : ℚ) * 2 ^ x.exponent * den / den / 2 ^ x.exponent =
        x.significand := by field_simp
    rw [h, hcancel] at hvalue
    rw [Nat.mul_one]
    exact_mod_cast hvalue
  rw [roundHalfEven_congr (inUnits_snd_pos hden _) Nat.one_pos hunits, roundHalfEven_one]

/-- A fraction of the value of a number is rounded to the number. -/
theorem nearest?_of_value (x : Binary64) (hden : 0 < den)
    (h : (num : ℚ) = x.significand * 2 ^ x.exponent * den) :
    nearest? x.negative num den = some x := by
  rcases Nat.eq_zero_or_pos x.significand with hzero | hpos
  · have hnum : num = 0 := by
      rw [hzero] at h
      simpa using h
    rw [hnum]
    simp [nearest?, ← eq_zero_of_significand x hzero]
  · have hnum : 0 < num := by
      have hden₀ : (0 : ℚ) < den := by exact_mod_cast hden
      have hpos₀ : (0 : ℚ) < x.significand := by exact_mod_cast hpos
      have hnum₀ : (0 : ℚ) < num := by rw [h]; positivity
      exact_mod_cast hnum₀
    unfold nearest?
    simp only [hnum.ne', if_false, unitOf_of_value x hden hnum h, roundHalfEven_of_value x hden h,
      x.canonical.1.ne]
    unfold ofParts?
    rw [dif_pos x.canonical]

/-- The fraction of a number is rounded to the number. -/
theorem nearest?_fraction (x : Binary64) :
    nearest? x.negative x.fraction.1 x.fraction.2 = some x :=
  nearest?_of_value x x.fraction_snd_pos x.fraction_value

end ObjectRelational.Binary64

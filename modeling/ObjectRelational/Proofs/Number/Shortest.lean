import ObjectRelational.Number.Shortest
import ObjectRelational.Proofs.Number.Binary64

/-!
# The shortest decimal reads back

* `Decimal.value` is the rational number that a decimal stands for.
* `nearest?_shortest`: the shortest decimal of a number is rounded to the number.
* `eq_of_shortest_value`: so its value and the sign determine the number.
-/

namespace ObjectRelational

/-! ## Decimals -/

namespace Decimal

variable {d e : Decimal}

/-- The number that the decimal stands for. -/
def value (d : Decimal) : ℚ := d.digits * 10 ^ d.exponent

theorem fraction_snd_pos (d : Decimal) : 0 < d.fraction.2 := by
  unfold fraction
  split
  · exact Nat.one_pos
  · exact Nat.pow_pos (by omega)

theorem fraction_value (d : Decimal) : (d.fraction.1 : ℚ) = d.value * d.fraction.2 := by
  unfold fraction value
  split
  · rename_i he
    rcases Int.eq_ofNat_of_zero_le he with ⟨n, hn⟩
    simp only [hn, Int.toNat_natCast, Nat.pow_eq, zpow_natCast]
    push_cast
    ring
  · rename_i he
    obtain ⟨n, hn⟩ := Int.eq_ofNat_of_zero_le (show 0 ≤ -d.exponent by omega)
    obtain hexp : d.exponent = -(n : Int) := by omega
    simp only [hexp, neg_neg, Int.toNat_natCast, Nat.pow_eq, zpow_neg, zpow_natCast]
    push_cast
    field_simp

/-- Trailing zeros are moved without changing the value. -/
theorem value_dropZeros (fuel : Nat) (d : Decimal) : (dropZeros fuel d).value = d.value := by
  induction fuel generalizing d with
  | zero => rfl
  | succ fuel ih =>
    unfold dropZeros
    split
    · rename_i h
      rw [ih]
      rcases Nat.dvd_of_mod_eq_zero h.2 with ⟨n, hn⟩
      unfold value
      simp only [hn, Nat.mul_div_cancel_left n (show 0 < 10 by omega)]
      rw [zpow_add₀ (by norm_num)]
      push_cast
      ring
    · rfl

end Decimal

/-! ## The shortest decimal -/

namespace Binary64

/-- Decimals of one value are rounded to the same number. -/
theorem nearest?_decimal_congr (negative : Bool) {d e : Decimal} (h : d.value = e.value) :
    nearest? negative d.fraction.1 d.fraction.2 = nearest? negative e.fraction.1 e.fraction.2 := by
  apply nearest?_congr negative d.fraction_snd_pos e.fraction_snd_pos
  have hcross : (d.fraction.1 : ℚ) * e.fraction.2 = e.fraction.1 * d.fraction.2 := by
    rw [d.fraction_value, e.fraction_value, h]
    ring
  exact_mod_cast hcross

/-- The first of two candidates that passes a test passes it. -/
theorem passes_of_firstOf {test : Decimal → Bool} {first second d : Decimal}
    (h : (if test first then some first else if test second then some second else none) = some d) :
    test d = true := by
  split at h
  · rename_i hfirst
    exact Option.some.inj h ▸ hfirst
  · split at h
    · rename_i hsecond
      exact Option.some.inj h ▸ hsecond
    · cases h

theorem readsBack_of_decimalWith? {x : Binary64} {magnitude : Int} {count : Nat} {d : Decimal}
    (h : x.decimalWith? magnitude count = some d) : x.readsBack d = true :=
  passes_of_firstOf h

/-- All digits of a number have its value. -/
theorem value_exactDecimal (x : Binary64) :
    x.exactDecimal.value = x.significand * 2 ^ x.exponent := by
  unfold exactDecimal Decimal.value
  split
  · rename_i he
    rcases Int.eq_ofNat_of_zero_le he with ⟨n, hn⟩
    simp only [hn, Int.toNat_natCast, Nat.pow_eq, zpow_natCast, zpow_zero]
    push_cast
    ring
  · rename_i he
    obtain ⟨n, hn⟩ := Int.eq_ofNat_of_zero_le (show 0 ≤ -x.exponent by omega)
    obtain hexp : x.exponent = -(n : Int) := by omega
    have hten : (10 : ℚ) ^ n = 5 ^ n * 2 ^ n := by rw [← mul_pow]; norm_num
    simp only [hexp, neg_neg, Int.toNat_natCast, Nat.pow_eq, zpow_neg, zpow_natCast]
    push_cast
    rw [hten]
    field_simp

/-- The shortest decimal of a number is rounded to the number. -/
theorem nearest?_shortest (x : Binary64) :
    nearest? x.negative x.shortest.fraction.1 x.shortest.fraction.2 = some x := by
  unfold shortest
  split
  · rename_i hzero
    have hsignificand : x.significand = 0 := by simpa [isZero] using hzero
    rw [eq_zero_of_significand x hsignificand]
    rfl
  · simp only
    rw [nearest?_decimal_congr x.negative (Decimal.value_dropZeros 400 _)]
    cases hfound : (List.range 17).findSome? fun n =>
        x.decimalWith? (decimalMagnitude x.fraction.1 x.fraction.2 700 (-330)) (n + 1) with
    | none =>
      apply nearest?_of_value x (Decimal.fraction_snd_pos _)
      rw [Option.getD_none, Decimal.fraction_value, value_exactDecimal]
    | some d =>
      rcases List.exists_of_findSome?_eq_some hfound with ⟨n, -, hn⟩
      have hreads := readsBack_of_decimalWith? hn
      unfold readsBack at hreads
      exact of_decide_eq_true hreads

/-- A number is determined by its sign and the value of its shortest decimal. -/
theorem eq_of_shortest_value {x y : Binary64} (hnegative : x.negative = y.negative)
    (hvalue : x.shortest.value = y.shortest.value) : x = y := by
  have hx := nearest?_shortest x
  rw [hnegative, nearest?_decimal_congr y.negative hvalue, nearest?_shortest y] at hx
  exact (Option.some.inj hx).symm

end Binary64

end ObjectRelational

import FormCode.Binary64.Rounding
import Mathlib.Tactic.Ring

/-! Rounding to the nearest magnitude leaves exact magnitudes alone, and makes whole numbers of whole
numbers. A magnitude is a count `q` of at most 53 bits together with a number of doublings: it stands
as `spare * leadingBit + q` and has `q * 2 ^ spare` units. -/
namespace FormCode.Binary64

theorem leadingBit_eq : leadingBit = 2 ^ 52 := rfl

/-- The carry out of the 53 bits is the case `q = 2 * leadingBit`. -/
theorem units_scaled {spare q : Nat} (low : spare = 0 ∨ leadingBit ≤ q)
    (high : q ≤ 2 * leadingBit) : units (spare * leadingBit + q) = q * 2 ^ spare := by
  have positive : 0 < leadingBit := by decide
  by_cases small : q < leadingBit
  · obtain rfl : spare = 0 := by omega
    rw [Nat.zero_mul, Nat.zero_add, units, if_pos small, Nat.pow_zero, Nat.mul_one]
  · have large : ¬ spare * leadingBit + q < leadingBit := by omega
    rw [units, if_neg large]
    by_cases carry : q = 2 * leadingBit
    · subst carry
      have joined : spare * leadingBit + 2 * leadingBit = leadingBit * (spare + 2) := by ring
      rw [joined, Nat.mul_mod_right, Nat.mul_div_cancel_left _ positive, Nat.shiftLeft_eq,
        Nat.add_zero, Nat.add_succ_sub_one, Nat.pow_succ]
      ring
    · obtain ⟨r, rfl⟩ := Nat.exists_eq_add_of_le (Nat.le_of_not_lt small)
      have bound : r < leadingBit := by omega
      have joined : spare * leadingBit + (leadingBit + r) = r + leadingBit * (spare + 1) := by ring
      rw [joined, Nat.add_mul_mod_self_left, Nat.add_mul_div_left _ _ positive,
        Nat.mod_eq_of_lt bound, Nat.div_eq_of_lt bound, Nat.shiftLeft_eq]
      simp

theorem magnitude_eq (m : Nat) : ∃ spare q, m = spare * leadingBit + q ∧
    (spare = 0 ∨ leadingBit ≤ q) ∧ q < 2 * leadingBit := by
  have positive : 0 < leadingBit := by decide
  by_cases small : m < leadingBit
  · exact ⟨0, m, by omega, .inl rfl, by omega⟩
  · have rest := Nat.mod_lt m positive
    have split := Nat.div_add_mod m leadingBit
    have least : 0 < m / leadingBit := Nat.div_pos (Nat.le_of_not_lt small) positive
    obtain ⟨spare, quotient⟩ := Nat.exists_eq_succ_of_ne_zero (Nat.ne_of_gt least)
    refine ⟨spare, leadingBit + m % leadingBit, ?_, .inr (Nat.le_add_right ..), by omega⟩
    rw [quotient] at split
    calc m = leadingBit * (spare + 1) + m % leadingBit := split.symm
      _ = spare * leadingBit + (leadingBit + m % leadingBit) := by ring

theorem log2_scaled {spare q : Nat} (low : spare = 0 ∨ leadingBit ≤ q) (high : q < 2 * leadingBit) :
    (q * 2 ^ spare).log2 - 52 = spare := by
  rw [leadingBit_eq] at low high
  by_cases zero : q = 0
  · subst zero
    rcases low with rfl | low
    · rfl
    · omega
  · have nonzero : q * 2 ^ spare ≠ 0 := Nat.mul_ne_zero zero (Nat.ne_of_gt (Nat.two_pow_pos spare))
    rcases low with rfl | low
    · have : (q * 2 ^ 0).log2 < 53 := (Nat.log2_lt nonzero).mpr (by omega)
      omega
    · have : (q * 2 ^ spare).log2 = spare + 52 := by
        apply (Nat.log2_eq_iff nonzero).mpr
        constructor
        · rw [Nat.pow_add, Nat.mul_comm]
          exact Nat.mul_le_mul_right _ low
        · rw [Nat.add_assoc, Nat.pow_add, Nat.mul_comm q]
          exact Nat.mul_lt_mul_of_pos_left (by omega) (Nat.two_pow_pos spare)
      omega

theorem divNearest_mul {q b : Nat} (positive : 0 < b) : divNearest (q * b) b = q := by
  rw [divNearest, Nat.mul_mod_left, Nat.mul_div_cancel _ positive]
  simp [positive]

theorem nearest_exact {num den m : Nat} (positive : 0 < den) (finite : m < infinity)
    (same : num <<< 1074 = units m * den) : nearest num den = m := by
  obtain ⟨spare, q, rfl, low, high⟩ := magnitude_eq m
  rw [units_scaled low (Nat.le_of_lt high)] at same
  have divisor : 0 < den * 2 ^ spare := Nat.mul_pos positive (Nat.two_pow_pos spare)
  have scaled : q * 2 ^ spare * den = q * (den * 2 ^ spare) := by ring
  rw [nearest, same, Nat.mul_div_cancel _ positive]
  simp only [log2_scaled low high]
  rw [Nat.shiftLeft_eq, scaled, divNearest_mul divisor]
  exact Nat.min_eq_right (Nat.le_of_lt finite)

theorem divNearest_bounds (a b : Nat) : a / b ≤ divNearest a b ∧ divNearest a b ≤ a / b + 1 := by
  have := Nat.mod_lt (a / b) (by decide : 0 < 2)
  simp only [divNearest]
  split
  · omega
  · split <;> omega

/-- A number that is cut to its 53 leading bits has all of them, up to a carry. -/
theorem divNearest_leading {n spare : Nat} (nonzero : n ≠ 0) (log : n.log2 = 52 + spare) :
    leadingBit ≤ divNearest n (1 <<< spare) ∧
      divNearest n (1 <<< spare) ≤ 2 * leadingBit := by
  obtain ⟨lower, upper⟩ := (Nat.log2_eq_iff nonzero).mp log
  rw [Nat.shiftLeft_eq, Nat.one_mul, leadingBit_eq]
  obtain ⟨above, below⟩ := divNearest_bounds n (2 ^ spare)
  have quotient_low : 2 ^ 52 ≤ n / 2 ^ spare := by
    rw [Nat.le_div_iff_mul_le (Nat.two_pow_pos spare), ← Nat.pow_add]
    exact lower
  have quotient_high : n / 2 ^ spare < 2 * 2 ^ 52 := by
    rw [Nat.div_lt_iff_lt_mul (Nat.two_pow_pos spare), ← Nat.pow_succ', ← Nat.pow_add]
    exact Nat.lt_of_lt_of_eq upper (congrArg (2 ^ ·) (by omega))
  omega

/-- The bits that a multiple of `2 ^ k` loses leave a multiple of `2 ^ k`. -/
theorem dvd_divNearest (n k spare : Nat) :
    1 <<< k ∣ divNearest (n <<< k) (1 <<< spare) * 2 ^ spare := by
  simp only [Nat.shiftLeft_eq, Nat.one_mul]
  by_cases exactly : spare ≤ k
  · have split : n * 2 ^ k = n * 2 ^ (k - spare) * 2 ^ spare := by
      rw [Nat.mul_assoc, ← Nat.pow_add, Nat.sub_add_cancel exactly]
    rw [split, divNearest_mul (Nat.two_pow_pos spare), ← split]
    exact Nat.dvd_mul_left ..
  · exact Nat.dvd_mul_left_of_dvd (Nat.pow_dvd_pow 2 (by omega)) _

theorem log2_shiftLeft_ge {n : Nat} (nonzero : n ≠ 0) (k : Nat) :
    n <<< k ≠ 0 ∧ k ≤ (n <<< k).log2 := by
  have power : 2 ^ k ≤ n <<< k := by
    rw [Nat.shiftLeft_eq]
    exact Nat.le_mul_of_pos_left _ (Nat.pos_of_ne_zero nonzero)
  have positive : n <<< k ≠ 0 := Nat.ne_of_gt (Nat.lt_of_lt_of_le (Nat.two_pow_pos k) power)
  exact ⟨positive, (Nat.le_log2 positive).mpr power⟩

theorem isWhole_iff {m : Nat} : isWhole m = true ↔ 1 <<< 1074 ∣ units m := by
  rw [isWhole, beq_iff_eq, Nat.dvd_iff_mod_eq_zero]

/-- Rounding a whole number drops no part of it below the unit. -/
theorem isWhole_nearest {num : Nat} (nonzero : num ≠ 0) (finite : nearest num 1 ≠ infinity) :
    isWhole (nearest num 1) = true := by
  obtain ⟨scaled, least⟩ := log2_shiftLeft_ge nonzero 1074
  obtain ⟨spare, log⟩ := Nat.exists_eq_add_of_le (Nat.le_trans (by decide : 52 ≤ 1074) least)
  obtain ⟨low, high⟩ := divNearest_leading scaled log
  have nearest_eq : nearest num 1 =
      min infinity (spare * leadingBit + divNearest (num <<< 1074) (1 <<< spare)) := by
    rw [nearest, Nat.div_one, log, Nat.add_sub_cancel_left]
  have inside : nearest num 1 =
      spare * leadingBit + divNearest (num <<< 1074) (1 <<< spare) := by
    omega
  rw [isWhole_iff, inside, units_scaled (.inr low) high]
  exact dvd_divNearest num 1074 spare

/-- A decimal without places never rounds to a number between whole ones. -/
theorem isWhole_nearestDecimal {digits zeros : Nat}
    (finite : nearestDecimal ⟨digits, .ofNat zeros⟩ ≠ infinity) :
    isWhole (nearestDecimal ⟨digits, .ofNat zeros⟩) = true := by
  unfold nearestDecimal at finite ⊢
  by_cases zero : digits = 0
  · simp only [zero, if_true]
    exact isWhole_iff.mpr (Nat.dvd_zero _)
  · simp only [zero, if_false] at finite ⊢
    by_cases huge : 400 ≤ zeros
    · simp [huge] at finite
    · simp only [huge, if_false] at finite ⊢
      exact isWhole_nearest (Nat.mul_ne_zero zero (Nat.ne_of_gt (Nat.pow_pos (by decide)))) finite

end FormCode.Binary64

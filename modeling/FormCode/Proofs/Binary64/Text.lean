import FormCode.Binary64.Text
import FormCode.Proofs.Binary64.Rounding
import FormCode.Proofs.Numeral.Digits

/-! Every finite number is read back from its literal, bit by bit. The infinities have texts of their
own. -/
namespace FormCode.Binary64

open Numeral

theorem ofMagnitude_magnitude (x : Binary64) : ofMagnitude x.isNegative x.magnitude = x := by
  obtain ⟨bits⟩ := x
  have bound := bits.toNat_lt
  have top : signBit = 2 ^ 63 := rfl
  simp only [ofMagnitude, isNegative, magnitude, mk.injEq, decide_eq_true_eq, top]
  apply UInt64.toNat_inj.mp
  rw [UInt64.toNat_ofNat']
  split <;> omega

theorem units_eq_zero {m : Nat} (h : units m = 0) : m = 0 := by
  obtain ⟨spare, q, rfl, low, high⟩ := magnitude_eq m
  rw [units_scaled low (Nat.le_of_lt high)] at h
  rcases Nat.mul_eq_zero.mp h with rfl | power
  · rcases low with rfl | low
    · rfl
    · simp [leadingBit_eq] at low
  · exact absurd power (Nat.ne_of_gt (Nat.two_pow_pos spare))

/-- Unless it has far more places than digits, a decimal with places is rounded as a fraction. -/
theorem nearestDecimal_places {digits places : Nat} (nonzero : digits ≠ 0)
    (near : 3 * (places + 1) ≤ digits.log2 + 1081) :
    nearestDecimal ⟨digits, .negSucc places⟩ = nearest digits (10 ^ (places + 1)) := by
  simp only [nearestDecimal, if_neg nonzero, if_neg (Nat.not_lt.mpr near)]
  rfl

theorem shiftRight_mul (k n : Nat) : ((1 <<< k) * n) >>> k = n := by
  rw [Nat.shiftRight_eq_div_pow, Nat.shiftLeft_eq, Nat.one_mul,
    Nat.mul_div_cancel_left _ (Nat.two_pow_pos k)]

theorem ten_mul_shiftLeft (n k : Nat) : (10 * n) <<< k = 1 <<< k * n * 10 := by
  rw [Nat.shiftLeft_eq, Nat.shiftLeft_eq]
  ring

theorem nearestDecimal_whole {m : Nat} (finite : m < infinity) (whole : isWhole m = true) :
    nearestDecimal ⟨10 * (units m >>> 1074), -1⟩ = m := by
  obtain ⟨n, count⟩ := isWhole_iff.mp whole
  have quotient : units m >>> 1074 = n := by
    rw [count, shiftRight_mul]
  by_cases zero : n = 0
  · subst zero
    rw [units_eq_zero count]
    rfl
  · have nonzero : 10 * n ≠ 0 := Nat.mul_ne_zero (by decide) zero
    rw [quotient]
    refine (@nearestDecimal_places (10 * n) 0 nonzero (by omega)).trans
      (nearest_exact (by decide) finite ?_)
    rw [count]
    exact ten_mul_shiftLeft n 1074

theorem ten_pow_pos (k : Nat) : 0 < 10 ^ k := Nat.pow_pos (by decide)

theorem shiftLeft_mul_five_pow (u k : Nat) : (u * 5 ^ k) <<< k = u * 10 ^ k := by
  rw [Nat.shiftLeft_eq, Nat.mul_assoc, ← Nat.mul_pow]

theorem mul_five_pow_ne_zero {u : Nat} (nonzero : u ≠ 0) (k : Nat) : u * 5 ^ k ≠ 0 :=
  Nat.mul_ne_zero nonzero (Nat.ne_of_gt (Nat.pow_pos (by decide)))

theorem log2_mul_five_pow {u : Nat} (nonzero : u ≠ 0) (k : Nat) : 2 * k ≤ (u * 5 ^ k).log2 := by
  apply (Nat.le_log2 (mul_five_pow_ne_zero nonzero k)).mpr
  calc 2 ^ (2 * k) = 4 ^ k := by rw [Nat.pow_mul]
    _ ≤ 5 ^ k := Nat.pow_le_pow_left (by decide) k
    _ ≤ u * 5 ^ k := Nat.le_mul_of_pos_left _ (Nat.pos_of_ne_zero nonzero)

theorem nearestDecimal_exact {m : Nat} (finite : m < infinity) (nonzero : units m ≠ 0) :
    nearestDecimal (exact m) = m := by
  have log := log2_mul_five_pow nonzero 1074
  have near : 3 * (1073 + 1) ≤ (units m * Nat.pow 5 1074).log2 + 1081 :=
    Nat.le_trans (by decide) (Nat.add_le_add_right log 1081)
  have rounded := nearestDecimal_places (mul_five_pow_ne_zero nonzero 1074) near
  exact rounded.trans (nearest_exact (ten_pow_pos (1073 + 1)) finite (shiftLeft_mul_five_pow _ 1074))

theorem onGrid?_nearest {m length n : Nat} {d short : Decimal}
    (h : onGrid? m d length n = some short) : nearestDecimal short = m := by
  simp only [onGrid?] at h
  split at h
  · split at h
    · cases h
      simp_all
    · cases h
      assumption
  · split at h
    · cases h
      assumption
    · contradiction

/-- The shortest decimal is one that reads back, also where no short one does. -/
theorem nearestDecimal_shortest {m : Nat} (finite : m < infinity) (nonzero : units m ≠ 0) :
    nearestDecimal (shortest m) = m := by
  simp only [shortest]
  generalize found : List.findSome? _ _ = best
  cases best with
  | none => exact nearestDecimal_exact finite nonzero
  | some short =>
    obtain ⟨n, _, grid⟩ := List.exists_of_findSome?_eq_some found
    exact onGrid?_nearest grid

/-- A literal has digits on both sides of a point, and they round to the magnitude. -/
theorem literal_eq {x : Binary64} (finite : x.isFinite = true) : ∃ whole places,
    x.literal = x.sign ++ (whole ++ '.' :: places) ∧ whole ≠ [] ∧
      (∀ c ∈ whole ++ places, c.isDigit = true) ∧
      nearestDecimal ⟨ofDigits (whole ++ places), -places.length⟩ = x.magnitude := by
  have bound : x.magnitude < infinity := by simpa [isFinite] using finite
  have number : x.isNaN = false := by simp [isNaN]; omega
  have known : x.magnitude ≠ infinity := by omega
  by_cases whole : isWhole x.magnitude = true
  · refine ⟨toDigits (units x.magnitude >>> 1074), ['0'], ?_, toDigits_ne_nil _, ?_, ?_⟩
    · simp [literal, number, known, whole]
    · intro c member
      rcases List.mem_append.mp member with member | member
      · exact isDigit_of_mem_toDigits member
      · cases List.mem_singleton.mp member
        rfl
    · rw [ofDigits, Nat.ofDigitChars_append, ← ofDigits, ofDigits_toDigits]
      exact nearestDecimal_whole bound whole
  · have nonzero : units x.magnitude ≠ 0 := by
      intro zero
      exact whole (isWhole_iff.mpr (zero ▸ Nat.dvd_zero _))
    have back := nearestDecimal_shortest bound nonzero
    have positional : x.literal = x.sign ++ (shortest x.magnitude).positional := by
      simp [literal, number, known, whole]
    cases short : shortest x.magnitude with
    | mk digits exponent =>
      rw [short] at back positional
      cases exponent with
      | ofNat zeros =>
        have between := isWhole_nearestDecimal (by rw [back]; exact known)
        rw [back] at between
        exact absurd between whole
      | negSucc places =>
        obtain ⟨before, after, split, joined, first, length⟩ :=
          Decimal.withPlaces_eq digits (places + 1)
        refine ⟨before, after, by rw [positional, ← split]; rfl, first, ?_, ?_⟩
        · rw [joined]
          exact fun _ => Decimal.isDigit_of_mem_padded
        · rw [joined, length, Decimal.padded, ofDigits_zeros_append, ofDigits_toDigits]
          exact back

theorem ofNumeral_literal {x : Binary64} (finite : x.isFinite = true) : ofNumeral x.literal = x := by
  obtain ⟨whole, places, written, first, digits, nearest⟩ := literal_eq finite
  have whole_digits : ∀ c ∈ whole, c.isDigit = true :=
    fun c member => digits c (List.mem_append_left _ member)
  have place_digits : ∀ c ∈ places, c.isDigit = true :=
    fun c member => digits c (List.mem_append_right _ member)
  have split : splitSign x.literal = (x.isNegative, whole ++ '.' :: places) := by
    rw [written, sign]
    cases x.isNegative with
    | true => rfl
    | false => exact splitSign_digits whole_digits _ first
  rw [ofNumeral, split]
  simp only [Decimal.ofNumeral_point whole_digits place_digits, nearest, ofMagnitude_magnitude]

theorem isNaN_of_isFinite {x : Binary64} (finite : x.isFinite = true) : x.isNaN = false := by
  have bound : x.magnitude < infinity := by simpa [isFinite] using finite
  simp [isNaN, Nat.le_of_lt bound]

theorem mem_literal {x : Binary64} (finite : x.isFinite = true) {c : Char}
    (member : c ∈ x.literal) : c = '-' ∨ c = '.' ∨ c.isDigit = true := by
  obtain ⟨whole, places, written, -, digits, -⟩ := literal_eq finite
  rw [written, List.mem_append, List.mem_append, List.mem_cons] at member
  rcases member with sign | before | point | behind
  · unfold Binary64.sign at sign
    split at sign
    · exact .inl (List.mem_singleton.mp sign)
    · contradiction
  · exact .inr (.inr (digits c (List.mem_append_left _ before)))
  · exact .inr (.inl point)
  · exact .inr (.inr (digits c (List.mem_append_right _ behind)))

theorem literal_infinity {x : Binary64} (number : x.isNaN = false) (infinite : x.isFinite = false) :
    x.magnitude = infinity ∧ x.literal = '#' :: '#' :: (x.sign ++ ['I', 'n', 'f']) := by
  have large : infinity ≤ x.magnitude := by simpa [isFinite] using infinite
  have bound : x.magnitude ≤ infinity := by simpa [isNaN] using number
  have same := Nat.le_antisymm bound large
  exact ⟨same, by simp [literal, number, same]⟩

theorem sign_injective {x y : Binary64} (same : x.sign = y.sign) :
    x.isNegative = y.isNegative := by
  unfold sign at same
  cases hx : x.isNegative <;> cases hy : y.isNegative <;> simp_all

theorem literal_ne {x y : Binary64} (number : x.isNaN = false) (infinite : x.isFinite = false)
    (finite : y.isFinite = true) : x.literal ≠ y.literal := by
  intro same
  have mark : '#' ∈ y.literal := by simp [← same, (literal_infinity number infinite).2]
  have := mem_literal finite mark
  contradiction

/-- Only NaNs share their text. -/
theorem literal_injective {x y : Binary64} (hx : x.isNaN = false) (hy : y.isNaN = false)
    (same : x.literal = y.literal) : x = y := by
  cases fx : x.isFinite with
  | true =>
    cases fy : y.isFinite with
    | true => rw [← ofNumeral_literal fx, same, ofNumeral_literal fy]
    | false => exact absurd same.symm (literal_ne hy fy fx)
  | false =>
    cases fy : y.isFinite with
    | true => exact absurd same (literal_ne hx fx fy)
    | false =>
      obtain ⟨magnitude, text⟩ := literal_infinity hx fx
      obtain ⟨magnitude', text'⟩ := literal_infinity hy fy
      have signs : x.sign = y.sign := by simpa [text, text'] using same
      rw [← ofMagnitude_magnitude x, ← ofMagnitude_magnitude y, magnitude, magnitude',
        sign_injective signs]

end FormCode.Binary64

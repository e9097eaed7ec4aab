import FormCode.Numeral.Decimal

/-! Integers of 64 bits are read back from their numerals, natural numbers from their digits to base
10 and 16. A fraction is written as digits around a point, and its numeral has the number of all its
digits. -/
namespace FormCode

namespace Numeral

theorem toDigits_ne_nil (n : Nat) : toDigits n ≠ [] := Nat.toDigits_ne_nil

theorem isDigit_of_mem_toDigits {n : Nat} {c : Char} (member : c ∈ toDigits n) :
    c.isDigit = true :=
  Nat.isDigit_of_mem_toDigits (by decide) (by decide) member

theorem ofDigits_toDigits (n : Nat) : ofDigits (toDigits n) = n := Nat.ofDigitChars_ten_toDigits

theorem toDigits_injective {n k : Nat} (same : toDigits n = toDigits k) : n = k := by
  have read := congrArg ofDigits same
  rwa [ofDigits_toDigits, ofDigits_toDigits] at read

theorem ofDigits_zeros_append (zeros : Nat) (digits : List Char) :
    ofDigits (List.replicate zeros '0' ++ digits) = ofDigits digits := by
  rw [ofDigits, Nat.ofDigitChars_append, Nat.ofDigitChars_replicate_zero, Nat.mul_zero, ofDigits]

theorem splitSign_of_isDigit {c : Char} {text : List Char} (h : c.isDigit = true) :
    splitSign (c :: text) = (false, c :: text) := by
  unfold splitSign
  split
  · rename_i same
    cases same
    simp at h
  · rename_i same
    cases same
    simp at h
  · rfl

theorem splitSign_digits {digits : List Char} (h : ∀ c ∈ digits, c.isDigit = true)
    (rest : List Char) (first : digits ≠ []) :
    splitSign (digits ++ rest) = (false, digits ++ rest) := by
  obtain ⟨c, digits, rfl⟩ := List.exists_cons_of_ne_nil first
  exact splitSign_of_isDigit (h c (by simp))

theorem unsigned_digits {digits : List Char} (h : ∀ c ∈ digits, c.isDigit = true) :
    unsigned digits = ofDigits digits := by
  unfold unsigned
  split
  · have := h 'x' (by simp)
    contradiction
  · have := h 'X' (by simp)
    contradiction
  · rfl

theorem integer_ofInt (n : Int) : integer (ofInt n) = n := by
  have digits : ∀ c ∈ toDigits n.natAbs, c.isDigit = true := fun _ => isDigit_of_mem_toDigits
  by_cases negative : n < 0
  · rw [integer, ofInt, if_pos negative, splitSign, unsigned_digits digits, ofDigits_toDigits,
      signed, if_pos rfl]
    omega
  · have split := splitSign_digits digits [] (toDigits_ne_nil _)
    rw [List.append_nil] at split
    rw [integer, ofInt, if_neg negative, split, unsigned_digits digits, ofDigits_toDigits, signed]
    simp
    omega

theorem toInt_sizeWord? {size : Nat} {word : BitVec 128} (h : sizeWord? size = some word) :
    word.toInt = size := by
  unfold sizeWord? at h
  split at h
  case isTrue small =>
    cases h
    rw [BitVec.toInt_ofNat']
    apply Int.bmod_eq_of_le <;> omega
  case isFalse => contradiction

/-- Sizes are not negative, so there is no size whose opposite is missing among the words. -/
theorem toInt_neg_sizeWord? {size : Nat} {word : BitVec 128} (h : sizeWord? size = some word) :
    (-word).toInt = -word.toInt := by
  have same := toInt_sizeWord? h
  have bound := @BitVec.toInt_lt 128 word
  rw [BitVec.toInt_neg]
  apply Int.bmod_eq_of_le <;> omega

/-- No integer of 64 bits is lost because its size has no word. -/
theorem narrow?_signed (negative : Bool) (size : Nat) :
    ((sizeWord? size).bind fun word => narrow? (if negative then -word else word)) =
      if Int64.minValue.toInt ≤ signed negative size ∧
          signed negative size ≤ Int64.maxValue.toInt then
        some (Int64.ofInt (signed negative size))
      else none := by
  cases word : sizeWord? size with
  | some w =>
    have value : (if negative then -w else w).toInt = signed negative size := by
      cases negative with
      | true => exact (toInt_neg_sizeWord? word).trans (congrArg _ (toInt_sizeWord? word))
      | false => exact toInt_sizeWord? word
    simp only [Option.bind_some, narrow?, value]
  | none =>
    have large : ¬ size < 1 <<< 127 := by
      intro small
      rw [sizeWord?, if_pos small] at word
      contradiction
    have least : Int64.minValue.toInt = -9223372036854775808 := rfl
    have greatest : Int64.maxValue.toInt = 9223372036854775807 := rfl
    rw [Option.bind_none, if_neg]
    cases negative <;> simp only [signed] <;> omega

theorem int64?_eq (text : List Char) : int64? text =
    if Int64.minValue.toInt ≤ integer text ∧ integer text ≤ Int64.maxValue.toInt then
      some (Int64.ofInt (integer text))
    else none :=
  narrow?_signed _ _

theorem int64?_ofInt (n : Int64) : int64? (ofInt n.toInt) = some n := by
  rw [int64?_eq, integer_ofInt, if_pos ⟨n.minValue_le_toInt, n.toInt_le⟩, Int64.ofInt_toInt]

/-- To base 16 a number is its digit, or a smaller number and one more digit. -/
theorem hexDigits_cases (n : Nat) :
    (n < 16 ∧ Nat.toDigits 16 n = [n.digitChar]) ∨
      (n / 16 < n ∧ Nat.toDigits 16 n = Nat.toDigits 16 (n / 16) ++ [(n % 16).digitChar]) := by
  rw [Nat.toDigits_eq_if (by decide)]
  split
  case isTrue small => exact .inl ⟨small, rfl⟩
  case isFalse => exact .inr ⟨by omega, rfl⟩

theorem hexDigit_digitChar : ∀ n < 16, isHexDigit n.digitChar = true ∧ hexDigit n.digitChar = n := by
  decide

theorem isHexDigit_of_mem_toDigits {n : Nat} {c : Char} (member : c ∈ Nat.toDigits 16 n) :
    isHexDigit c = true := by
  induction n using Nat.strongRecOn with
  | ind n ih =>
    have last := hexDigit_digitChar (n % 16) (Nat.mod_lt n (by decide))
    obtain ⟨small, digits⟩ | ⟨less, digits⟩ := hexDigits_cases n
    · rw [digits, ← Nat.mod_eq_of_lt small, List.mem_singleton] at member
      exact member ▸ last.1
    · rw [digits, List.mem_append, List.mem_singleton] at member
      rcases member with member | rfl
      · exact ih _ less member
      · exact last.1

theorem ofHexDigits_toDigits (n : Nat) : ofHexDigits (Nat.toDigits 16 n) = n := by
  induction n using Nat.strongRecOn with
  | ind n ih =>
    obtain ⟨small, digits⟩ | ⟨less, digits⟩ := hexDigits_cases n
    · rw [digits, ofHexDigits, List.foldl_cons, List.foldl_nil, (hexDigit_digitChar n small).2]
      omega
    · have others := ih _ less
      have last := hexDigit_digitChar (n % 16) (Nat.mod_lt n (by decide))
      rw [ofHexDigits] at others
      rw [digits, ofHexDigits, List.foldl_append, others, List.foldl_cons, List.foldl_nil, last.2]
      omega

end Numeral

namespace Decimal

open Numeral

theorem takeWhile_digits {digits rest : List Char} (h : ∀ c ∈ digits, c.isDigit = true)
    (stop : ∀ c ∈ rest.head?, c.isDigit = false) :
    (digits ++ rest).takeWhile Char.isDigit = digits := by
  rw [List.takeWhile_append_of_pos h]
  cases rest with
  | nil => simp
  | cons c rest => simp [stop c rfl]

theorem dropWhile_digits {digits rest : List Char} (h : ∀ c ∈ digits, c.isDigit = true)
    (stop : ∀ c ∈ rest.head?, c.isDigit = false) :
    (digits ++ rest).dropWhile Char.isDigit = rest := by
  rw [List.dropWhile_append_of_pos h]
  cases rest with
  | nil => rfl
  | cons c rest => simp [stop c rfl]

theorem ofNumeral_point {whole places : List Char} (whole_digits : ∀ c ∈ whole, c.isDigit = true)
    (place_digits : ∀ c ∈ places, c.isDigit = true) :
    ofNumeral (whole ++ '.' :: places) = ⟨ofDigits (whole ++ places), -places.length⟩ := by
  have point : ∀ c ∈ ('.' :: places).head?, c.isDigit = false := by simp
  have after : places.dropWhile Char.isDigit = [] := by
    simpa using @dropWhile_digits places [] place_digits (by simp)
  have before : places.takeWhile Char.isDigit = places := by
    simpa using @takeWhile_digits places [] place_digits (by simp)
  simp [ofNumeral, takeWhile_digits whole_digits point, dropWhile_digits whole_digits point, after,
    before, splitSign, signed, ofDigits]

/-- The digits of a fraction, with as many zeros in front as its places ask for. -/
def padded (digits places : Nat) : List Char :=
  List.replicate (places + 1 - (toDigits digits).length) '0' ++ toDigits digits

theorem isDigit_of_mem_padded {digits places : Nat} {c : Char}
    (member : c ∈ padded digits places) : c.isDigit = true := by
  rcases List.mem_append.mp member with member | member
  · cases (List.mem_replicate.mp member).2
    rfl
  · exact isDigit_of_mem_toDigits member

theorem places_lt_length_padded (digits places : Nat) : places < (padded digits places).length := by
  have := List.length_pos_iff.mpr (toDigits_ne_nil digits)
  rw [padded, List.length_append, List.length_replicate]
  omega

theorem withPlaces_eq (digits places : Nat) : ∃ whole fraction,
    withPlaces digits places = whole ++ '.' :: fraction ∧ whole ++ fraction = padded digits places ∧
      whole ≠ [] ∧ fraction.length = places := by
  have bound := places_lt_length_padded digits places
  refine ⟨(padded digits places).take ((padded digits places).length - places),
    (padded digits places).drop ((padded digits places).length - places), rfl,
    List.take_append_drop .., ?_, ?_⟩
  · intro none
    have := congrArg List.length none
    rw [List.length_take, List.length_nil] at this
    omega
  · rw [List.length_drop]
    omega

end Decimal

end FormCode

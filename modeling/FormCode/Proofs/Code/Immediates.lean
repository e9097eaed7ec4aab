import FormCode.Proofs.Code.Body
import Mathlib

/-! Which constants stand in the instruction itself. The limits of a width are computed in words of
64 bits, and no step of that computation overflows; so an integer is inlined exactly if it lies in
the range of the width, for every width. Of all other values only bare host objects can be refused,
and what is neither inlined nor refused is pooled. -/
namespace FormCode.Code.Target

theorem toInt_one_shiftLeft {k : Int64} {n : Nat} (amount : k.toBitVec.toNat = n) (small : n < 63) :
    ((1 : Int64) <<< k).toInt = 2 ^ n := by
  have positive : k.toBitVec.msb = false := by
    rw [BitVec.msb_eq_false_iff_two_mul_lt]
    omega
  have reduced : (k.toBitVec.smod 64).toNat = n := by
    rw [BitVec.smod_eq, positive]
    change (k.toBitVec.umod (64#64)).toNat = n
    rw [BitVec.umod_eq, BitVec.toNat_umod, amount]
    exact Nat.mod_eq_of_lt (by simp; omega)
  have power : ((1 : Int64) <<< k).toBitVec = BitVec.twoPow 64 n := by
    rw [Int64.toBitVec_shiftLeft, BitVec.shiftLeft_eq', reduced]
    rfl
  rw [← Int64.toInt_toBitVec, power, BitVec.toInt_twoPow, if_neg (by omega), if_neg (by omega)]

/-- The limits of a width are computed without an overflow: each step has the result that it has
over the integers. -/
structure Exact (bits : UInt32) : Prop where
  amount : (bits - 1).toNat = bits.toNat - 1
  shift : (halfRange bits).toInt = 2 ^ (bits.toNat - 1)
  greatest : (greatestInt bits).toInt = (halfRange bits).toInt - 1
  opposite : (-greatestInt bits).toInt = -(greatestInt bits).toInt
  least : (leastInt bits).toInt = (-greatestInt bits).toInt - 1

theorem exact_of_narrow {bits : UInt32} (positive : 1 ≤ bits.toNat) (narrow : bits.toNat < 64) :
    Exact bits := by
  have amount : (bits - 1).toNat = bits.toNat - 1 :=
    UInt32.toNat_sub_of_le _ _ (UInt32.le_iff_toNat_le.mpr positive)
  have shift : (halfRange bits).toInt = 2 ^ (bits.toNat - 1) :=
    toInt_one_shiftLeft amount (by omega)
  have lower : (1 : Int) ≤ 2 ^ (bits.toNat - 1) := one_le_pow₀ (by decide)
  have upper : (2 : Int) ^ (bits.toNat - 1) ≤ 2 ^ 62 := pow_le_pow_right₀ (by decide) (by omega)
  have one : (1 : Int64).toInt = 1 := rfl
  have greatest : (greatestInt bits).toInt = (halfRange bits).toInt - 1 := by
    rw [greatestInt, Int64.toInt_sub, one]
    apply Int.bmod_eq_of_le <;> omega
  have opposite : (-greatestInt bits).toInt = -(greatestInt bits).toInt := by
    rw [Int64.toInt_neg]
    apply Int.bmod_eq_of_le <;> omega
  refine ⟨amount, shift, greatest, opposite, ?_⟩
  rw [leastInt, Int64.toInt_sub, one]
  apply Int.bmod_eq_of_le <;> omega

/-- An integer fits if it has a place in two's complement of the target's width. -/
theorem fitsInt_iff {t : Target} {n : Int64} : t.fitsInt n = true ↔ 1 ≤ t.intBits.toNat ∧
    -2 ^ (t.intBits.toNat - 1) ≤ n.toInt ∧ n.toInt ≤ 2 ^ (t.intBits.toNat - 1) - 1 := by
  have zero : t.intBits = 0 ↔ t.intBits.toNat = 0 := UInt32.toNat_inj.symm
  have wide : 64 ≤ t.intBits ↔ 64 ≤ t.intBits.toNat := UInt32.le_iff_toNat_le
  simp only [fitsInt, zero, wide]
  by_cases none : t.intBits.toNat = 0
  · simp [none]
  by_cases all : 64 ≤ t.intBits.toNat
  · -- the range of the width has the whole range of words in it
    have power : (2 : Int) ^ 63 ≤ 2 ^ (t.intBits.toNat - 1) :=
      pow_le_pow_right₀ (by decide) (by omega)
    have lower := n.le_toInt
    have upper := n.toInt_lt
    simp only [none, all, if_true, if_false, true_iff]
    omega
  · have exactly := exact_of_narrow (Nat.pos_of_ne_zero none) (Nat.lt_of_not_le all)
    simp only [none, all, if_false, decide_eq_true_iff, Int64.le_iff_toInt_le, exactly.least,
      exactly.opposite, exactly.greatest, exactly.shift]
    omega

/-- The constants that the target has room for in an instruction. -/
inductive Inlines (t : Target) : Value → Prop
  | nil : Inlines t .nil
  | bool : Inlines t (.atom (.bool b))
  | int (positive : 1 ≤ t.intBits.toNat) (least : -2 ^ (t.intBits.toNat - 1) ≤ n.toInt)
    (greatest : n.toInt ≤ 2 ^ (t.intBits.toNat - 1) - 1) : Inlines t (.atom (.int n))
  | float (allowed : t.floats = true) : Inlines t (.atom (.float x))
  | char (allowed : t.chars = true) : Inlines t (.atom (.char c))

theorem inlines_int_iff {t : Target} {n : Int64} :
    t.Inlines (.atom (.int n)) ↔ t.fitsInt n = true := by
  rw [fitsInt_iff]
  constructor
  · intro h
    cases h with
    | int positive least greatest => exact ⟨positive, least, greatest⟩
  · rintro ⟨positive, least, greatest⟩
    exact .int positive least greatest

theorem inlines_float_iff {t : Target} {x : Binary64} :
    t.Inlines (.atom (.float x)) ↔ t.floats = true := by
  constructor
  · intro h
    cases h with
    | float allowed => exact allowed
  · exact .float

theorem inlines_char_iff {t : Target} {c : Char} :
    t.Inlines (.atom (.char c)) ↔ t.chars = true := by
  constructor
  · intro h
    cases h with
    | char allowed => exact allowed
  · exact .char

inductive Encodes (t : Target) : Value → Except Unrepresentable Encoding → Prop
  | immediate (inlined : t.Inlines i.value) : Encodes t i.value (.ok (.immediate i))
  | pooled (boxed : ¬ t.Inlines value)
    (embedded : ∀ handle, value = .object handle → t.hostObjects = true) :
    Encodes t value (.ok .pooled)
  | refused (without : t.hostObjects = false) :
    Encodes t (.object handle) (.error ⟨handle.typeName, t.name⟩)

/-- Where only the target decides whether a value fits, the value is pooled if it does not. -/
theorem encodes_of_allowed {t : Target} {i : Immediate} {allowed : Bool}
    (fits : t.Inlines i.value ↔ allowed = true)
    (encoding : t.encoding i.value i.value.kind? =
      .ok (if allowed then .immediate i else .pooled)) :
    Encodes t i.value (t.encoding i.value i.value.kind?) := by
  rw [encoding]
  cases allowed with
  | true => exact .immediate (fits.mpr rfl)
  | false =>
    refine .pooled (by simp [fits]) fun handle same => ?_
    cases i <;> contradiction

theorem encodes_encoding (t : Target) (value : Value) :
    Encodes t value (t.encoding value value.kind?) := by
  cases value with
  | atom a =>
    cases a with
    | nil => exact .immediate (i := .nil) .nil
    | bool b => exact .immediate (i := .bool b) .bool
    | int n =>
      apply encodes_of_allowed (i := .int n) inlines_int_iff
      simp only [encoding, Immediate.value, Value.kind?, Atom.kind?, immediate?]
      cases t.fitsInt n <;> rfl
    | float x =>
      apply encodes_of_allowed (i := .float x) inlines_float_iff
      simp only [encoding, Immediate.value, Value.kind?, Atom.kind?, immediate?]
      cases t.floats <;> rfl
    | char c =>
      apply encodes_of_allowed (i := .char c) inlines_char_iff
      simp only [encoding, Immediate.value, Value.kind?, Atom.kind?, immediate?]
      cases t.chars <;> rfl
    | string | keyword | symbol => exact .pooled (by rintro ⟨⟩) (by simp)
  | object handle =>
    cases without : t.hostObjects with
    | true =>
      have pooled : t.encoding (.object handle) (some (.object handle.typeName)) = .ok .pooled := by
        simp [encoding, without]
      rw [Value.kind?, pooled]
      exact .pooled (by rintro ⟨⟩) fun _ _ => without
    | false =>
      have refused : t.encoding (.object handle) (some (.object handle.typeName)) =
          .error ⟨handle.typeName, t.name⟩ := by
        simp [encoding, without]
      rw [Value.kind?, refused]
      exact .refused without
  | list | vector | map => exact .pooled (by rintro ⟨⟩) (by simp)

theorem inlines_iff_immediate {t : Target} {value : Value} :
    t.Inlines value ↔ ∃ i, t.encoding value value.kind? = .ok (.immediate i) := by
  have encodes := encodes_encoding t value
  generalize t.encoding value value.kind? = result at encodes
  cases encodes with
  | immediate inlined => simp [inlined]
  | pooled boxed => simp [boxed]
  | refused =>
    simp only [reduceCtorEq, exists_false, iff_false]
    rintro ⟨⟩

theorem encoding_pooled_iff {t : Target} {value : Value} :
    t.encoding value value.kind? = .ok .pooled ↔ ¬ t.Inlines value ∧
      ∀ handle, value = .object handle → t.hostObjects = true := by
  have encodes := encodes_encoding t value
  generalize t.encoding value value.kind? = result at encodes
  cases encodes with
  | immediate inlined => simp [inlined]
  | pooled boxed embedded => simpa [boxed] using embedded
  | refused without => simp [without]

/-- Whatever kind a constant is taken for, it is inlined as itself. Taken for what it is, it is
inlined exactly if the target has room for it, refused exactly if it is a host object that the
target has none of, and pooled otherwise. The limits for integers are the exact ones. -/
theorem encoding_exact (t : Target) :
    (∀ value kind? i, t.encoding value kind? = .ok (.immediate i) → i.value = value) ∧
    (∀ value, (∃ i, t.encoding value value.kind? = .ok (.immediate i)) ↔ t.Inlines value) ∧
    (∀ value constant, t.encoding value value.kind? = .error constant ↔ t.hostObjects = false ∧
      ∃ handle, value = .object handle ∧ constant = ⟨handle.typeName, t.name⟩) ∧
    (∀ value, t.encoding value value.kind? = .ok .pooled ↔ ¬ t.Inlines value ∧
      ∀ handle, value = .object handle → t.hostObjects = true) ∧
    (1 ≤ t.intBits.toNat → t.intBits.toNat < 64 → Exact t.intBits) :=
  ⟨fun _ _ _ => encoding_immediate_value, fun _ => inlines_iff_immediate.symm,
    fun _ _ => encoding_error_iff, fun _ => encoding_pooled_iff, exact_of_narrow⟩

/-- At a width of 63 bits the least integer is inlined and the one below it is pooled. -/
theorem encoding_exact_edge :
    let t : Target := ⟨"wide", 63, false, false, false, false⟩
    Exact t.intBits ∧
      (∃ i, t.encoding (.atom (.int (-4611686018427387904))) (some .long) = .ok (.immediate i)) ∧
      t.encoding (.atom (.int (-4611686018427387905))) (some .long) = .ok .pooled := by
  intro t
  obtain ⟨-, inlined, -, pooled, exactly⟩ := encoding_exact t
  refine ⟨exactly (by decide) (by decide), (inlined _).mpr (.int ?_ ?_ ?_), (pooled _).mpr ⟨?_, ?_⟩⟩
  · decide
  · decide
  · decide
  · rintro ⟨⟩
    contradiction
  · simp

end FormCode.Code.Target

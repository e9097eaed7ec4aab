import FormCode.Proofs.Value.Distinct
import FormCode.Value.Hash

/-! The order of the entries of a map does not show in what a hasher is given, and so a hash never
keeps an equal key from being found. -/
namespace FormCode

namespace Value

section

variable (digest : List HashInput → UInt64)

theorem itemInputs_append (xs ys : List Value) :
    itemInputs digest (xs ++ ys) = itemInputs digest xs ++ itemInputs digest ys := by
  induction xs with
  | nil => rfl
  | cons x xs ih => simp only [List.cons_append, itemInputs, ih, List.append_assoc]

theorem entrySum_append (es fs : List (Value × Value)) :
    entrySum digest (es ++ fs) = entrySum digest es + entrySum digest fs := by
  induction es with
  | nil => simp [entrySum]
  | cons e es ih => simp only [List.cons_append, entrySum, ih, UInt64.add_assoc]

theorem entrySum_perm {es fs : List (Value × Value)} (perm : es.Perm fs) :
    entrySum digest es = entrySum digest fs := by
  induction perm with
  | nil => rfl
  | cons e _ ih => simp only [entrySum, ih]
  | swap e f es => simp only [entrySum, ← UInt64.add_assoc, UInt64.add_comm]
  | trans _ _ ih ih' => exact ih.trans ih'

/-- A hasher does not notice that the entries of one map change places. -/
theorem hashInputs_of_reorders {v w : Value} (h : Reorders v w) :
    hashInputs digest v = hashInputs digest w := by
  induction h with
  | entries perm => simp only [hashInputs, perm.length_eq, entrySum_perm digest perm]
  | item _ ih | element _ ih =>
    simp only [hashInputs, itemInputs_append, itemInputs, ih, List.length_append, List.length_cons]
  | key _ ih | value _ ih =>
    simp only [hashInputs, entrySum_append, entrySum, ih, List.length_append, List.length_cons]

theorem hashInputs_of_reordered {v w : Value} (h : Reordered v w) :
    hashInputs digest v = hashInputs digest w := by
  induction h with
  | refl => rfl
  | tail _ reorders ih => exact ih.trans (hashInputs_of_reorders digest reorders)

/-- Equal values have equal hashes, as long as no map repeats a key. -/
theorem hashInputs_of_same {v w : Value} (left : v.Distinct) (right : w.Distinct)
    (h : (v == w) = true) : hashInputs digest v = hashInputs digest w :=
  hashInputs_of_reordered digest ((same_iff_reordered left right).mp h)

end

end Value

namespace Hashing

theorem finds_eq_same (hashing : Hashing) {value key : Value} (left : value.Distinct)
    (right : key.Distinct) : hashing.finds value key = (value == key) := by
  cases equal : value == key with
  | false => simp [finds, equal]
  | true => simp [finds, equal, hash, Value.hashInputs_of_same hashing.entries left right equal]

/-- Where a key repeats, a hash can keep an equal key from being found. -/
example :
    let v : Value := .map [(.atom (.int 1), .nil), (.atom (.int 1), .nil)]
    let w : Value := .map [(.atom (.int 1), .nil), (.atom (.int 2), .nil)]
    (v == w) = true ∧ polynomial.finds v w = false := by
  intro v w
  exact ⟨by cbv, by cbv⟩

end Hashing

end FormCode

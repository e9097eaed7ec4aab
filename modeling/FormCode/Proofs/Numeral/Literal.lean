import FormCode.Proofs.Numeral.Digits
import Mathlib

/-! Integer numerals as they may be written, and the integers that they stand for. A numeral is
given by its parts; its value is that of its digits at their places, and says nothing about how
numerals are read. Reading them gives this value. -/
namespace FormCode.Numeral

inductive Sign where
  | none
  | plus
  | minus
  deriving DecidableEq, Repr

def Sign.text : Sign → List Char
  | .none => []
  | .plus => ['+']
  | .minus => ['-']

def Sign.apply : Sign → Nat → Int
  | .none, size | .plus, size => size
  | .minus, size => -size

inductive Base where
  | decimal
  /-- Marked by an `x`, or by a capital one. -/
  | hexadecimal (capital : Bool)
  deriving DecidableEq, Repr

def Base.radix : Base → Nat
  | .decimal => 10
  | .hexadecimal _ => 16

def Base.mark : Base → List Char
  | .decimal => []
  | .hexadecimal false => ['0', 'x']
  | .hexadecimal true => ['0', 'X']

def smallDigits : List Char :=
  ['0', '1', '2', '3', '4', '5', '6', '7', '8', '9', 'a', 'b', 'c', 'd', 'e', 'f']

def capitalDigits : List Char :=
  ['0', '1', '2', '3', '4', '5', '6', '7', '8', '9', 'A', 'B', 'C', 'D', 'E', 'F']

/-- The place of a digit in its row. What is no digit gets 16. -/
def digitValue (c : Char) : Nat := min (smallDigits.idxOf c) (capitalDigits.idxOf c)

structure Literal where
  sign : Sign
  base : Base
  digits : List Char
  nonempty : digits ≠ []
  known : ∀ c ∈ digits, digitValue c < base.radix

namespace Literal

def text (l : Literal) : List Char := l.sign.text ++ (l.base.mark ++ l.digits)

def size (l : Literal) : Nat := Nat.ofDigits l.base.radix (l.digits.reverse.map digitValue)

def value (l : Literal) : Int := l.sign.apply l.size

def pad (l : Literal) (zeros : Nat) : Literal where
  sign := l.sign
  base := l.base
  digits := List.replicate zeros '0' ++ l.digits
  nonempty := by simp [l.nonempty]
  known := by
    intro c member
    rcases List.mem_append.mp member with member | member
    · obtain rfl := (List.mem_replicate.mp member).2
      cases l.base with
      | decimal => decide
      | hexadecimal _ => exact (by decide : digitValue '0' < 16)
    · exact l.known c member

theorem value_pad (l : Literal) (zeros : Nat) : (l.pad zeros).value = l.value := by
  have zero : digitValue '0' = 0 := by decide
  have size : (l.pad zeros).size = l.size := by
    simp only [Literal.size, pad, List.reverse_append, List.reverse_replicate, List.map_append,
      List.map_replicate, zero]
    exact Nat.ofDigits_append_replicate_zero _
  exact congrArg l.sign.apply size

end Literal

theorem mem_of_digitValue_lt {c : Char} (h : digitValue c < 16) :
    c ∈ smallDigits ++ capitalDigits := by
  rw [digitValue, min_lt_iff] at h
  exact List.mem_append.mpr (h.imp List.idxOf_lt_length_iff.mp List.idxOf_lt_length_iff.mp)

theorem hexDigit_eq {c : Char} (h : digitValue c < 16) :
    isHexDigit c = true ∧ hexDigit c = digitValue c := by
  have all : (smallDigits ++ capitalDigits).all
      (fun c => isHexDigit c && hexDigit c == digitValue c) = true := by decide
  simpa using List.all_eq_true.mp all c (mem_of_digitValue_lt h)

theorem digit_eq {c : Char} (h : digitValue c < 10) :
    c.isDigit = true ∧ c.toNat - '0'.toNat = digitValue c := by
  have all : (smallDigits ++ capitalDigits).all
      (fun c => decide (digitValue c < 10 →
        c.isDigit = true ∧ c.toNat - '0'.toNat = digitValue c)) = true := by decide
  have member := mem_of_digitValue_lt (Nat.lt_trans h (by decide))
  exact of_decide_eq_true (List.all_eq_true.mp all c member) h

/-- Reading digits from left to right gives each the weight of its place. -/
theorem foldl_eq_ofDigits (radix : Nat) {read : Char → Nat} {digits : List Char}
    (reads : ∀ c ∈ digits, read c = digitValue c) :
    digits.foldl (fun n c => radix * n + read c) 0 =
      Nat.ofDigits radix (digits.reverse.map digitValue) := by
  induction digits using List.reverseRecOn with
  | nil => rfl
  | append_singleton digits c ih =>
    have others := ih fun d member => reads d (List.mem_append_left _ member)
    have last := reads c (by simp)
    rw [List.foldl_concat, others, last, List.reverse_append, List.reverse_singleton,
      List.singleton_append, List.map_cons, Nat.ofDigits_cons, Nat.add_comm]

namespace Literal

theorem isDigit_of_mem {l : Literal} (base : l.base = .decimal) :
    ∀ c ∈ l.digits, c.isDigit = true := by
  intro c member
  have small := l.known c member
  rw [base] at small
  exact (digit_eq small).1

theorem isHexDigit_of_mem {l : Literal} {capital : Bool} (base : l.base = .hexadecimal capital) :
    ∀ c ∈ l.digits, isHexDigit c = true := by
  intro c member
  have small := l.known c member
  rw [base] at small
  exact (hexDigit_eq small).1

theorem unsigned_digits_eq (l : Literal) : unsigned (l.base.mark ++ l.digits) = l.size := by
  cases base : l.base with
  | decimal =>
    have each : ∀ c ∈ l.digits, c.toNat - '0'.toNat = digitValue c := by
      intro c member
      have small := l.known c member
      rw [base] at small
      exact (digit_eq small).2
    have read : ofDigits l.digits = Nat.ofDigits 10 (l.digits.reverse.map digitValue) :=
      foldl_eq_ofDigits 10 each
    rw [size, base]
    exact (unsigned_digits (isDigit_of_mem base)).trans read
  | hexadecimal capital =>
    have each : ∀ c ∈ l.digits, hexDigit c = digitValue c := by
      intro c member
      have small := l.known c member
      rw [base] at small
      exact (hexDigit_eq small).2
    have read : ofHexDigits l.digits = Nat.ofDigits 16 (l.digits.reverse.map digitValue) :=
      foldl_eq_ofDigits 16 each
    rw [size, base]
    cases capital <;> exact read

/-- The first character behind the sign is a digit, so a sign is not overlooked. -/
theorem exists_digit (l : Literal) : ∃ c rest, l.base.mark ++ l.digits = c :: rest ∧
    c.isDigit = true := by
  cases base : l.base with
  | decimal =>
    obtain ⟨c, rest, digits⟩ := List.exists_cons_of_ne_nil l.nonempty
    exact ⟨c, rest, digits, isDigit_of_mem base c (by simp [digits])⟩
  | hexadecimal capital => cases capital <;> exact ⟨'0', _, rfl, rfl⟩

theorem integer_text (l : Literal) : integer l.text = l.value := by
  obtain ⟨c, rest, split, digit⟩ := l.exists_digit
  have size := l.unsigned_digits_eq
  cases sign : l.sign with
  | none =>
    have unsignedText : l.text = l.base.mark ++ l.digits := by simp [text, sign, Sign.text]
    have parts : splitSign l.text = (false, l.base.mark ++ l.digits) := by
      rw [unsignedText, split, splitSign_of_isDigit digit]
    simp [integer, parts, signed, size, value, sign, Sign.apply]
  | plus =>
    have parts : splitSign l.text = (false, l.base.mark ++ l.digits) := by
      simp [text, sign, Sign.text, splitSign]
    simp [integer, parts, signed, size, value, sign, Sign.apply]
  | minus =>
    have parts : splitSign l.text = (true, l.base.mark ++ l.digits) := by
      simp [text, sign, Sign.text, splitSign]
    simp [integer, parts, signed, size, value, sign, Sign.apply]

end Literal

end FormCode.Numeral

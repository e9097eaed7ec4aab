import FormCode.Binary64.Basic
import FormCode.Numeral.Decimal

/-! Rounding to the nearest magnitude. A tie goes to the even neighbour, and what lies beyond the
largest finite number goes to infinity. -/
namespace FormCode.Binary64

/-- The whole number nearest to `a / b`, the even one on a tie. -/
def divNearest (a b : Nat) : Nat :=
  let q := a / b
  let r := a % b
  if 2 * r < b then q else if b < 2 * r then q + 1 else q + q % 2

/-- The magnitude nearest to `num / den`. In units it is kept to 53 bits: `spare` low bits are
rounded away. A carry out of the 53 bits lands in the exponent, where it belongs. -/
def nearest (num den : Nat) : Nat :=
  let scaled := num <<< 1074
  let spare := (scaled / den).log2 - 52
  min infinity (spare * leadingBit + divNearest scaled (den <<< spare))

/-- The magnitude nearest to a decimal. An exponent that decides the answer alone is never made
into a power of ten. -/
def nearestDecimal (d : Decimal) : Nat :=
  if d.digits = 0 then 0
  else match d.exponent with
    | .ofNat e => if 400 ≤ e then infinity else nearest (d.digits * Nat.pow 10 e) 1
    | .negSucc e =>
      if d.digits.log2 + 1081 < 3 * (e + 1) then 0 else nearest d.digits (Nat.pow 10 (e + 1))

def ofNumeral (text : List Char) : Binary64 :=
  let (negative, size) := Numeral.splitSign text
  ofMagnitude negative (nearestDecimal (.ofNumeral size))

end FormCode.Binary64

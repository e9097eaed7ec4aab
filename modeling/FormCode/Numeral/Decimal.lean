import FormCode.Numeral.Integer

/-! Decimal fractions: a natural number scaled by a power of ten. -/
namespace FormCode

/-- The number `digits * 10 ^ exponent`. -/
structure Decimal where
  digits : Nat
  exponent : Int
  deriving DecidableEq, Repr

namespace Decimal

/-- A fraction written as its whole part, a point and `places` further digits. -/
def withPlaces (digits places : Nat) : List Char :=
  let written := Numeral.toDigits digits
  let padded := List.replicate (places + 1 - written.length) '0' ++ written
  padded.take (padded.length - places) ++ '.' :: padded.drop (padded.length - places)

/-- The number in digits without an exponent; the point appears only before decimal places. -/
def positional (d : Decimal) : List Char :=
  match d.exponent with
  | .ofNat zeros => Numeral.toDigits d.digits ++ List.replicate zeros '0'
  | .negSucc places => withPlaces d.digits (places + 1)

def ofNumeral (text : List Char) : Decimal :=
  let whole := text.takeWhile Char.isDigit
  let (places, scale) :=
    match text.dropWhile Char.isDigit with
    | '.' :: rest => (rest.takeWhile Char.isDigit, rest.dropWhile Char.isDigit)
    | rest => ([], rest)
  let (negative, exponent) := Numeral.splitSign (scale.drop 1)
  ⟨Numeral.ofDigits (whole ++ places),
    Numeral.signed negative (Numeral.ofDigits exponent) - places.length⟩

end Decimal

end FormCode

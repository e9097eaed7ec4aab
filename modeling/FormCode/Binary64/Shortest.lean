import FormCode.Binary64.Rounding

/-! The shortest decimal that reads back: of all decimals that round to a number, one with the
fewest digits, and of those the nearest. A number that lies midway between two takes the larger.

On the grid of decimals with a given number of digits only the two neighbours of the number can
be the nearest that reads back, so only they are tried. Seventeen digits are always enough. -/
namespace FormCode.Binary64

/-- A finite magnitude as an exact decimal with 1074 places. -/
def exact (m : Nat) : Decimal := ⟨units m * Nat.pow 5 1074, -1074⟩

/-- The two neighbours of an exact decimal of `length` digits on the grid of `n` digits, the lower
one first. -/
def neighbours (d : Decimal) (length n : Nat) : Decimal × Decimal :=
  let cut := length - n
  let lower := d.digits / Nat.pow 10 cut
  (⟨lower, d.exponent + cut⟩,
    if lower + 1 = Nat.pow 10 n then ⟨1, d.exponent + cut + n⟩ else ⟨lower + 1, d.exponent + cut⟩)

/-- The better neighbour of magnitude `m` on the grid of `n` digits, if one reads back. -/
def onGrid? (m : Nat) (d : Decimal) (length n : Nat) : Option Decimal :=
  let (lower, upper) := neighbours d length n
  let scale := Nat.pow 10 (length - n)
  if nearestDecimal lower = m then
    if nearestDecimal upper = m ∧ scale ≤ 2 * (d.digits % scale) then some upper else some lower
  else if nearestDecimal upper = m then some upper
  else none

def shortest (m : Nat) : Decimal :=
  let d := exact m
  let length := (Numeral.toDigits d.digits).length
  ((List.range 17).findSome? fun n => onGrid? m d length (n + 1)).getD d

end FormCode.Binary64

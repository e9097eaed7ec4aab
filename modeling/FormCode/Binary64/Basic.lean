/-! Binary floating-point numbers of 64 bits: a sign bit, 11 exponent bits and 52 fraction bits.
The bits below the sign are the magnitude. Magnitudes are ordered as the numbers they stand for,
and each is a whole number of units of `2 ^ -1074`, the least positive number. -/
namespace FormCode

/-- A number is its bits: zeros of either sign differ, and a NaN keeps its payload. -/
structure Binary64 where
  bits : UInt64
  deriving DecidableEq, Repr

namespace Binary64

def signBit : Nat := 1 <<< 63

/-- The leading bit, which the fraction of a normal number leaves out. -/
def leadingBit : Nat := 1 <<< 52

def isNegative (x : Binary64) : Bool := signBit ≤ x.bits.toNat

def magnitude (x : Binary64) : Nat := x.bits.toNat % signBit

def ofMagnitude (negative : Bool) (m : Nat) : Binary64 :=
  ⟨UInt64.ofNat (if negative then signBit + m else m)⟩

/-- The magnitude of the infinities; those above it are NaNs. -/
def infinity : Nat := 0x7FF * leadingBit

def isNaN (x : Binary64) : Bool := infinity < x.magnitude

def isFinite (x : Binary64) : Bool := x.magnitude < infinity

/-- The size of a finite magnitude in units of `2 ^ -1074`. Below the leading bit the
magnitude counts them itself; from there on the exponent bits double them. -/
def units (m : Nat) : Nat :=
  if m < leadingBit then m else (leadingBit + m % leadingBit) <<< (m / leadingBit - 1)

def isWhole (m : Nat) : Bool := units m % (1 <<< 1074) == 0

end Binary64

end FormCode

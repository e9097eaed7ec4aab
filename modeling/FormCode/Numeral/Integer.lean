/-! Integer numerals: an optional sign, then decimal digits, or hexadecimal ones after `0x`. -/
namespace FormCode.Numeral

def isHexDigit (c : Char) : Bool :=
  c.isDigit || ('a' ≤ c && c ≤ 'f') || ('A' ≤ c && c ≤ 'F')

def hexDigit (c : Char) : Nat :=
  if c.isDigit then c.toNat - '0'.toNat
  else if 'a' ≤ c then c.toNat - 'a'.toNat + 10
  else c.toNat - 'A'.toNat + 10

def ofHexDigits (digits : List Char) : Nat := digits.foldl (fun n c => 16 * n + hexDigit c) 0

def ofDigits (digits : List Char) : Nat := Nat.ofDigitChars 10 digits 0

def toDigits (n : Nat) : List Char := Nat.toDigits 10 n

/-- Whether the numeral has a minus sign, and what follows its sign. -/
def splitSign : List Char → Bool × List Char
  | '-' :: digits => (true, digits)
  | '+' :: digits => (false, digits)
  | digits => (false, digits)

def unsigned : List Char → Nat
  | '0' :: 'x' :: digits => ofHexDigits digits
  | '0' :: 'X' :: digits => ofHexDigits digits
  | digits => ofDigits digits

def signed (negative : Bool) (n : Nat) : Int := if negative then -n else n

def integer (text : List Char) : Int := signed (splitSign text).1 (unsigned (splitSign text).2)

/-- A size as a signed word of 128 bits, unless it is too large for one. -/
def sizeWord? (size : Nat) : Option (BitVec 128) :=
  if size < 1 <<< 127 then some (BitVec.ofNat 128 size) else none

def narrow? (word : BitVec 128) : Option Int64 :=
  let n := word.toInt
  if Int64.minValue.toInt ≤ n ∧ n ≤ Int64.maxValue.toInt then some (Int64.ofInt n) else none

/-- The integer of a numeral, unless it leaves the range of 64-bit integers. Its size is negated in
a wider word, so that the least integer can be written too. -/
def int64? (text : List Char) : Option Int64 :=
  let (negative, digits) := splitSign text
  (sizeWord? (unsigned digits)).bind fun word => narrow? (if negative then -word else word)

/-- An integer as a decimal numeral, without leading zeros or a plus sign. -/
def ofInt (n : Int) : List Char :=
  if n < 0 then '-' :: toDigits n.natAbs else toDigits n.natAbs

end FormCode.Numeral

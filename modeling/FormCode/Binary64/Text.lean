import FormCode.Binary64.Shortest

/-! The two ways in which numbers are written. Both are positional and read back. -/
namespace FormCode.Binary64

def sign (x : Binary64) : List Char := if x.isNegative then ['-'] else []

/-- The shortest digits; a whole number has no point. -/
def brief (x : Binary64) : List Char :=
  if x.isNaN then ['N', 'a', 'N']
  else if x.magnitude = infinity then x.sign ++ ['i', 'n', 'f']
  else if x.magnitude = 0 then x.sign ++ ['0']
  else x.sign ++ (shortest x.magnitude).positional

/-- As it stands in a form: a whole number has all of its digits and one decimal place, any other
finite number the shortest digits. -/
def literal (x : Binary64) : List Char :=
  if x.isNaN then ['#', '#', 'N', 'a', 'N']
  else if x.magnitude = infinity then '#' :: '#' :: (x.sign ++ ['I', 'n', 'f'])
  else if isWhole x.magnitude then
    x.sign ++ Numeral.toDigits (units x.magnitude >>> 1074) ++ ['.', '0']
  else x.sign ++ (shortest x.magnitude).positional

end FormCode.Binary64

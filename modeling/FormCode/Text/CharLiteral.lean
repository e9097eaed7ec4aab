import FormCode.Numeral.Integer

/-! Character literals: a backslash, then the character itself, a name, or `u` and four
hexadecimal digits. Writing names only the newline, the space and the tab. -/
namespace FormCode.Text.CharLiteral

/-- The scalar value with code point `n`; surrogates have none. -/
def scalar? (n : Nat) : Option Char := if h : n.isValidChar then some (Char.ofNatAux n h) else none

def names : List (List Char × Char) :=
  [("newline".toList, '\n'), ("space".toList, ' '), ("tab".toList, '\t'), ("return".toList, '\r')]

def decode (body : List Char) : Option Char :=
  match names.lookup body with
  | some c => some c
  | none =>
    match body with
    | [c] => some c
    | 'u' :: digits =>
      if digits.length = 4 ∧ digits.all Numeral.isHexDigit then
        scalar? (Numeral.ofHexDigits digits)
      else none
    | _ => none

def encode (c : Char) : List Char :=
  '\\' :: match c with
    | '\n' => ['n', 'e', 'w', 'l', 'i', 'n', 'e']
    | ' ' => ['s', 'p', 'a', 'c', 'e']
    | '\t' => ['t', 'a', 'b']
    | c => [c]

end FormCode.Text.CharLiteral

import FormCode.Text.Combining
import FormCode.Text.Printable

/-! Characters between apostrophes, as listings and messages show them. A character that would not
be legible there is given by its code point. -/
namespace FormCode.Text.CharQuote

def codePoint (c : Char) : List Char :=
  ['\\', 'u', '\x7b'] ++ Nat.toDigits 16 c.toNat ++ ['\x7d']

def escape (c : Char) : List Char :=
  match c with
  | '\x00' => ['\\', '0']
  | '\t' => ['\\', 't']
  | '\r' => ['\\', 'r']
  | '\n' => ['\\', 'n']
  | '\'' => ['\\', '\'']
  | '\\' => ['\\', '\\']
  | c => if isCombining c || !isPrintable c then codePoint c else [c]

def encode (c : Char) : List Char := '\'' :: (escape c ++ ['\''])

end FormCode.Text.CharQuote

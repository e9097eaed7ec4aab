/-! String literals: text between double quotes, with escapes after a backslash. Any character may
stand for itself except the quote and the backslash. Reading knows two escapes that writing never
uses, for the carriage return and for NUL. -/
namespace FormCode.Text.Quoted

def escape : Char → List Char
  | '\\' => ['\\', '\\']
  | '"' => ['\\', '"']
  | '\n' => ['\\', 'n']
  | '\t' => ['\\', 't']
  | c => [c]

def encode (s : List Char) : List Char := '"' :: (s.flatMap escape ++ ['"'])

def unescape? : Char → Option Char
  | 'n' => some '\n'
  | 't' => some '\t'
  | 'r' => some '\r'
  | '0' => some '\x00'
  | '"' => some '"'
  | '\\' => some '\\'
  | _ => none

/-- Reads on after the reversed text `done`. -/
def decodeOnto (done : List Char) : List Char → Option (List Char)
  | [] => some done.reverse
  | ['\\'] => none
  | '\\' :: c :: body =>
    match unescape? c with
    | some c => decodeOnto (c :: done) body
    | none => none
  | c :: body => decodeOnto (c :: done) body

def decode (body : List Char) : Option (List Char) := decodeOnto [] body

end FormCode.Text.Quoted

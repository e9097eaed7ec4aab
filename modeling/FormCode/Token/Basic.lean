import FormCode.Binary64.Text
import FormCode.Text.CharQuote
import FormCode.Value.Basic

/-! Tokens: the brackets, the quote mark and the atoms. -/
namespace FormCode

inductive Bracket where
  | round
  | square
  | curly
  deriving DecidableEq, Repr

inductive Token where
  | opening (bracket : Bracket)
  | closing (bracket : Bracket)
  | quote
  | atom (a : Atom)
  deriving DecidableEq, Repr

def Bracket.left : Bracket → Char
  | .round => '('
  | .square => '['
  | .curly => '\x7b'

def Bracket.right : Bracket → Char
  | .round => ')'
  | .square => ']'
  | .curly => '\x7d'

namespace Token

def describe : Token → String
  | .opening bracket => s!"'{bracket.left}'"
  | .closing bracket => s!"'{bracket.right}'"
  | .quote => "quote"
  | .atom .nil => "nil"
  | .atom (.bool b) => if b then "true" else "false"
  | .atom (.int n) => "integer " ++ .ofList (Numeral.ofInt n.toInt)
  | .atom (.float x) => "float " ++ .ofList x.brief
  | .atom (.char c) => "character " ++ .ofList (Text.CharQuote.encode c)
  | .atom (.string _) => "string literal"
  | .atom (.keyword name) => s!"keyword :{name}"
  | .atom (.symbol name) => s!"symbol {name}"

end Token

end FormCode

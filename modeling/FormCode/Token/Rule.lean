import FormCode.Binary64.Rounding
import FormCode.Regex
import FormCode.Text.CharLiteral
import FormCode.Text.Quoted
import FormCode.Token.Basic

/-! The lexical rules. Each rule has a shape and says what a text of that shape stands for; a text
of the right shape can still stand for nothing, such as an integer that is out of range. -/
namespace FormCode.Token

/-- What a lexeme stands for. Blanks and comments stand for no token. -/
inductive Meaning where
  | blank
  | token (t : Token)
  deriving DecidableEq, Repr

def isSkipped (c : Char) : Bool :=
  c == ' ' || c == '\t' || c == '\r' || c == '\n' || c == '\x0c' || c == ','

def isBracket (c : Char) : Bool :=
  c == '(' || c == ')' || c == '[' || c == ']' || c == '\x7b' || c == '\x7d'

def isLetter (c : Char) : Bool := ('a' ≤ c && c ≤ 'z') || ('A' ≤ c && c ≤ 'Z')

def isMark (c : Char) : Bool :=
  c == '*' || c == '+' || c == '!' || c == '_' || c == '?' || c == '<' || c == '>' || c == '=' ||
    c == '/' || c == '.' || c == '-'

def isKeywordChar (c : Char) : Bool := isLetter c || c.isDigit || isMark c

def isSymbolStart (c : Char) : Bool := isLetter c || isMark c || c == '&'

def isSymbolChar (c : Char) : Bool := isSymbolStart c || c.isDigit || c == '\''

namespace Shape

open Regex

def digits : Regex := plus (one Char.isDigit)

def sign : Regex := opt (one fun c => c == '+' || c == '-')

def blanks : Regex := plus (one isSkipped)

/-- A comment ends before the line feed. -/
def comment : Regex := seq (just ';') (star (one (· != '\n')))

def integer : Regex :=
  seq sign (alt
    (seq (just '0') (seq (one fun c => c == 'x' || c == 'X') (plus (one Numeral.isHexDigit))))
    digits)

def exponent : Regex := seq (one fun c => c == 'e' || c == 'E') (seq sign digits)

def float : Regex :=
  seq sign (seq digits (alt
    (seq (just '.') (seq (star (one Char.isDigit)) (opt exponent)))
    exponent))

def stringUnit : Regex :=
  alt (one fun c => c != '"' && c != '\\') (seq (just '\\') (one (· != '\n')))

/-- A string whose closing quote is missing. -/
def openString : Regex := seq (just '"') (star stringUnit)

def string : Regex := seq openString (just '"')

def char : Regex :=
  seq (just '\\') (alt (word "newline".toList) (alt (word "space".toList) (alt (word "tab".toList)
    (alt (word "return".toList) (alt (seq (just 'u') (times 4 (one Numeral.isHexDigit)))
      (one fun c => !isSkipped c && !isBracket c))))))

def keyword : Regex := seq (just ':') (plus (one isKeywordChar))

def symbol : Regex := seq (one isSymbolStart) (star (one isSymbolChar))

end Shape

inductive Rule where
  | blanks
  | comment
  | opening (bracket : Bracket)
  | closing (bracket : Bracket)
  | quote
  | nil
  | bool (b : Bool)
  | integer
  | float
  | string
  | char
  | keyword
  | symbol
  deriving DecidableEq, Repr

namespace Rule

def shape : Rule → Regex
  | .blanks => Shape.blanks
  | .comment => Shape.comment
  | .opening bracket => .just bracket.left
  | .closing bracket => .just bracket.right
  | .quote => .just '\''
  | .nil => .word ['n', 'i', 'l']
  | .bool true => .word ['t', 'r', 'u', 'e']
  | .bool false => .word ['f', 'a', 'l', 's', 'e']
  | .integer => Shape.integer
  | .float => Shape.float
  | .string => Shape.string
  | .char => Shape.char
  | .keyword => Shape.keyword
  | .symbol => Shape.symbol

/-- The atom that a text of the rule's shape stands for. -/
def atom? (rule : Rule) (text : List Char) : Option Atom :=
  match rule with
  | .nil => some .nil
  | .bool b => some (.bool b)
  | .integer => (Numeral.int64? text).map .int
  | .float => some (.float (.ofNumeral text))
  | .string => (Text.Quoted.decode (text.drop 1).dropLast).map fun s => .string (.ofList s)
  | .char => (Text.CharLiteral.decode (text.drop 1)).map .char
  | .keyword => some (.keyword (.ofList (text.drop 1)))
  | .symbol => some (.symbol (.ofList text))
  | _ => none

def meaning (rule : Rule) (text : List Char) : Option Meaning :=
  match rule with
  | .blanks | .comment => some .blank
  | .opening bracket => some (.token (.opening bracket))
  | .closing bracket => some (.token (.closing bracket))
  | .quote => some (.token .quote)
  | rule => (rule.atom? text).map fun a => .token (.atom a)

end Rule

/-- The rules. Where two shapes fit a text, the rule that stands first decides. -/
def rules : List Rule := [.blanks, .comment, .opening .round, .closing .round, .opening .square,
  .closing .square, .opening .curly, .closing .curly, .quote, .nil, .bool true, .bool false,
  .integer, .float, .string, .char, .keyword, .symbol]

/-- The rule with the longest match at the beginning of `text`, and the length of the match. -/
def longestOf : List Rule → List Char → Option (Nat × Rule)
  | [], _ => none
  | rule :: rules, text =>
    match rule.shape.longest text, longestOf rules text with
    | none, best => best
    | some n, none => some (n, rule)
    | some n, some (m, other) => if n < m then some (m, other) else some (n, rule)

end FormCode.Token

import FormCode.Error
import FormCode.Text.Blank
import FormCode.Token.Rule

/-! Texts as tokens. At each place the longest match of any rule is taken; numbers and characters
must end at a delimiter or at the end of the text. -/
namespace FormCode.Token

/-- Why a text is no sequence of tokens. Each fault quotes the text that is to blame. -/
inductive Fault where
  | string (text : List Char)
  | character (text : List Char)
  | number (text : List Char)
  | unexpected (text : List Char)
  deriving DecidableEq, Repr

namespace Fault

/-- The kind of fault that the first character suggests. -/
def of (text : List Char) : Fault :=
  match text with
  | '"' :: _ => .string text
  | '\\' :: _ => .character text
  | c :: _ => if c.isDigit || c == '-' || c == '+' then .number text else .unexpected text
  | [] => .unexpected text

def message : Fault → String
  | .string text => "Invalid string literal: " ++ .ofList text
  | .character text => "Unsupported character: " ++ .ofList text
  | .number text => "Invalid number: " ++ .ofList text
  | .unexpected text => "Unexpected character: '" ++ .ofList text ++ "'"

end Fault

def isDelimiter (c : Char) : Bool :=
  Text.isBlank c || c == ',' || c == ';' || c == '"' || isBracket c

/-- Whether a token of this kind must not touch the next one. -/
def needsDelimiter : Token → Bool
  | .atom (.int _) | .atom (.float _) | .atom (.char _) => true
  | _ => false

def isDelimited : List Char → Bool
  | [] => true
  | c :: _ => isDelimiter c

inductive Piece where
  | blank (length : Nat)
  | token (length : Nat) (t : Token)
  | fault (fault : Fault)
  deriving DecidableEq, Repr

/-- Without a match, a string that is never closed is to blame up to where its units end, and any
other text for its first character. -/
def unmatched (text : List Char) : List Char :=
  text.take ((Shape.openString.longest text).getD 1)

/-- The piece at the beginning of a text. A token that touches what follows is to blame together
with it, up to the next delimiter. -/
def piece (text : List Char) : Piece :=
  match longestOf rules text with
  | none => .fault (.of (unmatched text))
  | some (n, rule) =>
    match rule.meaning (text.take n) with
    | none => .fault (.of (text.take n))
    | some .blank => .blank n
    | some (.token t) =>
      if t.needsDelimiter && !isDelimited (text.drop n) then
        .fault (.of (text.take n ++ (text.drop n).takeWhile fun c => !isDelimiter c))
      else .token n t

/-- The tokens of `text`, which begins at `place`, after the reversed list `found`. Every match
takes at least one character. -/
def scanFrom (place : Location) (found : List (Located Token)) :
    List Char → Except (Located Fault) (List (Located Token))
  | [] => .ok found.reverse
  | c :: text =>
    match piece (c :: text) with
    | .fault fault => .error ⟨place, fault⟩
    | .blank n => scanFrom (place.advance ((c :: text).take n)) found (text.drop (n - 1))
    | .token n t =>
      scanFrom (place.advance ((c :: text).take n)) (⟨place, t⟩ :: found) (text.drop (n - 1))
termination_by text => text.length
decreasing_by all_goals simp only [List.length_drop, List.length_cons]; omega

def scan (text : List Char) : Except (Located Fault) (List (Located Token)) :=
  scanFrom .first [] text

def lex (source : String) : Except Error (List (Located Token)) :=
  (scan source.toList).mapError fun fault => .lexing fault.place fault.item.message

end FormCode.Token

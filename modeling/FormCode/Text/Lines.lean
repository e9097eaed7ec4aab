import FormCode.Text.Location

/-! The lines of a text. A line feed ends a line, a carriage return right before it belongs to
the line end, and a text that ends in a line feed has no empty last line. -/
namespace FormCode.Text

/-- A finished line without the carriage return of its line end; `line` is reversed. -/
def closeLine : List Char → List Char
  | '\r' :: line => line.reverse
  | line => line.reverse

/-- The lines of `text`, of whose first one the reversed `line` has been seen. -/
def linesFrom (line : List Char) : List Char → List (List Char)
  | [] => if line.isEmpty then [] else [line.reverse]
  | '\n' :: text => closeLine line :: linesFrom [] text
  | c :: text => linesFrom (c :: line) text

def lines (text : List Char) : List (List Char) := linesFrom [] text

def endOf (text : List Char) : Location :=
  let lines := lines text
  ⟨max lines.length 1, (lines.getLast?.map List.length).getD 0 + 1⟩

end FormCode.Text

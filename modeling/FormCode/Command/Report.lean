import FormCode.Error
import FormCode.Text.Lines

/-! What the command answers: text on its two output streams and an exit code. -/
namespace FormCode.Command

structure Report where
  exit : Nat
  out : String
  err : String
  deriving DecidableEq, Repr

namespace Report

def success (out : String) : Report := ⟨0, out, ""⟩

def failure (err : String) : Report := ⟨1, "", err⟩

end Report

/-- The line of the source with a caret below the column, beside a gutter for the line number. -/
def excerpt (source : String) (place : Location) : String :=
  match (Text.lines source.toList)[place.line - 1]? with
  | none => ""
  | some line =>
    let number := toString place.line
    let gutter := String.ofList (List.replicate number.length ' ')
    let indent := String.ofList (List.replicate (place.column - 1) ' ')
    s!"{gutter} |\n{number} | {String.ofList line}\n{gutter} | {indent}^\n"

def explain (error : Error) (source shown : String) : String :=
  match error.place? with
  | none => s!"error: {error.text}\n  --> {shown}\n"
  | some place => s!"error: {error.text}\n  --> {shown}:{place.text}\n" ++ excerpt source place

end FormCode.Command

import FormCode.Expr.Context
import FormCode.Text.Location

/-! Errors as they are reported: the activity that failed, the place in the source where there is
one, and a message. Each activity has its own type of faults, whose messages are used here. -/
namespace FormCode

inductive Error where
  | lexing (place : Location) (message : String)
  | reading (place : Location) (message : String)
  | analysis (message : String)
  | unrepresentable (typeName target : String)
  | misplaced (context : Context) (message : String)
  | generation (message : String)
  | evaluation (message : String)
  | storage (message : String)
  deriving DecidableEq, Repr

namespace Error

def place? : Error → Option Location
  | .lexing place _ => some place
  | .reading place _ => some place
  | _ => none

def text : Error → String
  | .lexing place message =>
    s!"Lexer error at line {place.line}, column {place.column}: {message}"
  | .reading place message =>
    s!"Reader error at line {place.line}, column {place.column}: {message}"
  | .analysis message => s!"Analyzer error: {message}"
  | .unrepresentable typeName target =>
    s!"Can't embed {typeName} constant in code for target '{target}'"
  | .misplaced context message => s!"Invalid use of {context.name} context: {message}"
  | .generation message => s!"Code generation error: {message}"
  | .evaluation message => s!"Evaluation error: {message}"
  | .storage message => s!"IO error: {message}"

end Error

end FormCode

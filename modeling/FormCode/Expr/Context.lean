/-! Where an expression stands. -/
namespace FormCode

inductive Context where
  /-- Its value is dropped. -/
  | statement
  /-- Its value is left for the code around it. -/
  | expression
  /-- Its value is what the unit returns. -/
  | tail
  deriving DecidableEq, Repr

def Context.name : Context → String
  | .statement => "statement"
  | .expression => "expression"
  | .tail => "return"

end FormCode

import FormCode.Value.Equality

/-! Expressions: what the compiler makes of a form. Literals are the only ones so far. -/
namespace FormCode

inductive Expr where
  | literal (value : Value)
  deriving Repr

namespace Expr

instance : BEq Expr := ⟨fun | .literal v, .literal w => v == w⟩

def nil : Expr := .literal .nil

def bool (b : Bool) : Expr := .literal (.atom (.bool b))

def eval : Expr → Value
  | .literal value => value

/-- What is known of the value before the expression runs. -/
def kind? : Expr → Option Kind
  | .literal value => value.kind?

/-- Whether control goes on to what follows the expression. -/
def completes : Expr → Bool
  | .literal _ => true

end Expr

end FormCode

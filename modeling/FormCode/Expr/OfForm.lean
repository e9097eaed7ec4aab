import FormCode.Error
import FormCode.Expr.Basic
import FormCode.Value.Printer

/-! Forms as expressions. Constants stand for themselves and a quoted form for what is quoted, also
inside vectors and maps, whose quotes are taken off wherever they are not quoted themselves. -/
namespace FormCode.Expr

inductive Fault where
  | unresolved (symbol : String)
  | quoteCount (count : Nat)
  | unsupported (operator : String)
  | notInvocable (typeName : String)
  | notConstant (form : Value)
  | repeatedKey (key : Value)
  deriving Repr

def Fault.message : Fault → String
  | .unresolved symbol => s!"Unable to resolve symbol: {symbol} in this context"
  | .quoteCount count => s!"Wrong number of args ({count}) passed to quote"
  | .unsupported operator => s!"Unsupported form: ({operator} ...)"
  | .notInvocable typeName => s!"{typeName} cannot be invoked"
  | .notConstant form => "Collection element is not a constant: " ++ form.text
  | .repeatedKey key => "Duplicate key: " ++ key.text

/-- What is quoted, if the items are those of a list `(quote x)`. -/
def quoted? : List Value → Option Value
  | [.atom (.symbol name), x] => if name = "quote" then some x else none
  | _ => none

mutual

/-- The value of an element of a constant collection. -/
def constant : Value → Except Fault Value
  | .atom (.symbol name) => .error (.notConstant (.symbol name))
  | .atom a => .ok (.atom a)
  | .object handle => .ok (.object handle)
  | .list [] => .ok (.list [])
  | .list items =>
    match quoted? items with
    | some x => .ok x
    | none => .error (.notConstant (.list items))
  | .vector items => (constants items).map .vector
  | .map entries => do
    let entries ← constantEntries entries
    match Value.firstRepeat? (entries.map Prod.fst) with
    | some key => .error (.repeatedKey key)
    | none => .ok (.map entries)

def constants : List Value → Except Fault (List Value)
  | [] => .ok []
  | x :: xs => do
    let x ← constant x
    let xs ← constants xs
    return x :: xs

/-- Each key is looked at before its value. -/
def constantEntries : List (Value × Value) → Except Fault (List (Value × Value))
  | [] => .ok []
  | (k, v) :: es => do
    let k ← constant k
    let v ← constant v
    let es ← constantEntries es
    return (k, v) :: es

end

/-- The expression of a list with these items. Only quotations are understood. -/
def ofItems : List Value → Except Fault Expr
  | [] => .ok (.literal (.list []))
  | .atom (.symbol operator) :: args =>
    if operator = "quote" then
      match args with
      | [x] => .ok (.literal x)
      | _ => .error (.quoteCount args.length)
    else .error (.unsupported operator)
  | head :: _ => .error (.notInvocable head.typeName)

def ofForm : Value → Except Fault Expr
  | .atom (.symbol name) => .error (.unresolved name)
  | .list items => ofItems items
  | form => (constant form).map .literal

def report (fault : Fault) : Error := .analysis fault.message

end FormCode.Expr

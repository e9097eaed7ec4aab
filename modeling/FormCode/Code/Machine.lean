import FormCode.Code.CodeUnit

/-! Running units on a stack machine. Code that ends without a return yields the top of the stack,
or nil if nothing was loaded. -/
namespace FormCode.Code

/-- Why a unit could not be run. Compiled units have no such faults. -/
inductive RunFault where
  | noConstant (slot : Slot) (unit : String)
  | emptyStack
  deriving DecidableEq, Repr

namespace RunFault

def message : RunFault → String
  | .noConstant slot unit =>
    "constant slot " ++ .ofList slot.render ++ s!" out of range in unit {unit}"
  | .emptyStack => "stack underflow on ret"

def report (fault : RunFault) : Error := .evaluation fault.message

end RunFault

namespace CodeUnit

def valueOf (unit : CodeUnit) : Operand → Except RunFault Value
  | .immediate i => .ok i.value
  | .constant slot =>
    match unit.constant? slot with
    | some value => .ok value
    | none => .error (.noConstant slot unit.name)

/-- Runs instructions on a stack whose top stands first. -/
def runFrom (unit : CodeUnit) (stack : List Value) : List Instr → Except RunFault Value
  | [] => .ok (stack.head?.getD .nil)
  | .load operand :: instrs => do
    let value ← unit.valueOf operand
    unit.runFrom (value :: stack) instrs
  | .ret :: _ =>
    match stack with
    | value :: _ => .ok value
    | [] => .error .emptyStack
  | .retOf operand :: _ => unit.valueOf operand

def run (unit : CodeUnit) : Except RunFault Value := unit.runFrom [] unit.instrs

end CodeUnit

end FormCode.Code

import FormCode.Code.Buffer
import FormCode.Code.Constants
import FormCode.Error
import FormCode.Expr.Basic

/-! Emission of code for expressions. It works on the constants and the code of one unit; what was
interned or emitted before a fault stays. -/
namespace FormCode.Code

inductive Fault where
  | unrepresentable (constant : Unrepresentable)
  /-- The instruction stands behind a return. -/
  | unreachable (instr : Instr)
  /-- The constant with this number has no slot. -/
  | tableFull (index : Nat)
  deriving DecidableEq, Repr

def Fault.report : Fault → Error
  | .unrepresentable constant => .unrepresentable constant.typeName constant.target
  | .unreachable instr =>
    .misplaced .tail ("code after return point is unreachable: " ++ instr.text)
  | .tableFull index =>
    .generation s!"constant pool overflow: slot {index} exceeds {UInt32.size - 1}"

structure Assembly where
  constants : Constants
  code : Buffer
  deriving Repr

def Assembly.empty (target : Target) : Assembly := ⟨.empty, .empty target⟩

abbrev Emit := EStateM Fault Assembly

def emitInstr (instr : Instr) : Emit Unit := fun a =>
  match a.code.push? instr with
  | some code => .ok () { a with code }
  | none => .error (.unreachable instr) a

def intern (value : Value) : Emit Slot := fun a =>
  match a.constants.intern? value with
  | some (slot, constants) => .ok slot { a with constants }
  | none => .error (.tableFull a.constants.size) a

def encode (value : Value) (kind? : Option Kind) : Emit Encoding := fun a =>
  match a.code.target.encoding value kind? with
  | .ok encoding => .ok encoding a
  | .error constant => .error (.unrepresentable constant) a

def operandOf (value : Value) : Encoding → Emit Operand
  | .immediate i => pure (.immediate i)
  | .pooled => return .constant (← intern value)

/-- Loads and returns an operand, by one instruction where the target has it. -/
def emitReturn (operand : Operand) : Emit Unit := do
  if (← get).code.target.directReturn then emitInstr (.retOf operand)
  else
    emitInstr (.load operand)
    emitInstr .ret

/-- Emits a literal. As a statement it needs no code, but the target must still be able to
represent it, so that a fault does not hang on where the literal stands. -/
def emitLiteral (value : Value) (context : Context) : Emit Unit := do
  let encoding ← encode value value.kind?
  match context with
  | .statement => pure ()
  | .expression => emitInstr (.load (← operandOf value encoding))
  | .tail => emitReturn (← operandOf value encoding)

def emit (context : Context) : Expr → Emit Unit
  | .literal value => emitLiteral value context

/-- How many expressions are reached: all up to the first that does not complete. -/
def reachableLength (body : List Expr) : Nat :=
  match body.findIdx? fun expr => !expr.completes with
  | some n => n + 1
  | none => body.length

/-- Emits all but the last of the expressions as statements, and the last in `context`. If there are
none the value is nil. -/
def emitInTurn (context : Context) : List Expr → Emit Unit
  | [] => emit context .nil
  | [last] => emit context last
  | expr :: body => do
    emit .statement expr
    emitInTurn context body

def emitBody (context : Context) (body : List Expr) : Emit Unit :=
  emitInTurn context (body.take (reachableLength body))

end FormCode.Code

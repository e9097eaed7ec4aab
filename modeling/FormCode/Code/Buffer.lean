import FormCode.Code.Target

/-! Code under construction for one target. A return ends it: nothing can follow. -/
namespace FormCode.Code

structure Buffer where
  target : Target
  instrs : List Instr
  deriving Repr

namespace Buffer

def empty (target : Target) : Buffer := ⟨target, []⟩

def isEnded (b : Buffer) : Bool := b.instrs.getLast?.any Instr.isReturn

/-- Appends an instruction, unless it could never run. -/
def push? (b : Buffer) (instr : Instr) : Option Buffer :=
  if b.isEnded then none else some { b with instrs := b.instrs ++ [instr] }

end Buffer

end FormCode.Code

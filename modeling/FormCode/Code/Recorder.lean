import FormCode.Code.Emission

/-! Recording code with a flag. A buffer looks at its last instruction to tell whether its code has
ended; a recorder keeps a flag for it, which every instruction that is taken sets anew. -/
namespace FormCode.Code

structure Recorder where
  target : Target
  instrs : List Instr
  ended : Bool
  deriving DecidableEq, Repr

namespace Recorder

def empty (target : Target) : Recorder := ⟨target, [], false⟩

def record (instr : Instr) : EStateM Fault Recorder Unit := fun r =>
  if r.ended then .error (.unreachable instr) r
  else .ok () { r with instrs := r.instrs ++ [instr], ended := instr.isReturn }

def buffer (r : Recorder) : Buffer := ⟨r.target, r.instrs⟩

end Recorder

end FormCode.Code

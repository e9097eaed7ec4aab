import FormCode.Code.Emission
import FormCode.Value.Printer

/-! Finished units and their listings. A listing has one line for each constant and each
instruction, as long as no name or constant brings a line feed of its own. Constants are listed by
their slots. A unit that was put together by hand can have more constants than there are slots, and
then has no listing. -/
namespace FormCode.Code

structure CodeUnit where
  name : String
  target : String
  constants : List Value
  instrs : List Instr
  deriving Repr

def Assembly.finish (a : Assembly) (name : String) : CodeUnit :=
  ⟨name, a.code.target.name, a.constants.values, a.code.instrs⟩

namespace CodeUnit

def constant? (unit : CodeUnit) (slot : Slot) : Option Value :=
  unit.constants[slot.index.toNat]?

def heading (unit : CodeUnit) : List Char :=
  s!"; unit {unit.name} (target {unit.target})\n".toList

/-- The line of the constant with number `n`, if there is a slot of this number. -/
def constantLine? (n : Nat) (value : Value) : Option (List Char) :=
  (Slot.ofNat? n).map fun slot =>
    ";   ".toList ++ slot.render ++ " = ".toList ++ value.render ++ ['\n']

/-- The line of the instruction with number `n`; numbers below 10000 are aligned. -/
def instrLine (n : Nat) (instr : Instr) : List Char :=
  List.leftpad 4 ' ' (Nat.toDigits 10 n) ++ ": ".toList ++ instr.render ++ ['\n']

def constantLines? (unit : CodeUnit) : Option (List Char) :=
  if unit.constants.isEmpty then some []
  else do
    let lines ← unit.constants.zipIdx.mapM fun (value, n) => constantLine? n value
    return "; constants\n".toList ++ lines.flatten

def listing? (unit : CodeUnit) : Option String :=
  unit.constantLines?.map fun constants =>
    .ofList (unit.heading ++ constants ++ (unit.instrs.mapIdx instrLine).flatten)

/-- The listing of a compiled unit, which always has one. -/
def listing (unit : CodeUnit) : String := unit.listing?.getD ""

end CodeUnit

end FormCode.Code

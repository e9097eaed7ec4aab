import FormCode.Binary64.Text
import FormCode.Text.CharQuote
import FormCode.Value.Basic

/-! Instructions. They load an operand, or return the loaded value, or do both at once. An operand
is part of the instruction or stands in the unit's table of constants. -/
namespace FormCode.Code

/-- The number of a constant. -/
structure Slot where
  index : UInt32
  deriving DecidableEq, Repr

inductive Immediate where
  | nil
  | bool (b : Bool)
  | int (n : Int64)
  | float (x : Binary64)
  | char (c : Char)
  deriving DecidableEq, Repr

inductive Operand where
  | immediate (i : Immediate)
  | constant (slot : Slot)
  deriving DecidableEq, Repr

inductive Instr where
  | load (operand : Operand)
  | ret
  | retOf (operand : Operand)
  deriving DecidableEq, Repr

/-- The slot of the constant with number `n`, if numbers reach that far. -/
def Slot.ofNat? (n : Nat) : Option Slot :=
  if n < UInt32.size then some ⟨UInt32.ofNat n⟩ else none

def Slot.render (slot : Slot) : List Char := '#' :: Nat.toDigits 10 slot.index.toNat

namespace Immediate

def value : Immediate → Value
  | .nil => .nil
  | .bool b => .atom (.bool b)
  | .int n => .atom (.int n)
  | .float x => .atom (.float x)
  | .char c => .atom (.char c)

def render : Immediate → List Char
  | .nil => "nil".toList
  | .bool true => "bool true".toList
  | .bool false => "bool false".toList
  | .int n => "int ".toList ++ Numeral.ofInt n.toInt
  | .float x => "float ".toList ++ x.literal
  | .char c => "char ".toList ++ Text.CharQuote.encode c

def text (i : Immediate) : String := .ofList i.render

end Immediate

/-- The ending of the instruction's name that tells the operand's place, and the operand. -/
def Operand.render : Operand → List Char
  | .immediate i => ".imm ".toList ++ i.render
  | .constant slot => ".const ".toList ++ slot.render

namespace Instr

def isReturn : Instr → Bool
  | .load _ => false
  | .ret | .retOf _ => true

def render : Instr → List Char
  | .load operand => "load".toList ++ operand.render
  | .ret => "ret".toList
  | .retOf operand => "ret".toList ++ operand.render

def text (instr : Instr) : String := .ofList instr.render

end Instr

end FormCode.Code

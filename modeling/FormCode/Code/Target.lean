import FormCode.Code.Instr

/-! Targets: what the machine that runs the code can do, and so how each constant is encoded. -/
namespace FormCode.Code

structure Target where
  name : String
  /-- The width of signed integers that fit into an instruction; none fit at width 0. -/
  intBits : UInt32
  floats : Bool
  chars : Bool
  /-- Whether loading and returning can be one instruction. -/
  directReturn : Bool
  /-- Whether constants may be host objects. -/
  hostObjects : Bool
  deriving DecidableEq, Repr

inductive Encoding where
  | immediate (i : Immediate)
  | pooled
  deriving DecidableEq, Repr

structure Unrepresentable where
  typeName : String
  target : String
  deriving DecidableEq, Repr

namespace Target

def stack : Target := ⟨"stack", 32, false, true, false, false⟩

def compact : Target := ⟨"compact", 8, false, false, false, false⟩

def register : Target := ⟨"register", 64, true, true, true, true⟩

instance : Inhabited Target := ⟨stack⟩

def named? : String → Option Target
  | "stack" => some stack
  | "compact" => some compact
  | "register" => some register
  | _ => none

/-- How many signed integers of a width from 1 to 63 are not negative. -/
def halfRange (bits : UInt32) : Int64 := 1 <<< (bits - 1).toUInt64.toInt64

def greatestInt (bits : UInt32) : Int64 := halfRange bits - 1

def leastInt (bits : UInt32) : Int64 := -greatestInt bits - 1

/-- Whether `n` is a signed integer of the target's width. Width 64 has them all. -/
def fitsInt (t : Target) (n : Int64) : Bool :=
  if t.intBits = 0 then false
  else if 64 ≤ t.intBits then true
  else decide (leastInt t.intBits ≤ n ∧ n ≤ greatestInt t.intBits)

/-- The instruction operand for a value of a primitive kind, if the target allows one. -/
def immediate? (t : Target) : Kind → Value → Option Immediate
  | .bool, .atom (.bool b) => some (.bool b)
  | .long, .atom (.int n) => if t.fitsInt n then some (.int n) else none
  | .double, .atom (.float x) => if t.floats then some (.float x) else none
  | .char, .atom (.char c) => if t.chars then some (.char c) else none
  | _, _ => none

/-- The encoding of a value of which `kind?` is known. The kind decides: an unknown one belongs to
nil, and only values of primitive kinds are candidates for an operand. -/
def encoding (t : Target) (value : Value) (kind? : Option Kind) :
    Except Unrepresentable Encoding :=
  match kind? with
  | none => .ok (if value.isNil then .immediate .nil else .pooled)
  | some (.object typeName) =>
    if t.hostObjects then .ok .pooled else .error ⟨typeName, t.name⟩
  | some kind =>
    match t.immediate? kind value with
    | some i => .ok (.immediate i)
    | none => .ok .pooled

end Target

end FormCode.Code

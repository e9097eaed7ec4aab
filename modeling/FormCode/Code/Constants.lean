import FormCode.Code.Instr
import FormCode.Value.Equality

/-! The table of constants of a unit. Values that differ at most in the order of map entries share
a slot; slots are numbered in the order in which their values first came. -/
namespace FormCode.Code

structure Constants where
  values : List Value
  deriving Repr

namespace Constants

def empty : Constants := ⟨[]⟩

def size (table : Constants) : Nat := table.values.length

def isEmpty (table : Constants) : Bool := table.values.isEmpty

def get? (table : Constants) (slot : Slot) : Option Value := table.values[slot.index.toNat]?

/-- The number of the first value that is like `value`, or the number it would get. -/
def indexOf (table : Constants) (value : Value) : Nat := table.values.findIdx value.alike

/-- The slot of `value`, which joins the table if nothing like it is there. There is none when the
slots have run out. -/
def intern? (table : Constants) (value : Value) : Option (Slot × Constants) :=
  (Slot.ofNat? (table.indexOf value)).map fun slot =>
    (slot, if table.indexOf value < table.size then table else ⟨table.values ++ [value]⟩)

end Constants

end FormCode.Code

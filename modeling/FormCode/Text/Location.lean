/-! Places in a text. Lines and columns count from one; a column is one character. -/
namespace FormCode

structure Location where
  line : Nat
  column : Nat
  deriving DecidableEq, Repr, Inhabited

structure Located (α : Type) where
  place : Location
  item : α
  deriving DecidableEq, Repr

namespace Location

def first : Location := ⟨1, 1⟩

def next (place : Location) (c : Char) : Location :=
  if c = '\n' then ⟨place.line + 1, 1⟩ else ⟨place.line, place.column + 1⟩

def advance (place : Location) (text : List Char) : Location := text.foldl next place

def text (place : Location) : String := s!"{place.line}:{place.column}"

end Location

end FormCode

import FormCode.Binary64.Basic

/-! Values: what forms are read as and what code computes. Atoms are the values that one token
writes; collections hold values; host objects come only from the program around this one. -/
namespace FormCode

inductive Atom where
  | nil
  | bool (b : Bool)
  | int (n : Int64)
  | float (x : Binary64)
  | char (c : Char)
  | string (s : String)
  /-- The name has no colon. -/
  | keyword (name : String)
  | symbol (name : String)
  deriving DecidableEq, Repr

/-- A handle to something the host owns. -/
structure HostObject where
  typeName : String
  id : UInt64
  deriving DecidableEq, Repr

inductive Value where
  | atom (a : Atom)
  | object (handle : HostObject)
  | list (items : List Value)
  | vector (items : List Value)
  /-- The entries stand in the order in which they were written. -/
  | map (entries : List (Value × Value))
  deriving Repr, Inhabited

/-- The type of a value as far as the compiler knows it. -/
inductive Kind where
  | bool
  | long
  | double
  | char
  | string
  | keyword
  | symbol
  | list
  | vector
  | map
  | object (typeName : String)
  deriving DecidableEq, Repr

namespace Kind

/-- Values of these kinds need no box. -/
def isPrimitive : Kind → Bool
  | .bool | .long | .double | .char => true
  | _ => false

def name : Kind → String
  | .bool => "bool"
  | .long => "long"
  | .double => "double"
  | .char => "char"
  | .string => "string"
  | .keyword => "keyword"
  | .symbol => "symbol"
  | .list => "list"
  | .vector => "vector"
  | .map => "map"
  | .object typeName => typeName

end Kind

/-- Nil alone has no kind. -/
def Atom.kind? : Atom → Option Kind
  | .nil => none
  | .bool _ => some .bool
  | .int _ => some .long
  | .float _ => some .double
  | .char _ => some .char
  | .string _ => some .string
  | .keyword _ => some .keyword
  | .symbol _ => some .symbol

namespace Value

def nil : Value := .atom .nil

def symbol (name : String) : Value := .atom (.symbol name)

def isNil : Value → Bool
  | .atom .nil => true
  | _ => false

def kind? : Value → Option Kind
  | .atom a => a.kind?
  | .object handle => some (.object handle.typeName)
  | .list _ => some .list
  | .vector _ => some .vector
  | .map _ => some .map

def typeName (v : Value) : String := (v.kind?.map Kind.name).getD "nil"

end Value

end FormCode

import FormCode.Value.Equality

/-! What values give to a hasher. Of a map it gets the sum of the hashes of the entries, each taken
by itself. -/
namespace FormCode

/-- What a hasher is given at one time. -/
inductive HashInput where
  | word (n : UInt64)
  | text (s : String)
  deriving DecidableEq, Repr

def HashInput.weight : HashInput → UInt64
  | .word n => n
  | .text s => .ofNat s.length

/-- The number of the atom's variant, and what the atom holds. -/
def Atom.hashInputs : Atom → List HashInput
  | .nil => [.word 0]
  | .bool b => [.word 1, .word b.toUInt64]
  | .int n => [.word 2, .word n.toUInt64]
  | .float x => [.word 3, .word x.bits]
  | .char c => [.word 4, .word c.val.toUInt64]
  | .string s => [.word 5, .text s]
  | .keyword name => [.word 6, .text name]
  | .symbol name => [.word 7, .text name]

namespace Value

variable (digest : List HashInput → UInt64)

mutual

/-- What a value gives to a hasher. The entries of maps are hashed with `digest`. -/
def hashInputs : Value → List HashInput
  | .atom a => a.hashInputs
  | .list items => .word 8 :: .word (.ofNat items.length) :: itemInputs items
  | .vector items => .word 9 :: .word (.ofNat items.length) :: itemInputs items
  | .map entries => [.word 10, .word (.ofNat entries.length), .word (entrySum entries)]
  | .object handle => [.word 11, .text handle.typeName, .word handle.id]

def itemInputs : List Value → List HashInput
  | [] => []
  | x :: xs => hashInputs x ++ itemInputs xs

/-- The sum of the hashes of the entries, modulo `2 ^ 64`. -/
def entrySum : List (Value × Value) → UInt64
  | [] => 0
  | (k, v) :: es => digest (hashInputs k ++ hashInputs v) + entrySum es

end

end Value

/-- How a hash map hashes its keys, and the entries of maps within them. -/
structure Hashing where
  keys : List HashInput → UInt64
  entries : List HashInput → UInt64

namespace Hashing

def hash (hashing : Hashing) (value : Value) : UInt64 :=
  hashing.keys (value.hashInputs hashing.entries)

/-- A key is found if it has the value's hash and the value equals it. -/
def finds (hashing : Hashing) (value key : Value) : Bool :=
  hashing.hash value == hashing.hash key && value == key

def polynomial : Hashing :=
  let digest (inputs : List HashInput) : UInt64 :=
    inputs.foldl (fun sum input => 31 * sum + input.weight) 17
  ⟨digest, digest⟩

end Hashing

end FormCode

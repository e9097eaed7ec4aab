import FormCode.Value.Basic

/-! Two notions of equality of values. Both tell lists from vectors and compare floats by their
bits; neither looks at the order of map entries. They differ only on maps that repeat a key:
`same` asks that every entry of the left map occurs in the right one, `alike` pairs the entries off
one by one. -/
namespace FormCode.Value

mutual

/-- Whether the first value equals the second or, going `back`, the second equals the first. A map
equals another of its size if for each of its entries some entry of the other equals that one. -/
def sameWay (back : Bool) : Value → Value → Bool
  | .atom a, .atom b => a == b
  | .object a, .object b => a == b
  | .list xs, .list ys => sameItems back xs ys
  | .vector xs, .vector ys => sameItems back xs ys
  | .map es, .map fs =>
    es.length == fs.length && if back then fs.all (occurs es) else within es fs
  | _, _ => false

def sameItems (back : Bool) : List Value → List Value → Bool
  | [], [] => true
  | x :: xs, y :: ys => sameWay back x y && sameItems back xs ys
  | _, _ => false

def within : List (Value × Value) → List (Value × Value) → Bool
  | [], _ => true
  | (k, v) :: es, fs => fs.any (fun f => sameWay true k f.1 && sameWay true v f.2) && within es fs

def occurs : List (Value × Value) → Value × Value → Bool
  | [], _ => false
  | (k, v) :: es, f => (sameWay false k f.1 && sameWay false v f.2) || occurs es f

end

def same (v w : Value) : Bool := sameWay false v w

instance : BEq Value := ⟨same⟩

/-- The items without the first one that satisfies `p`, if there is one. -/
def removeFirst? {α : Type} (p : α → Bool) : List α → Option (List α)
  | [] => none
  | x :: xs => if p x then some xs else (removeFirst? p xs).map (x :: ·)

mutual

/-- Equality of values up to the order of map entries at every depth. -/
def alike : Value → Value → Bool
  | .atom a, .atom b => a == b
  | .object a, .object b => a == b
  | .list xs, .list ys => alikeItems xs ys
  | .vector xs, .vector ys => alikeItems xs ys
  | .map es, .map fs => alikeEntries es fs
  | _, _ => false

def alikeItems : List Value → List Value → Bool
  | [], [] => true
  | x :: xs, y :: ys => alike x y && alikeItems xs ys
  | _, _ => false

/-- The entries of the first list use up those of the second. -/
def alikeEntries : List (Value × Value) → List (Value × Value) → Bool
  | [], fs => fs.isEmpty
  | (k, v) :: es, fs =>
    match removeFirst? (fun f => alike k f.1 && alike v f.2) fs with
    | some fs => alikeEntries es fs
    | none => false

end

/-- The first of `keys` that is like one of `seen` or like an earlier key. -/
def firstRepeatAfter (seen : List Value) : List Value → Option Value
  | [] => none
  | k :: keys => if seen.any (alike k) then some k else firstRepeatAfter (k :: seen) keys

def firstRepeat? (keys : List Value) : Option Value := firstRepeatAfter [] keys

end FormCode.Value

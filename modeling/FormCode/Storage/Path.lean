/-! Paths: names joined by slashes. -/
namespace FormCode.Path

/-- The names on a path. Slashes in a row count as one. -/
def names (path : String) : List String :=
  ((path.toList.splitOnP (· == '/')).map String.ofList).filter (· ≠ "")

def isAbsolute (path : String) : Bool := path.toList.head? == some '/'

def endsInSlash (path : String) : Bool := path.toList.getLast? == some '/'

/-- A name without what follows its last point. A point at the beginning is part of the name. -/
def stemOf (name : List Char) : List Char :=
  match name.reverse.dropWhile (· != '.') with
  | [] | ['.'] => name
  | _ :: stem => stem.reverse

def stem? (path : String) : Option String :=
  match ((names path).filter (· ≠ ".")).getLast? with
  | none | some ".." => none
  | some name => some (.ofList (stemOf name.toList))

end FormCode.Path

import FormCode.Storage.Basic
import FormCode.Storage.Path

/-! Files in memory, in directories below one root. Absolute paths begin at the root, all others in
the working directory `here`. A directory is there when a file lies below it or the working
directory does. There are no links, and whatever is there can be read and written. -/
namespace FormCode

/-- Files by the names that lead to them from the root. -/
structure Files where
  entries : List (List String × ByteArray)
  deriving Inhabited

namespace Files

/-- The longest name, in bytes. -/
def maxName : Nat := 255

/-- The longest path, in bytes. -/
def maxPath : Nat := 4095

def find? (files : Files) (place : List String) : Option ByteArray := files.entries.lookup place

def put (files : Files) (place : List String) (content : ByteArray) : Files :=
  ⟨(place, content) :: files.entries.filter (·.1 != place)⟩

/-- The files that are new or have other bytes than in `before`. -/
def changes (files before : Files) : List (List String × ByteArray) :=
  files.entries.filter fun entry => !(before.entries.lookup entry.1 == some entry.2)

section Paths

variable (files : Files) (here : List String)

def isDirectory (place : List String) : Bool :=
  place.isPrefixOf here || files.entries.any fun entry =>
    place.isPrefixOf entry.1 && entry.1 != place

def enter (place : List String) : Except StorageFault Unit :=
  if files.isDirectory here place then .ok ()
  else if (files.find? place).isSome then .error .notDirectory
  else .error .notFound

/-- Follows one name from a place, which must be a directory. What the name leads to need not
exist. The root is its own parent. -/
def step (place : List String) (name : String) : Except StorageFault (List String) := do
  files.enter here place
  if name = "." then return place
  else if name = ".." then return place.dropLast
  else if maxName < name.utf8ByteSize then throw .tooLong
  else return place ++ [name]

/-- Where a path begins, unless its text is refused whole. -/
def start (path : String) : Except StorageFault (List String) :=
  if path.toList.contains '\x00' then .error .nulByte
  else if path.isEmpty then .error .notFound
  else if maxPath < path.utf8ByteSize then .error .tooLong
  else .ok (if Path.isAbsolute path then [] else here)

/-- Where a path leads, if all names on it but the last can be looked up. -/
def locate (path : String) : Except StorageFault (List String) := do
  (Path.names path).foldlM (files.step here) (← start here path)

/-- Reads the file at a path. A slash at the end of a path asks for a directory. -/
def read (path : String) : Except StorageFault ByteArray := do
  let place ← files.locate here path
  if Path.endsInSlash path then files.enter here place
  match files.find? place with
  | some content => return content
  | none => throw (if files.isDirectory here place then .isDirectory else .notFound)

/-- Writes the file at a path. With a slash at its end the path is refused as a directory before
its last name is looked up. -/
def write (path : String) (content : ByteArray) : Except StorageFault Files := do
  if Path.endsInSlash path then
    files.enter here (← (Path.names path).dropLast.foldlM (files.step here) (← start here path))
    throw .isDirectory
  let place ← files.locate here path
  if files.isDirectory here place then throw .isDirectory
  return files.put place content

end Paths

/-- Files as storage. A write that fails changes nothing. -/
def storage (here : List String := []) : Storage (StateM Files) where
  read path := return (← get).read here path
  write path content := fun files =>
    match files.write here path content with
    | .ok files => (.ok (), files)
    | .error fault => (.error fault, files)

end Files

end FormCode

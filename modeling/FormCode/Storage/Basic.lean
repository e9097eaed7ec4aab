/-! Storage: reading and writing whole files by path. -/
namespace FormCode

inductive StorageFault where
  | notFound
  | denied
  | notDirectory
  | isDirectory
  | tooLong
  | nulByte
  | notText
  | other (message : String)
  deriving DecidableEq, Repr

def StorageFault.message : StorageFault → String
  | .notFound => "No such file or directory (os error 2)"
  | .denied => "Permission denied (os error 13)"
  | .notDirectory => "Not a directory (os error 20)"
  | .isDirectory => "Is a directory (os error 21)"
  | .tooLong => "File name too long (os error 36)"
  | .nulByte => "file name contained an unexpected NUL byte"
  | .notText => "stream did not contain valid UTF-8"
  | .other message => message

/-- A place that holds files, reached by effects of `m`. -/
structure Storage (m : Type → Type) where
  read : String → m (Except StorageFault ByteArray)
  write : String → ByteArray → m (Except StorageFault Unit)

namespace Storage

variable {m : Type → Type} [Monad m]

/-- The text in a file, whose bytes must be valid UTF-8. -/
def readText (storage : Storage m) (path : String) : m (Except StorageFault String) := do
  match ← storage.read path with
  | .error fault => return .error fault
  | .ok bytes =>
    match String.fromUTF8? bytes with
    | some text => return .ok text
    | none => return .error .notText

def writeText (storage : Storage m) (path text : String) : m (Except StorageFault Unit) :=
  storage.write path text.toUTF8

end Storage

end FormCode

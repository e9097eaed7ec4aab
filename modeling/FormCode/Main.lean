import FormCode.Command.Run

/-! The command on the files of the system. -/
namespace FormCode

def StorageFault.ofSystem : IO.Error → StorageFault
  | .noFileOrDirectory .. => .notFound
  | .permissionDenied .. => .denied
  | .inappropriateType _ code _ => if code = 20 then .notDirectory else .isDirectory
  | error => .other (toString error)

def attempt {α : Type} (action : IO α) : IO (Except StorageFault α) := do
  try return .ok (← action)
  catch error => return .error (.ofSystem error)

def systemStorage : Storage IO where
  read path := attempt (IO.FS.readBinFile path)
  write path content := attempt (IO.FS.writeBinFile path content)

end FormCode

def main (args : List String) : IO UInt32 := do
  let report ← FormCode.Command.run FormCode.systemStorage args
  IO.print report.out
  IO.eprint report.err
  return UInt32.ofNat report.exit

import FormCode.Code.Machine
import FormCode.Expr.OfForm
import FormCode.Reader
import FormCode.Storage.Basic
import FormCode.Storage.Path

/-! Source texts: evaluating, analyzing and compiling them. -/
namespace FormCode.Source

open Code

def eval (source : String) : Except Error Value := do
  let form ← Reader.readFirst source
  let expr ← (Expr.ofForm form).mapError Expr.report
  return expr.eval

def analyze (source : String) : Except Error (List Expr) := do
  let forms ← Reader.readAll source
  (forms.mapM Expr.ofForm).mapError Expr.report

def assemble (target : Target) (name : String) (body : List Expr) : Except Error CodeUnit :=
  match (emitBody .tail body).run (.empty target) with
  | .ok _ assembly => .ok (assembly.finish name)
  | .error fault _ => .error fault.report

/-- The unit that runs all forms and returns the value of the last. -/
def compile (target : Target) (name source : String) : Except Error CodeUnit := do
  let body ← analyze source
  assemble target name body

def unitName (path : String) : String := (Path.stem? path).getD "main"

def storageError (path : String) (fault : StorageFault) : Error :=
  .storage s!"{path}: {fault.message}"

variable {m : Type → Type} [Monad m]

def writeListing (storage : Storage m) (path : String) (unit : CodeUnit) :
    m (Except Error Unit) := do
  return (← storage.writeText path unit.listing).mapError (storageError path)

def compileFile (storage : Storage m) (target : Target) (input output : String) :
    m (Except Error CodeUnit) := do
  match ← storage.readText input with
  | .error fault => return .error (storageError input fault)
  | .ok source =>
    match compile target (unitName input) source with
    | .error error => return .error error
    | .ok unit => return (← writeListing storage output unit).map fun _ => unit

end FormCode.Source

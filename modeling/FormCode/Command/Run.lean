import FormCode.Command.Arguments
import FormCode.Command.Report
import FormCode.Source

/-! The command: it evaluates, compiles or runs one source text. Files are reached through a
storage, so the command is one function for files on disk and in memory. -/
namespace FormCode.Command

open Code

def versionLine : String := "Clove Compiler v0.1.0\n"

def usage : String := versionLine ++
  "Usage: clovec [options] <source_file.clj>\n" ++
  "       clovec [options] -e <form>\n" ++
  "\n" ++
  "Modes:\n" ++
  "  (default)             发射并打印指令清单\n" ++
  "  --eval                解释执行第一个 form\n" ++
  "  --run                 发射后执行\n" ++
  "\n" ++
  "Options:\n" ++
  "  --target=<name>       目标后端 (stack/compact/register，默认: stack)\n" ++
  "  -o <file>             把指令清单写到文件\n" ++
  "  -v, -vv               输出更多日志 (也可用 RUST_LOG)\n" ++
  "  -q                    只输出错误日志\n" ++
  "  --version             显示版本号\n" ++
  "  --help, -h            显示帮助信息\n"

def Input.shown : Input → String
  | .form _ path? => path?.getD "<expr>"
  | .file path => path

def Input.unitName : Input → String
  | .form _ _ => "repl"
  | .file path => Source.unitName path

variable {m : Type → Type} [Monad m]

def Input.text (storage : Storage m) : Input → m (Except StorageFault String)
  | .form text _ => return .ok text
  | .file path => storage.readText path

/-- Gives a unit out as its listing, to the output file if there is one, else as text if the mode
is to emit; then runs it if the mode is to run. -/
def deliver (storage : Storage m) (job : Job) (unit : CodeUnit) : m (Except Error String) := do
  let written ← match job.output? with
    | some path => Source.writeListing storage path unit
    | none => pure (.ok ())
  return do
    written
    match job.mode with
    | .run => return (← unit.run.mapError RunFault.report).text ++ "\n"
    | _ => return if job.output?.isSome then "" else unit.listing

def perform (storage : Storage m) (job : Job) (source : String) : m (Except Error String) :=
  match job.mode with
  | .eval => return (Source.eval source).map fun value => value.text ++ "\n"
  | _ =>
    match Source.compile job.target job.input.unitName source with
    | .error error => return .error error
    | .ok unit => deliver storage job unit

def process (storage : Storage m) (job : Job) : m Report := do
  match ← job.input.text storage with
  | .error fault =>
    return .failure
      s!"Error: failed to read source file '{job.input.shown}': {fault.message}\n"
  | .ok source =>
    match ← perform storage job source with
    | .ok out => return .success out
    | .error error => return .failure (explain error source job.input.shown)

def run (storage : Storage m) (args : List String) : m Report :=
  match Request.ofArgs args with
  | .error misuse => return ⟨1, usage, s!"Error: {misuse.message}\n\n"⟩
  | .ok .version => return .success versionLine
  | .ok .help => return .success usage
  | .ok (.process job) => process storage job

end FormCode.Command

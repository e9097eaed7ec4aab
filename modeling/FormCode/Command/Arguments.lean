import FormCode.Code.Target

/-! The arguments of the command. -/
namespace FormCode.Command

open Code

inductive Mode where
  /-- Compile and give the listing out. -/
  | emit
  /-- Evaluate the first form. -/
  | eval
  /-- Compile and run. -/
  | run
  deriving DecidableEq, Repr

/-- Where the source text comes from. A form given as an argument is the source even where a file
is named too. -/
inductive Input where
  | form (text : String) (path? : Option String)
  | file (path : String)
  deriving DecidableEq, Repr

structure Job where
  mode : Mode
  target : Target
  output? : Option String
  input : Input
  deriving DecidableEq, Repr

inductive Request where
  | version
  | help
  | process (job : Job)
  deriving DecidableEq, Repr

inductive Misuse where
  | outputWithoutPath
  | formWithoutText
  | unknownTarget (name : String)
  | unknownOption (arg : String)
  | secondInput
  | noInput
  deriving DecidableEq, Repr

def Misuse.message : Misuse → String
  | .outputWithoutPath => "-o requires a file path"
  | .formWithoutText => "-e requires a form"
  | .unknownTarget name => s!"unknown target '{name}'"
  | .unknownOption arg => s!"unknown option: {arg}"
  | .secondInput => "multiple input files given"
  | .noInput => "no input file or -e form given"

structure Options where
  mode : Mode
  target : Target
  output? : Option String
  form? : Option String
  path? : Option String
  deriving DecidableEq, Repr

namespace Options

def initial : Options := ⟨.emit, .stack, none, none, none⟩

def job (options : Options) : Except Misuse Job :=
  match options.form?, options.path? with
  | some form, path? => .ok ⟨options.mode, options.target, options.output?, .form form path?⟩
  | none, some path => .ok ⟨options.mode, options.target, options.output?, .file path⟩
  | none, none => .error .noInput

def take (options : Options) (arg : String) : Except Misuse Options :=
  let option := "--target=".toList
  if option.isPrefixOf arg.toList then
    let name := String.ofList (arg.toList.drop option.length)
    match Target.named? name with
    | some target => .ok { options with target }
    | none => .error (.unknownTarget name)
  else if arg.toList.head? == some '-' then .error (.unknownOption arg)
  else if options.path?.isSome then .error .secondInput
  else .ok { options with path? := some arg }

/-- Reads the arguments from left to right. Requests for help or the version end the reading, and
so does the first misuse. The options for log output are accepted; nothing is logged. -/
def parse (options : Options) : List String → Except Misuse Request
  | [] => options.job.map .process
  | "--version" :: _ => .ok .version
  | "--help" :: _ => .ok .help
  | "-h" :: _ => .ok .help
  | "--eval" :: args => parse { options with mode := .eval } args
  | "--run" :: args => parse { options with mode := .run } args
  | "-v" :: args => parse options args
  | "-vv" :: args => parse options args
  | "-q" :: args => parse options args
  | ["-o"] => .error .outputWithoutPath
  | "-o" :: path :: args => parse { options with output? := some path } args
  | ["-e"] => .error .formWithoutText
  | "-e" :: form :: args => parse { options with form? := some form } args
  | arg :: args => do
    let options ← options.take arg
    parse options args

end Options

def Request.ofArgs (args : List String) : Except Misuse Request := Options.initial.parse args

end FormCode.Command

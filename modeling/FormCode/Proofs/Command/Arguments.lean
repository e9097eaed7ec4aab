import FormCode.Command.Arguments
import FormCode.Proofs.Except

/-! The arguments that ask for a job. They are options with their operands, in any order and number,
and at most one path. Where several options settle the same thing the last one counts. Reading finds
these arguments in the words of a command line, and accepts no others. -/
namespace FormCode.Command

open Code

inductive Argument where
  | eval
  | run
  | log (option : String)
  | target (name : String)
  | output (path : String)
  | form (text : String)
  | input (path : String)
  deriving DecidableEq, Repr

namespace Argument

def words : Argument → List String
  | .eval => ["--eval"]
  | .run => ["--run"]
  | .log option => [option]
  | .target name => ["--target=" ++ name]
  | .output path => ["-o", path]
  | .form text => ["-e", text]
  | .input path => [path]

/-- Operands of `-o` and `-e` can be any texts. A path must not look like an option. -/
def Allowed : Argument → Prop
  | .log option => option ∈ ["-v", "-vv", "-q"]
  | .target name => ∃ target, Target.named? name = some target
  | .input path => path.toList.head? ≠ some '-'
  | _ => True

def mode? : Argument → Option Mode
  | .eval => some .eval
  | .run => some .run
  | _ => none

def target? : Argument → Option Target
  | .target name => Target.named? name
  | _ => none

def output? : Argument → Option String
  | .output path => some path
  | _ => none

def form? : Argument → Option String
  | .form text => some text
  | _ => none

def path? : Argument → Option String
  | .input path => some path
  | _ => none

end Argument

namespace Options

def settle (options : Options) (argument : Argument) : Options where
  mode := argument.mode?.getD options.mode
  target := argument.target?.getD options.target
  output? := argument.output?.or options.output?
  form? := argument.form?.or options.form?
  path? := argument.path?.or options.path?

theorem settle_target {name : String} {target : Target} (options : Options)
    (named : Target.named? name = some target) :
    options.settle (.target name) = { options with target } := by
  simp [settle, Argument.mode?, Argument.target?, Argument.output?, Argument.form?,
    Argument.path?, named]

def settleAll (options : Options) (arguments : List Argument) : Options :=
  arguments.foldl settle options

/-- The last argument that settles something is the one that counts. -/
theorem settleAll_last {α : Type} (settled : Options → Option α) (told : Argument → Option α)
    (step : ∀ options argument,
      settled (settle options argument) = (told argument).or (settled options))
    (options : Options) (arguments : List Argument) :
    settled (options.settleAll arguments) =
      (arguments.filterMap told).getLast?.or (settled options) := by
  induction arguments generalizing options with
  | nil => rfl
  | cons argument arguments ih =>
    have rest := ih (options.settle argument)
    rw [step] at rest
    rw [settleAll, List.foldl_cons, ← settleAll, rest]
    cases said : told argument with
    | none => simp [said]
    | some value => cases last : (arguments.filterMap told).getLast? <;>
        simp [said, List.getLast?_cons, last]

end Options

/-- The words are those of the arguments, which together with what was settled before give at most
one path and make up the job. -/
structure Options.Reads (options : Options) (arguments : List Argument) (args : List String)
    (job : Job) : Prop where
  words : args = arguments.flatMap Argument.words
  allowed : ∀ argument ∈ arguments, argument.Allowed
  onePath : (options.path?.toList ++ arguments.filterMap Argument.path?).length ≤ 1
  settled : (options.settleAll arguments).job = .ok job

namespace Options

variable {options next : Options} {argument : Argument} {arg : String}

theorem take_input {path : String} (plain : path.toList.head? ≠ some '-')
    (free : options.path? = none) :
    options.take path = .ok { options with path? := some path } := by
  have apart (option : List Char) (dash : option.head? = some '-') :
      ¬ option.isPrefixOf path.toList = true := by
    rw [List.isPrefixOf_iff_prefix]
    rintro ⟨rest, chars⟩
    exact plain (by rw [← chars, List.head?_append, dash, Option.some_or])
  have noOption : ¬ (path.toList.head? == some '-') = true := by simpa using plain
  unfold take
  rw [if_neg (apart _ rfl), if_neg noOption, free]
  rfl

theorem take_eq_ok (h : options.take arg = .ok next) : ∃ argument : Argument,
    argument.words = [arg] ∧ argument.Allowed ∧ next = options.settle argument ∧
      (options.path? = none ∨ argument.path? = none) := by
  unfold take at h
  dsimp only at h
  split at h
  case isTrue begins =>
    obtain ⟨rest, chars⟩ := List.isPrefixOf_iff_prefix.mp begins
    have name : arg.toList.drop "--target=".toList.length = rest := by
      rw [← chars, List.drop_left]
    rw [name] at h
    split at h
    case h_1 target named =>
      cases h
      have spelled : "--target=" ++ String.ofList rest = arg := by
        rw [← String.ofList_toList (s := arg), ← chars, String.ofList_append, String.ofList_toList]
      have words : (Argument.target (.ofList rest)).words = [arg] := by
        rw [Argument.words, spelled]
      exact ⟨_, words, ⟨target, named⟩, (settle_target options named).symm, .inr rfl⟩
    case h_2 => contradiction
  case isFalse =>
    split at h
    case isTrue => contradiction
    case isFalse plain =>
      split at h
      case isTrue => contradiction
      case isFalse free =>
        cases h
        have allowed : arg.toList.head? ≠ some '-' := by simpa using plain
        exact ⟨.input arg, rfl, allowed, rfl, .inl (by simpa using free)⟩

theorem parse_target {name : String} {target : Target} (named : Target.named? name = some target)
    (args : List String) :
    options.parse (("--target=" ++ name) :: args) = { options with target }.parse args := by
  unfold Target.named? at named
  split at named
  case h_1 | h_2 | h_3 =>
    cases named
    rfl
  case h_4 => contradiction

theorem parse_input {path : String} (plain : path.toList.head? ≠ some '-')
    (free : options.path? = none) (args : List String) :
    options.parse (path :: args) = { options with path? := some path }.parse args := by
  rw [parse, take_input plain free]
  · rfl
  -- None of the options is a plain path.
  all_goals
    intros
    subst path
    exact plain rfl

theorem parse_argument (allowed : argument.Allowed)
    (free : options.path? = none ∨ argument.path? = none) (args : List String) :
    options.parse (argument.words ++ args) = (options.settle argument).parse args := by
  cases argument with
  | eval | run => simp only [Argument.words, List.singleton_append, parse]; rfl
  | output | form => simp only [Argument.words, List.cons_append, List.nil_append, parse]; rfl
  | log option =>
    have member : option = "-v" ∨ option = "-vv" ∨ option = "-q" := by
      simpa [Argument.Allowed] using allowed
    rcases member with rfl | rfl | rfl <;>
      simp only [Argument.words, List.singleton_append, parse] <;> rfl
  | target name =>
    obtain ⟨target, named⟩ := allowed
    rw [Argument.words, List.singleton_append, parse_target named, settle_target options named]
  | input path =>
    have first : options.path? = none := free.resolve_right (by simp [Argument.path?])
    exact parse_input allowed first args

theorem paths_settle (free : options.path? = none ∨ argument.path? = none)
    (arguments : List Argument) :
    (options.settle argument).path?.toList ++ arguments.filterMap Argument.path? =
      options.path?.toList ++ (argument :: arguments).filterMap Argument.path? := by
  rcases free with none | none
  · cases path : argument.path? <;> simp [settle, none, path]
  · simp [settle, none]

theorem exists_reads_cons {args : List String} {job : Job} (argument : Argument)
    (allowed : argument.Allowed) (free : options.path? = none ∨ argument.path? = none)
    (h : ∃ arguments, (options.settle argument).Reads arguments args job) :
    ∃ arguments, options.Reads arguments (argument.words ++ args) job := by
  obtain ⟨arguments, reads⟩ := h
  refine ⟨argument :: arguments, ?_, ?_, ?_, reads.settled⟩
  · rw [reads.words, List.flatMap_cons]
  · exact List.forall_mem_cons.mpr ⟨allowed, reads.allowed⟩
  · rw [← paths_settle free]
    exact reads.onePath

theorem reads_of_parse {args : List String} {job : Job}
    (h : options.parse args = .ok (.process job)) :
    ∃ arguments, options.Reads arguments args job := by
  fun_induction parse options args with
  | case1 options =>
    obtain ⟨made, ofOptions, equal⟩ := map_eq_ok.mp h
    cases equal
    exact ⟨[], rfl, nofun, by cases options.path? <;> simp, ofOptions⟩
  | case2 | case3 | case4 | case10 | case12 => cases h
  | case5 options args ih => exact exists_reads_cons .eval trivial (.inr rfl) (ih h)
  | case6 options args ih => exact exists_reads_cons .run trivial (.inr rfl) (ih h)
  | case7 options args ih =>
    exact exists_reads_cons (.log "-v") (.head _) (.inr rfl) (ih h)
  | case8 options args ih =>
    exact exists_reads_cons (.log "-vv") (.tail _ (.head _)) (.inr rfl) (ih h)
  | case9 options args ih =>
    exact exists_reads_cons (.log "-q") (.tail _ (.tail _ (.head _))) (.inr rfl) (ih h)
  | case11 options path args ih => exact exists_reads_cons (.output path) trivial (.inr rfl) (ih h)
  | case13 options text args ih => exact exists_reads_cons (.form text) trivial (.inr rfl) (ih h)
  -- No other word has an operand of its own.
  | case14 options arg args _ _ _ _ _ _ _ _ _ _ _ _ ih =>
    obtain ⟨next, taken, rest⟩ := bind_eq_ok.mp h
    obtain ⟨argument, words, allowed, rfl, free⟩ := take_eq_ok taken
    have longer := exists_reads_cons argument allowed free (ih _ rest)
    rw [words] at longer
    exact longer

theorem Reads.parse {arguments : List Argument} {args : List String} {job : Job}
    (reads : options.Reads arguments args job) : options.parse args = .ok (.process job) := by
  obtain ⟨rfl, allowed, onePath, settled⟩ := reads
  induction arguments generalizing options with
  | nil =>
    rw [List.flatMap_nil, Options.parse]
    exact map_eq_ok.mpr ⟨job, settled, rfl⟩
  | cons argument arguments ih =>
    rw [List.forall_mem_cons] at allowed
    have free : options.path? = none ∨ argument.path? = none := by
      cases path : argument.path? with
      | none => exact .inr rfl
      | some path =>
        cases before : options.path? with
        | none => exact .inl rfl
        | some => simp [path, before] at onePath
    rw [← paths_settle free] at onePath
    rw [List.flatMap_cons, parse_argument allowed.1 free]
    exact ih allowed.2 onePath settled

end Options

section Job

variable {arguments : List Argument} {args : List String} {job : Job}

theorem eq_toList_getLast? {α : Type} {xs : List α} (short : xs.length ≤ 1) :
    xs = xs.getLast?.toList := by
  match xs, short with
  | [], _ => rfl
  | [x], _ => rfl

/-- What the arguments of a job say. The last option of a kind counts, and a form is the source
even where there is a path. -/
theorem Options.Reads.fields (reads : Options.initial.Reads arguments args job) :
    job.mode = (arguments.filterMap Argument.mode?).getLast?.getD .emit ∧
    job.target = (arguments.filterMap Argument.target?).getLast?.getD .stack ∧
    job.output? = (arguments.filterMap Argument.output?).getLast? ∧
    ((∃ text, (arguments.filterMap Argument.form?).getLast? = some text ∧
        job.input = .form text (arguments.filterMap Argument.path?).head?) ∨
      arguments.filterMap Argument.form? = [] ∧
        ∃ path, arguments.filterMap Argument.path? = [path] ∧ job.input = .file path) := by
  have mode := settleAll_last (fun options => some options.mode) Argument.mode?
    (fun options argument => by cases argument <;> rfl) initial arguments
  have target := settleAll_last (fun options => some options.target) Argument.target?
    (fun options argument => Option.or_some.symm) initial arguments
  have output := settleAll_last output? Argument.output? (fun _ _ => rfl) initial arguments
  have form := settleAll_last form? Argument.form? (fun _ _ => rfl) initial arguments
  have path := settleAll_last path? Argument.path? (fun _ _ => rfl) initial arguments
  have made := reads.settled
  -- From here on only what the last options are matters.
  generalize initial.settleAll arguments = last at *
  rw [Option.or_some, Option.some.injEq] at mode target
  simp only [initial, Option.or_none] at output form path
  have paths : arguments.filterMap Argument.path? = last.path?.toList := by
    rw [path]
    exact eq_toList_getLast? reads.onePath
  rw [paths]
  unfold Options.job at made
  cases given : last.form? with
  | some text =>
    simp only [given] at made
    cases made
    have first : last.path?.toList.head? = last.path? := by cases last.path? <;> rfl
    exact ⟨mode, target, output, .inl ⟨text, form.symm.trans given, by rw [first]⟩⟩
  | none =>
    cases named : last.path? with
    | none =>
      simp only [given, named] at made
      contradiction
    | some file =>
      simp only [given, named] at made
      cases made
      have noForm := List.getLast?_eq_none_iff.mp (form.symm.trans given)
      exact ⟨mode, target, output, .inr ⟨noForm, file, rfl, rfl⟩⟩

end Job

theorem ofArgs_process_iff {args : List String} {job : Job} :
    Request.ofArgs args = .ok (.process job) ↔
      ∃ arguments, Options.initial.Reads arguments args job :=
  ⟨Options.reads_of_parse, fun ⟨_, reads⟩ => reads.parse⟩

end FormCode.Command

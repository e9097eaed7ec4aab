import FormCode.Proofs.Command.Arguments
import FormCode.Proofs.Command.Effects
import FormCode.Proofs.Reader.Places

/-! What a report says about the source. Its lines and columns are those of the text that was
evaluated or compiled. The name beside them is the path among the arguments, if there is one, and so
it is the name of that text unless a form was given as well. -/
namespace FormCode.Command

open Code

/-- The source is at fault, in the way in which the job uses it. -/
inductive Job.Rejects (job : Job) (source : String) (error : Error) : Prop
  | evaluating (mode : job.mode = .eval) (failed : Source.eval source = .error error)
  | compiling (mode : job.mode ≠ .eval)
    (failed : Source.compile job.target job.input.unitName source = .error error)

section Rejected

variable {σ : Type} {storage : Storage (StateM σ)} {job : Job} {source : String} {error : Error}

theorem Job.Rejects.perform (rejected : job.Rejects source error) (s : σ) :
    perform storage job source s = (.error error, s) := by
  cases rejected with
  | evaluating mode failed =>
    rw [perform_eval mode, failed]
    rfl
  | compiling mode failed => rw [perform_compile mode, failed]

theorem place?_of_report {fault : Expr.Fault} (h : Expr.report fault = error) :
    error.place? = none := by
  subst h
  rfl

/-- An error that has a place comes from reading the source. -/
theorem Job.Rejects.reading {place : Location} (rejected : job.Rejects source error)
    (located : error.place? = some place) :
    Reader.readFirst source = .error error ∨ Reader.readAll source = .error error := by
  have elsewhere {fault : Expr.Fault} (same : Expr.report fault = error) : False := by
    rw [place?_of_report same] at located
    contradiction
  cases rejected with
  | evaluating _ failed =>
    rcases bind_eq_error.mp failed with unread | ⟨form, -, failed⟩
    · exact .inl unread
    · rcases bind_eq_error.mp failed with failed | ⟨expr, -, evaluated⟩
      · obtain ⟨fault, -, same⟩ := mapError_eq_error.mp failed
        exact (elsewhere same).elim
      · contradiction
  | compiling _ failed =>
    rcases bind_eq_error.mp failed with failed | ⟨body, analyzed, failed⟩
    · rcases bind_eq_error.mp failed with unread | ⟨forms, -, failed⟩
      · exact .inr unread
      · obtain ⟨fault, -, same⟩ := mapError_eq_error.mp failed
        exact (elsewhere same).elim
    · obtain ⟨unit, compiled, -⟩ := Source.compile_of_analyze job.target job.input.unitName analyzed
      obtain ⟨_, same, assembled⟩ := bind_eq_ok.mp compiled
      cases analyzed.symm.trans same
      cases failed.symm.trans assembled

/-- The only error of a text without characters is that it ends. -/
theorem place_in_empty {place : Location} (located : error.place? = some place)
    (failed : Reader.readFirst "" = .error error ∨ Reader.readAll "" = .error error) :
    place = .first := by
  have lexed : Token.lex "" = .ok [] := by decide +kernel
  have ends : Reader.readFirst "" = .error (.reading .first Reader.Fault.endOfInput.message) := by
    rw [Reader.readFirst, Reader.ofSource, lexed]
    rfl
  have noForms : Reader.readAll "" = .ok [] := by
    simp [Reader.readAll, Reader.ofSource, lexed, Except.map, bind, Except.bind, Reader.all,
      Reader.allFrom, Reader.atEnd, Except.mapError]
  rcases failed with failed | failed
  · cases ends.symm.trans failed
    exact (Option.some.inj located).symm
  · cases noForms.symm.trans failed

/-- The place of an error is one in the source, and the report shows its line, unless the source has
no lines at all. -/
theorem Job.Rejects.shows {place : Location} (rejected : job.Rejects source error)
    (located : error.place? = some place) :
    (∃ line, Shows error source place line) ∨ source = "" ∧ place = .first := by
  have failed := rejected.reading located
  by_cases empty : source = ""
  · rw [empty] at failed
    exact .inr ⟨empty, place_in_empty located failed⟩
  · obtain ⟨found, line, shows⟩ := Reader.error_shown empty failed
    cases located.symm.trans shows.stands
    exact .inl ⟨line, shows⟩

theorem explain_injective {shown other : String}
    (h : explain error source shown = explain error source other) : shown = other := by
  have same : toString shown = toString other := by
    unfold explain at h
    split at h
    · simpa using h
    · simpa using h
  exact same

end Rejected

section Origin

variable {σ : Type} {storage : Storage (StateM σ)} {s : σ}

/-- Where the source comes from, and what a report should call it. -/
inductive Origin (storage : Storage (StateM σ)) (s : σ) (forms paths : List String)
    (source : String) : String → Prop
  | form (last : forms.getLast? = some source) : Origin storage s forms paths source "<expr>"
  | file (without : forms = []) (only : paths = [path])
    (read : (storage.readText path s).1 = .ok source) : Origin storage s forms paths source path

/-- A report shows the name of the source, except where a path is given next to a form. -/
theorem Origin.shown_iff {forms paths : List String} {source origin : String}
    (h : Origin storage s forms paths source origin) (onePath : paths.length ≤ 1) :
    paths.head?.getD "<expr>" = origin ↔ forms = [] ∨ ∀ path ∈ paths, path = "<expr>" := by
  cases h with
  | form last =>
    have given : forms ≠ [] := by
      rintro rfl
      contradiction
    match paths, onePath with
    | [], _ => simp
    | [path], _ => simp [given]
  | file without only => simp [without, only]

/-- The source of a job is the last form, or is in the file. The name that is shown for it is the
path, if there is one. -/
theorem Options.Reads.origin {arguments : List Argument} {args : List String} {job : Job}
    (reads : Options.initial.Reads arguments args job) {source : String}
    (read : (job.input.text storage s).1 = .ok source) :
    job.input.shown = (arguments.filterMap Argument.path?).head?.getD "<expr>" ∧
      ∃ origin, Origin storage s (arguments.filterMap Argument.form?)
        (arguments.filterMap Argument.path?) source origin := by
  obtain ⟨-, -, -, ⟨text, last, input⟩ | ⟨without, path, only, input⟩⟩ := reads.fields
  · rw [input] at read ⊢
    cases read
    exact ⟨rfl, _, .form last⟩
  · rw [input] at read ⊢
    exact ⟨by rw [only]; rfl, _, .file without only read⟩

/-- If the source is at fault, nothing is written, and the report has the line and the column in the
source and shows that line. The name in it is that of the source exactly unless the arguments have
both a form and a path that is not called like a form. Log lines, which the options can ask for in
front of the report, are left out. -/
theorem run_report_names (safe : storage.AllOrNothing) {args : List String} {job : Job}
    (request : Request.ofArgs args = .ok (.process job)) {source : String}
    (read : (job.input.text storage s).1 = .ok source) {error : Error}
    (rejected : job.Rejects source error) :
    (∃ arguments, Options.initial.Reads arguments args job) ∧
    ∀ arguments, Options.initial.Reads arguments args job →
      let forms := arguments.filterMap Argument.form?
      let paths := arguments.filterMap Argument.path?
      ∃ origin, Origin storage s forms paths source origin ∧
        run storage args s =
          (.failure (explain error source (paths.head?.getD "<expr>")), s) ∧
        ((run storage args s).1 = .failure (explain error source origin) ↔
          forms = [] ∨ ∀ path ∈ paths, path = "<expr>") ∧
        ∀ place, error.place? = some place →
          (∃ line, Shows error source place line) ∨ source = "" ∧ place = .first := by
  refine ⟨ofArgs_process_iff.mp request, fun arguments reads => ?_⟩
  obtain ⟨shown, origin, stems⟩ := reads.origin read
  have text : job.input.text storage s = (.ok source, s) :=
    Prod.ext read (Input.text_state safe job.input s)
  have reported : run storage args s = (.failure (explain error source job.input.shown), s) := by
    simp only [run, request]
    rw [process_of_text text, rejected.perform]
  rw [shown] at reported
  refine ⟨origin, stems, reported, ?_, fun place located => rejected.shows located⟩
  rw [reported, ← stems.shown_iff reads.onePath]
  constructor
  · intro same
    exact explain_injective (congrArg Report.err same)
  · intro same
    rw [same]

end Origin

/-- The second line of a file is at fault, and the report shows it under the path by which the file
was reached. -/
theorem run_report_names_file :
    let files : Files := ⟨[(["p.clj"], "1\n@".toUTF8)]⟩
    let error : Error := .lexing ⟨2, 1⟩ "Unexpected character: '@'"
    let job : Job := ⟨.run, .stack, none, .file "../p.clj"⟩
    Request.ofArgs ["--run", "../p.clj"] = .ok (.process job) ∧ job.Rejects "1\n@" error ∧
      (run (Files.storage ["home"]) ["--run", "../p.clj"] files).1 =
        .failure (explain error "1\n@" "../p.clj") ∧
      ∃ line, Shows error "1\n@" ⟨2, 1⟩ line := by
  intro files error job
  have request : Request.ofArgs ["--run", "../p.clj"] = .ok (.process job) := by rfl
  have read : (job.input.text (Files.storage ["home"]) files).1 = .ok "1\n@" := by decide +kernel
  have unlexed : Token.lex "1\n@" = .error error := by decide +kernel
  have failed : Source.analyze "1\n@" = .error error := by
    rw [Source.analyze, Reader.readAll, Reader.ofSource, unlexed]
    rfl
  have compiles : job.mode ≠ .eval := by decide
  have rejected : job.Rejects "1\n@" error :=
    .compiling compiles (Source.compile_of_analyze_error _ _ failed)
  have reads : Options.initial.Reads [.run, .input "../p.clj"] ["--run", "../p.clj"] job :=
    ⟨rfl, by simp [Argument.Allowed], Nat.le_refl 1, rfl⟩
  obtain ⟨-, each⟩ := run_report_names (Files.storage_allOrNothing ["home"]) request read rejected
  obtain ⟨origin, -, reported, -, shown⟩ := each _ reads
  have lined := (shown ⟨2, 1⟩ rfl).resolve_right fun empty => absurd empty.1 (by decide)
  exact ⟨request, rejected, congrArg Prod.fst reported, lined⟩

/-- The form is at fault, and the report puts it into the file. -/
theorem run_report_names_other_file :
    let files : Files := ⟨[(["home", "p.clj"], "1".toUTF8)]⟩
    let error : Error := .lexing ⟨1, 1⟩ "Unexpected character: '@'"
    let report := (run (Files.storage ["home"]) ["-e", "@", "p.clj"] files).1
    Request.ofArgs ["-e", "@", "p.clj"] =
        .ok (.process ⟨.emit, .stack, none, .form "@" (some "p.clj")⟩) ∧
      report = .failure (explain error "@" "p.clj") ∧
      report ≠ .failure (explain error "@" "<expr>") := by
  decide +kernel

end FormCode.Command

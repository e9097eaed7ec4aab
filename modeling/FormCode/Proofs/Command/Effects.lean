import FormCode.Command.Run
import FormCode.Proofs.Command.Arguments
import FormCode.Proofs.Source.Compile
import FormCode.Proofs.Storage.Files

/-! What the command leaves of the storage. It writes at most once, the listing of a unit, and what
comes after that write is a run of the unit, which cannot fail. So a command that fails has written
nothing. -/
namespace FormCode

variable {σ : Type} {storage : Storage (StateM σ)}

namespace Command

open Code

theorem Input.text_state (safe : storage.AllOrNothing) (input : Input) (s : σ) :
    (input.text storage s).2 = s := by
  cases input with
  | form => rfl
  | file path => exact safe.readText path s

def Job.printed (job : Job) (unit : CodeUnit) (value : Value) : String :=
  match job.mode with
  | .run => value.text ++ "\n"
  | _ => if job.output?.isSome then "" else unit.listing

section Deliver

variable {job : Job} {unit : CodeUnit} {value : Value} {s after : σ} {path : String}

theorem deliver_without_output (runs : unit.run = .ok value) (output : job.output? = none) :
    deliver storage job unit s = (.ok (job.printed unit value), s) := by
  obtain ⟨mode, target, output?, input⟩ := job
  cases output
  cases mode <;> simp only [deliver, Job.printed, runs] <;> rfl

/-- The listing is written before the unit runs, but the run adds no fault of its own. -/
theorem deliver_with_output {result : Except StorageFault Unit} (runs : unit.run = .ok value)
    (output : job.output? = some path)
    (written : storage.writeText path unit.listing s = (result, after)) :
    deliver storage job unit s = ((result.mapError (Source.storageError path)).map
      fun _ => job.printed unit value, after) := by
  obtain ⟨mode, target, output?, input⟩ := job
  cases output
  have listed : Source.writeListing storage path unit s =
      (result.mapError (Source.storageError path), after) := by
    simp only [Source.writeListing, bind, StateT.bind, written]
    rfl
  cases result <;> cases mode <;>
    simp only [deliver, Job.printed, bind, StateT.bind, listed, runs] <;> rfl

end Deliver

/-- What performing a job on its source comes to: it gives text out, or fails, with the storage as
it was, or it has written the listing of a unit. -/
inductive Performance (storage : Storage (StateM σ)) (job : Job) (source : String) (s : σ) :
    Except Error String → σ → Prop
  | printed (kept : job.output? = none ∨ job.mode = .eval) :
    Performance storage job source s (.ok out) s
  | failed : Performance storage job source s (.error error) s
  | wrote (compiles : job.mode ≠ .eval) (output : job.output? = some path)
    (compiled : Source.compile job.target job.input.unitName source = .ok unit)
    (written : storage.writeText path unit.listing s = (.ok (), after)) :
    Performance storage job source s (.ok out) after

theorem run_of_compile {target : Target} {name source : String} {unit : CodeUnit}
    (h : Source.compile target name source = .ok unit) : ∃ value, unit.run = .ok value := by
  obtain ⟨body, analyzed, _⟩ := bind_eq_ok.mp h
  obtain ⟨same, compiled, runs⟩ := Source.compile_of_analyze target name analyzed
  cases h.symm.trans compiled
  exact ⟨_, runs⟩

theorem deliver_performance (safe : storage.AllOrNothing) {job : Job} {source : String}
    {unit : CodeUnit} (compiles : job.mode ≠ .eval)
    (compiled : Source.compile job.target job.input.unitName source = .ok unit) (s : σ) :
    Performance storage job source s (deliver storage job unit s).1
      (deliver storage job unit s).2 := by
  obtain ⟨value, runs⟩ := run_of_compile compiled
  cases output : job.output? with
  | none =>
    rw [deliver_without_output runs output]
    exact .printed (.inl output)
  | some path =>
    cases written : storage.writeText path unit.listing s with
    | mk result after =>
      rw [deliver_with_output runs output written]
      cases result with
      | ok =>
        exact .wrote compiles output compiled written
      | error fault =>
        have same := safe.write path unit.listing.toUTF8 s fault (congrArg Prod.fst written)
        have kept : after = s := (congrArg Prod.snd written).symm.trans same
        rw [kept]
        exact .failed

theorem perform_eval {job : Job} (evaluates : job.mode = .eval) (source : String) (s : σ) :
    perform storage job source s =
      ((Source.eval source).map fun value => value.text ++ "\n", s) := by
  simp only [perform, evaluates]
  rfl

theorem perform_compile {job : Job} (compiles : job.mode ≠ .eval) (source : String) (s : σ) :
    perform storage job source s =
      match Source.compile job.target job.input.unitName source with
      | .error error => (.error error, s)
      | .ok unit => deliver storage job unit s := by
  obtain ⟨mode, target, output?, input⟩ := job
  cases mode with
  | eval => contradiction
  | emit => simp only [perform]; cases Source.compile target input.unitName source <;> rfl
  | run => simp only [perform]; cases Source.compile target input.unitName source <;> rfl

theorem perform_performance (safe : storage.AllOrNothing) (job : Job) (source : String) (s : σ) :
    Performance storage job source s (perform storage job source s).1
      (perform storage job source s).2 := by
  by_cases evaluates : job.mode = .eval
  · rw [perform_eval evaluates]
    cases Source.eval source with
    | ok value => exact .printed (.inr evaluates)
    | error error => exact .failed
  · rw [perform_compile evaluates]
    cases compiled : Source.compile job.target job.input.unitName source with
    | error error => exact .failed
    | ok unit => exact deliver_performance safe evaluates compiled s

/-- Nothing is asked for that would be written. -/
inductive Quiet (args : List String) : Prop
  | version (request : Request.ofArgs args = .ok .version)
  | help (request : Request.ofArgs args = .ok .help)
  | printing (request : Request.ofArgs args = .ok (.process job))
    (kept : job.output? = none ∨ job.mode = .eval)

/-- The listing of a unit is asked for, in the file at `path`. -/
inductive Listed (storage : Storage (StateM σ)) (args : List String) (s : σ) (path : String)
    (unit : CodeUnit) : Prop
  | intro (request : Request.ofArgs args = .ok (.process job)) (compiles : job.mode ≠ .eval)
    (output : job.output? = some path) (option : ["-o", path] <:+: args)
    (read : (job.input.text storage s).1 = .ok source)
    (compiled : Source.compile job.target job.input.unitName source = .ok unit)
    (shown : unit.listing? = some unit.listing)

/-- How a command can end, and what it leaves of the storage. -/
inductive Ending (storage : Storage (StateM σ)) (args : List String) (s : σ) : Report → σ → Prop
  | failed (nonzero : report.exit ≠ 0) : Ending storage args s report s
  | quiet (quiet : Quiet args) (zero : report.exit = 0) : Ending storage args s report s
  | wrote (listed : Listed storage args s path unit)
    (written : storage.writeText path unit.listing s = (.ok (), after)) (zero : report.exit = 0) :
    Ending storage args s report after

theorem Ending.eq_of_failed {args : List String} {s after : σ} {report : Report}
    (h : Ending storage args s report after) (failed : report.exit ≠ 0) : after = s := by
  cases h with
  | failed | quiet => rfl
  | wrote _ _ zero => exact absurd zero failed

theorem output_of_ofArgs {args : List String} {job : Job} {path : String}
    (request : Request.ofArgs args = .ok (.process job)) (output : job.output? = some path) :
    ["-o", path] <:+: args := by
  obtain ⟨arguments, reads⟩ := ofArgs_process_iff.mp request
  obtain ⟨-, -, last, -⟩ := reads.fields
  rw [output] at last
  obtain ⟨argument, member, told⟩ := List.mem_filterMap.mp (List.mem_of_getLast? last.symm)
  have said : argument = .output path := by
    cases argument with
    | output other => exact congrArg Argument.output (Option.some.inj told)
    | eval | run | log | target | form | input => contradiction
  rw [reads.words, List.flatMap_def]
  exact List.infix_of_mem_flatten (List.mem_map.mpr ⟨argument, member, by rw [said]; rfl⟩)

theorem process_of_text {job : Job} {source : String} {s between : σ}
    (read : job.input.text storage s = (.ok source, between)) :
    process storage job s = match perform storage job source between with
      | (.ok out, after) => (.success out, after)
      | (.error error, after) => (.failure (explain error source job.input.shown), after) := by
  cases performed : perform storage job source between with
  | mk outcome after =>
    simp only [process, bind, StateT.bind, read, performed]
    cases outcome <;> rfl

theorem process_ending (safe : storage.AllOrNothing) {args : List String} {job : Job}
    (request : Request.ofArgs args = .ok (.process job)) (s : σ) :
    Ending storage args s (process storage job s).1 (process storage job s).2 := by
  have same := Input.text_state safe job.input s
  cases read : job.input.text storage s with
  | mk result between =>
    rw [read] at same
    cases same
    cases result with
    | error fault =>
      simp only [process, bind, StateT.bind, read]
      exact .failed Nat.one_ne_zero
    | ok source =>
      have performance := perform_performance safe job source between
      cases performed : perform storage job source between with
      | mk outcome after =>
        rw [performed] at performance
        rw [process_of_text read, performed]
        cases performance with
        | printed kept => exact .quiet (.printing request kept) rfl
        | failed => exact .failed Nat.one_ne_zero
        | wrote compiles output compiled written =>
          have listed := Listed.intro request compiles output (output_of_ofArgs request output)
            (congrArg Prod.fst read) compiled (Source.listing?_of_compile compiled)
          exact .wrote listed written rfl

theorem run_ending (safe : storage.AllOrNothing) (args : List String) (s : σ) :
    Ending storage args s (run storage args s).1 (run storage args s).2 := by
  unfold run
  cases request : Request.ofArgs args with
  | error misuse => exact .failed Nat.one_ne_zero
  | ok asked =>
    cases asked with
    | version => exact .quiet (.version request) rfl
    | help => exact .quiet (.help request) rfl
    | process job => exact process_ending safe request s

/-- A command that fails leaves all as it was. One that succeeds leaves it so too, or what it does
is to write the listing of a unit to the output path, and nothing else. Of files, the one at that
path then holds the listing, and no other has changed. -/
theorem run_changes (args : List String) :
    (∀ (σ : Type) (storage : Storage (StateM σ)) (s after : σ) (report : Report),
      storage.AllOrNothing → run storage args s = (report, after) →
      (report.exit ≠ 0 → after = s) ∧
      (report.exit = 0 → Quiet args ∧ after = s ∨ ∃ path unit, Listed storage args s path unit ∧
        storage.writeText path unit.listing s = (.ok (), after))) ∧
    ∀ (here : List String) (files after : Files) (report : Report),
      run (Files.storage here) args files = (report, after) → report.exit = 0 →
      Quiet args ∧ after = files ∨ ∃ path unit place,
        Listed (Files.storage here) args files path unit ∧
        files.locate here path = .ok place ∧ after.read here path = .ok unit.listing.toUTF8 ∧
        ∀ other, other ≠ place → after.find? other = files.find? other := by
  constructor
  · intro σ storage s after report safe ran
    have ending := run_ending safe args s
    rw [ran] at ending
    refine ⟨ending.eq_of_failed, fun zero => ?_⟩
    cases ending with
    | failed nonzero => contradiction
    | quiet quiet => exact .inl ⟨quiet, rfl⟩
    | wrote listed written => exact .inr ⟨_, _, listed, written⟩
  · intro here files after report ran zero
    have ending := run_ending (Files.storage_allOrNothing here) args files
    rw [ran] at ending
    cases ending with
    | failed nonzero => contradiction
    | quiet quiet => exact .inl ⟨quiet, rfl⟩
    | wrote listed written =>
      have stored := Files.write_of_storage written
      obtain ⟨place, _, leads, rfl⟩ := Files.write_eq_ok stored
      exact .inr ⟨_, _, place, listed, leads, Files.read_of_write stored,
        fun other apart => Files.find?_put_of_ne files _ apart⟩

/-- The listing is on file when the unit has run, outside the working directory as well. Without its
source the command leaves the output path alone. -/
theorem run_changes_listing :
    let files : Files := ⟨[(["home", "in"], "1".toUTF8)]⟩
    let unit : CodeUnit := ⟨"repl", "compact", [.vector []], [.load (.constant ⟨0⟩), .ret]⟩
    let compiling := run (Files.storage ["home"])
      ["--run", "-o", "/out", "--target=compact", "-e", "[]"] files
    let missing := run (Files.storage ["home"]) ["--run", "-o", "in", "out"] files
    (compiling.1.exit = 0 ∧ compiling.2.read ["home"] "/out" = .ok unit.listing.toUTF8) ∧
      missing.1.exit ≠ 0 ∧ missing.2 = files := by
  intro files unit compiling missing
  have succeeded : compiling.1.exit = 0 := by decide +kernel
  have failed : missing.1.exit ≠ 0 := by decide +kernel
  let job : Job := ⟨.run, .compact, some "/out", .form "[]" none⟩
  have request : Request.ofArgs ["--run", "-o", "/out", "--target=compact", "-e", "[]"] =
      .ok (.process job) := by rfl
  have compiled : Source.compile .compact "repl" "[]" = .ok unit := by cbv
  obtain ⟨each, -⟩ := run_changes ["--run", "-o", "in", "out"]
  obtain ⟨kept, -⟩ := each _ _ _ _ _ (Files.storage_allOrNothing ["home"]) (Prod.eta missing).symm
  obtain ⟨-, written⟩ := run_changes ["--run", "-o", "/out", "--target=compact", "-e", "[]"]
  refine ⟨⟨succeeded, ?_⟩, failed, kept failed⟩
  obtain ⟨quiet, -⟩ | ⟨path, other, place, listed, -, stored, -⟩ :=
    written ["home"] files _ _ (Prod.eta compiling).symm succeeded
  · cases quiet with
    | version same | help same =>
      rw [request] at same
      cases same
    | printing same kept =>
      rw [request] at same
      cases same
      rcases kept with kept | kept <;> contradiction
  · cases listed with
    | intro same _ output _ read made =>
      rw [request] at same
      cases same
      cases output
      cases read
      cases compiled.symm.trans made
      exact stored

end Command

end FormCode

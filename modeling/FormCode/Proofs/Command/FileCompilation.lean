import FormCode.Proofs.Command.Arguments
import FormCode.Proofs.Command.Effects

/-! Compiling a file to a file, by one call or by the command. Both read, compile and write in the
same order, so they leave the same files behind and fail on the same inputs. -/
namespace FormCode

open Code

variable {σ : Type} {storage : Storage (StateM σ)} {target : Target} {input output : String}

/-- What compiling a file comes to: the file cannot be read, or its text is rejected, or the listing
cannot be written, or it has been. -/
inductive FileCompilation (storage : Storage (StateM σ)) (target : Target)
    (input output : String) (s : σ) : Except Error CodeUnit → σ → Prop
  | unread (read : storage.readText input s = (.error fault, after)) :
    FileCompilation storage target input output s (.error (Source.storageError input fault)) after
  | rejected (read : storage.readText input s = (.ok source, after))
    (wrong : Source.compile target (Source.unitName input) source = .error error) :
    FileCompilation storage target input output s (.error error) after
  | unwritten (read : storage.readText input s = (.ok source, between))
    (compiled : Source.compile target (Source.unitName input) source = .ok unit)
    (written : storage.writeText output unit.listing between = (.error fault, after)) :
    FileCompilation storage target input output s (.error (Source.storageError output fault)) after
  | wrote (read : storage.readText input s = (.ok source, between))
    (compiled : Source.compile target (Source.unitName input) source = .ok unit)
    (written : storage.writeText output unit.listing between = (.ok (), after)) :
    FileCompilation storage target input output s (.ok unit) after

theorem compileFile_compilation (storage : Storage (StateM σ)) (target : Target)
    (input output : String) (s : σ) : FileCompilation storage target input output s
      (Source.compileFile storage target input output s).1
      (Source.compileFile storage target input output s).2 := by
  cases read : storage.readText input s with
  | mk result between =>
    simp only [Source.compileFile, bind, StateT.bind, read]
    cases result with
    | error fault => exact .unread read
    | ok source =>
      cases compiled : Source.compile target (Source.unitName input) source with
      | error error =>
        simp only [compiled]
        exact .rejected read compiled
      | ok unit =>
        cases written : storage.writeText output unit.listing between with
        | mk result after =>
          simp only [compiled, Source.writeListing, bind, StateT.bind, written]
          cases result with
          | error fault => exact .unwritten read compiled written
          | ok => exact .wrote read compiled written

namespace Command

def Job.toFile (target : Target) (input output : String) : Job :=
  ⟨.emit, target, some output, .file input⟩

/-- The command reports a unit by silence, and an error by some text. -/
inductive Reports : Except Error CodeUnit → Report → Prop
  | silence : Reports (.ok unit) (.success "")
  | complaint : Reports (.error error) (.failure text)

theorem Reports.exit_iff {result : Except Error CodeUnit} {report : Report}
    (h : Reports result report) : report.exit = 0 ↔ ∃ unit, result = .ok unit := by
  cases h with
  | silence => exact ⟨fun _ => ⟨_, rfl⟩, fun _ => rfl⟩
  | complaint => exact ⟨nofun, nofun⟩

section ToFile

variable {s between after : σ} {source : String}

theorem process_toFile_of_text (read : storage.readText input s = (.ok source, between)) :
    process storage (.toFile target input output) s =
      match perform storage (.toFile target input output) source between with
      | (.ok out, after) => (.success out, after)
      | (.error error, after) => (.failure (explain error source input), after) := by
  have text : (Job.toFile target input output).input.text storage s = (.ok source, between) := read
  exact process_of_text text

theorem perform_toFile (storage : Storage (StateM σ)) (target : Target)
    (input output source : String) (s : σ) :
    perform storage (.toFile target input output) source s =
      match Source.compile target (Source.unitName input) source with
      | .error error => (.error error, s)
      | .ok unit => deliver storage (.toFile target input output) unit s := by
  have compiles : (Job.toFile target input output).mode ≠ .eval := nofun
  exact perform_compile compiles source s

theorem deliver_toFile {unit : CodeUnit} {result : Except StorageFault Unit}
    (compiled : Source.compile target (Source.unitName input) source = .ok unit)
    (written : storage.writeText output unit.listing s = (result, after)) :
    deliver storage (.toFile target input output) unit s =
      ((result.mapError (Source.storageError output)).map fun _ => "", after) := by
  obtain ⟨value, runs⟩ := run_of_compile compiled
  have toPath : (Job.toFile target input output).output? = some output := rfl
  exact deliver_with_output runs toPath written

theorem process_toFile {result : Except Error CodeUnit}
    (h : FileCompilation storage target input output s result after) :
    ∃ report, process storage (.toFile target input output) s = (report, after) ∧
      Reports result report := by
  cases h with
  | unread read =>
    simp only [process, Job.toFile, Input.text, bind, StateT.bind, read]
    exact ⟨_, rfl, .complaint⟩
  | rejected read wrong =>
    rw [process_toFile_of_text read, perform_toFile, wrong]
    exact ⟨_, rfl, .complaint⟩
  | unwritten read compiled written =>
    rw [process_toFile_of_text read, perform_toFile, compiled]
    simp only [deliver_toFile compiled written]
    exact ⟨_, rfl, .complaint⟩
  | wrote read compiled written =>
    rw [process_toFile_of_text read, perform_toFile, compiled]
    simp only [deliver_toFile compiled written]
    exact ⟨_, rfl, .silence⟩

end ToFile

theorem ofArgs_toFile {name : String} (named : Target.named? name = some target)
    (plain : input.toList.head? ≠ some '-') (output : String) :
    Request.ofArgs ["--target=" ++ name, "-o", output, input] =
      .ok (.process (.toFile target input output)) := by
  refine ofArgs_process_iff.mpr ⟨[.target name, .output output, .input input], rfl, ?_, ?_, ?_⟩
  · simp [Argument.Allowed, named, plain]
  · exact Nat.le_refl 1
  · simp [Options.settleAll, Options.settle, Options.initial, Options.job, Job.toFile,
      Argument.mode?, Argument.target?, Argument.output?, Argument.form?, Argument.path?, named]

theorem run_toFile {name : String} (named : Target.named? name = some target)
    (plain : input.toList.head? ≠ some '-') (output : String) (storage : Storage (StateM σ))
    (s : σ) :
    ∃ report, run storage ["--target=" ++ name, "-o", output, input] s =
      (report, (Source.compileFile storage target input output s).2) ∧
        Reports (Source.compileFile storage target input output s).1 report := by
  have request := ofArgs_toFile named plain output
  obtain ⟨report, processed, reports⟩ :=
    process_toFile (compileFile_compilation storage target input output s)
  refine ⟨report, ?_, reports⟩
  simp only [run, request]
  exact processed

/-- With a target, an output path and an input path the command does what compiling the file to the
output path does. It succeeds exactly if that does, and leaves behind what that leaves behind,
however the storage may fail. Where storage reads back what was written, the listing of the unit is
then at the output path, and where a write is all or nothing, a failure changes nothing. -/
theorem run_compiles_file {name : String} (named : Target.named? name = some target)
    (plain : input.toList.head? ≠ some '-') (output : String) (storage : Storage (StateM σ))
    (s : σ) :
    let command := run storage ["--target=" ++ name, "-o", output, input] s
    let compiled := Source.compileFile storage target input output s
    (command.1.exit = 0 ↔ ∃ unit, compiled.1 = .ok unit) ∧ command.2 = compiled.2 ∧
    (∀ unit, compiled.1 = .ok unit → command.1 = .success "" ∧
      unit.listing? = some unit.listing ∧ (storage.ReadsBack →
      (storage.read output command.2).1 = .ok unit.listing.toUTF8 ∧
      (storage.read output compiled.2).1 = .ok unit.listing.toUTF8)) ∧
    (storage.AllOrNothing → command.1.exit ≠ 0 → command.2 = s ∧ compiled.2 = s) := by
  intro command compiled
  obtain ⟨report, ran, reports⟩ := run_toFile named plain output storage s
  have same : command = (report, compiled.2) := ran
  rw [same]
  refine ⟨reports.exit_iff, rfl, fun unit made => ?_, fun safe failed => ?_⟩
  · have compilation := compileFile_compilation storage target input output s
    rw [made] at compilation reports
    cases reports
    cases compilation with
    | wrote read compiles written =>
      refine ⟨rfl, Source.listing?_of_compile compiles, fun readsBack => ?_⟩
      have stored := readsBack _ _ _ _ written
      exact ⟨stored, stored⟩
  · -- That a failure changes nothing is known of the command, and so of the call.
    have ending : Ending storage ["--target=" ++ name, "-o", output, input] s
        command.1 command.2 := run_ending safe _ s
    rw [same] at ending
    exact ⟨ending.eq_of_failed failed, ending.eq_of_failed failed⟩

/-- The output path can be the input path, on whatever way it is reached. -/
theorem run_compiles_file_onto_itself :
    let files : Files := ⟨[(["home", "a.b.clj"], "[1]".toUTF8), (["home", "bad"], "\"".toUTF8)]⟩
    let storage := Files.storage ["home"]
    let command := run storage ["--target=" ++ "compact", "-o", "/home/a.b.clj", "a.b.clj"] files
    let failing := run storage ["--target=" ++ "compact", "-o", "/home/a.b.clj", "bad"] files
    let unit : CodeUnit :=
      ⟨"a.b", "compact", [.vector [.atom (.int 1)]], [.load (.constant ⟨0⟩), .ret]⟩
    (command.1 = .success "" ∧
        command.2.read ["home"] "/home/a.b.clj" = .ok unit.listing.toUTF8) ∧
      failing.1.exit ≠ 0 ∧ failing.2 = files := by
  intro files storage command failing unit
  have named : Target.named? "compact" = some .compact := rfl
  have plain : "a.b.clj".toList.head? ≠ some '-' := by decide
  have plainToo : "bad".toList.head? ≠ some '-' := by decide
  have failed : failing.1.exit ≠ 0 := by decide +kernel
  obtain ⟨-, -, -, kept⟩ := run_compiles_file named plainToo "/home/a.b.clj" storage files
  refine ⟨?_, failed, (kept (Files.storage_allOrNothing ["home"]) failed).1⟩
  have succeeded : command.1.exit = 0 := by decide +kernel
  have text : (storage.readText "a.b.clj" files).1 = .ok "[1]" := by decide +kernel
  have stem : Source.unitName "a.b.clj" = "a.b" := by decide +kernel
  have compiled : Source.compile .compact "a.b" "[1]" = .ok unit := by cbv
  obtain ⟨zero, -, stored, -⟩ := run_compiles_file named plain "/home/a.b.clj" storage files
  obtain ⟨made, compiles⟩ := zero.mp succeeded
  have compilation := compileFile_compilation storage .compact "a.b.clj" "/home/a.b.clj" files
  rw [compiles] at compilation
  cases compilation with
  | wrote read other =>
    rw [read] at text
    cases text
    rw [stem, compiled] at other
    cases other
    obtain ⟨silent, -, back⟩ := stored unit compiles
    exact ⟨silent, (back (Files.storage_readsBack ["home"])).1⟩

end Command

end FormCode

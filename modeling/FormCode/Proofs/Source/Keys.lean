import FormCode.Proofs.Code.HostObjects
import FormCode.Proofs.Source.Compile
import FormCode.Proofs.Value.Distinct

/-! Keys do not repeat in what comes out of a source text. The reader checks the keys of each map as
they are written, and the analysis checks them again once quotes are off; what is quoted is taken
over as it was read. -/
namespace FormCode.Source

open Code

theorem closed_distinct : Reader.Closed Value.Distinct where
  atom _ := .atom
  list _ each := .list each
  vector _ each := .vector each
  map entries each fresh := by
    refine .map (fun e inside => (each e inside).1) (fun e inside => (each e inside).2) ?_
    refine Value.pairwise_of_firstRepeat? (fun k member => ?_) fresh
    obtain ⟨e, inside, rfl⟩ := List.mem_map.mp member
    exact (each e inside).1

theorem hereditary_distinct : Expr.Hereditary Value.Distinct where
  list _ distinct := by
    cases distinct with
    | list each => exact each
  vector _ distinct := by
    cases distinct with
    | vector each => exact each
  map _ distinct := by
    cases distinct with
    | map keys values _ => exact fun e inside => ⟨keys e inside, values e inside⟩

/-- The ways in which a value comes out of a source text. -/
inductive Yields (source : String) : Value → Prop
  | first (read : Reader.readFirst source = .ok form) : Yields source form
  | form (read : Reader.readAll source = .ok forms) (member : form ∈ forms) : Yields source form
  | expression (analyzed : analyze source = .ok body) (member : expr ∈ body) :
      Yields source expr.eval
  | result (evaluated : eval source = .ok value) : Yields source value
  | constant (compiled : compile target name source = .ok unit) (member : value ∈ unit.constants) :
      Yields source value

theorem assemble_constants {target : Target} {name : String} {body : List Expr} {unit : CodeUnit}
    (h : assemble target name body = .ok unit) : ∀ value ∈ unit.constants, value = bodyValue body := by
  intro value member
  rw [assemble_eq_finish h] at member
  rcases afterCalls_origin [.body body .tail] _ value member with before | ⟨call, inside, keeps⟩
  · contradiction
  · obtain rfl := List.mem_singleton.mp inside
    exact keeps.last.symm

theorem readFirst_distinct {source : String} {form : Value}
    (h : Reader.readFirst source = .ok form) : form.Distinct := by
  obtain ⟨r, _, read⟩ := bind_eq_ok.mp h
  exact Reader.next_holds closed_distinct (mapError_eq_ok.mp read)

theorem analyze_distinct {source : String} {body : List Expr} (h : analyze source = .ok body) :
    ∀ expr ∈ body, expr.eval.Distinct := by
  obtain ⟨forms, read, analyzed⟩ := bind_eq_ok.mp h
  intro expr member
  obtain ⟨form, inside, ofForm⟩ := mapM_mem (mapError_eq_ok.mp analyzed) expr member
  have distinct := Reader.readAll_holds closed_distinct read form inside
  exact Expr.ofForm_holds closed_distinct hereditary_distinct distinct ofForm

theorem bodyValue_distinct {body : List Expr} (each : ∀ expr ∈ body, expr.eval.Distinct) :
    (bodyValue body).Distinct := by
  rw [bodyValue]
  cases last : body.getLast? with
  | none => exact .atom
  | some expr => exact each expr (List.mem_of_getLast? last)

/-- No map in a value that comes out of a source text repeats a key, wherever the map stands. -/
theorem yields_distinct {source : String} {value : Value} (h : Yields source value) :
    value.Distinct := by
  cases h with
  | first read => exact readFirst_distinct read
  | form read member => exact Reader.readAll_holds closed_distinct read value member
  | expression analyzed member => exact analyze_distinct analyzed _ member
  | result evaluated =>
    obtain ⟨form, read, rest⟩ := bind_eq_ok.mp evaluated
    obtain ⟨expr, analyzed, equal⟩ := bind_eq_ok.mp rest
    cases equal
    exact Expr.ofForm_holds closed_distinct hereditary_distinct (readFirst_distinct read)
      (mapError_eq_ok.mp analyzed)
  | constant compiled member =>
    obtain ⟨body, analyzed, assembled⟩ := bind_eq_ok.mp compiled
    rw [assemble_constants assembled value member]
    exact bodyValue_distinct (analyze_distinct analyzed)

/-- A map with two maps for keys, one of them quoted as a whole. The constant of its unit has lost
the quotes. -/
theorem yields_distinct_keys :
    let key : Value := .map [(.symbol "a", .atom (.int 1))]
    let other : Value := .map [(.symbol "b", .atom (.int 1))]
    let value : Value := .map [(key, .nil), (other, .vector [.map [(.nil, .nil)]])]
    ∃ unit, compile .compact "unit" "{(quote {a 1}) nil {(quote b) 1} [{nil nil}]}" = .ok unit ∧
      unit.constants = [value] ∧ value.Distinct := by
  intro key other value
  have compiled : compile .compact "unit" "{(quote {a 1}) nil {(quote b) 1} [{nil nil}]}" =
      .ok ⟨"unit", "compact", [value], [.load (.constant ⟨0⟩), .ret]⟩ := by cbv
  exact ⟨_, compiled, rfl, yields_distinct (.constant compiled (List.mem_singleton_self value))⟩

/-- Two keys that become equal when the quote is off are read, but there is no expression. -/
example :
    (Reader.readFirst "{{1 2} nil {(quote 1) 2} nil}").isOk = true ∧
      (eval "{{1 2} nil {(quote 1) 2} nil}").isOk = false := by decide +kernel

end FormCode.Source

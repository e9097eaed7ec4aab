import FormCode.Proofs.Code.Execution
import FormCode.Proofs.Code.HostObjects
import FormCode.Proofs.Code.Listing
import FormCode.Proofs.Expr.Closure
import FormCode.Source
import Mathlib

/-! Compiling agrees with evaluating. No source text brings a host object into the code, so nothing
is ever refused, and a body is its last literal: its unit runs to exactly that value. -/
namespace FormCode.Source

open Code

theorem closed_not_hasObject : Reader.Closed fun v => ¬ v.HasObject where
  atom := Value.not_hasObject_atom
  list items each h := by
    obtain ⟨x, inside, h⟩ := Value.hasObject_list_iff.mp h
    exact each x inside h
  vector items each h := by
    obtain ⟨x, inside, h⟩ := Value.hasObject_vector_iff.mp h
    exact each x inside h
  map entries each _ h := by
    obtain ⟨e, inside, h | h⟩ := Value.hasObject_map_iff.mp h
    · exact (each e inside).1 h
    · exact (each e inside).2 h

theorem hereditary_not_hasObject : Expr.Hereditary fun v => ¬ v.HasObject where
  list _ free _ inside h := free (.item inside h)
  vector _ free _ inside h := free (.element inside h)
  map _ free _ inside := ⟨fun h => free (.key inside h), fun h => free (.value inside h)⟩

theorem mapM_mem {ε α β : Type} {f : α → Except ε β} {xs : List α} {ys : List β}
    (h : xs.mapM f = .ok ys) : ∀ y ∈ ys, ∃ x ∈ xs, f x = .ok y := by
  induction xs generalizing ys with
  | nil => cases h; simp
  | cons x xs ih =>
    rw [List.mapM_cons] at h
    obtain ⟨first, mapped, rest⟩ := bind_eq_ok.mp h
    obtain ⟨others, mappedOthers, equal⟩ := bind_eq_ok.mp rest
    cases equal
    intro y member
    rcases List.mem_cons.mp member with rfl | member
    · exact ⟨x, by simp, mapped⟩
    · obtain ⟨x', inside, mapped⟩ := ih mappedOthers y member
      exact ⟨x', List.mem_cons_of_mem _ inside, mapped⟩

/-- No source text writes a host object. -/
theorem analyze_not_hasObject {source : String} {body : List Expr}
    (h : analyze source = .ok body) : ∀ expr ∈ body, ¬ expr.eval.HasObject := by
  obtain ⟨forms, read, analyzed⟩ := bind_eq_ok.mp h
  intro expr member
  obtain ⟨form, inside, ofForm⟩ := mapM_mem (mapError_eq_ok.mp analyzed) expr member
  have free := Reader.readAll_holds closed_not_hasObject read form inside
  exact Expr.ofForm_holds closed_not_hasObject hereditary_not_hasObject free ofForm

theorem represents_of_not_hasObject (target : Target) {value : Value} (free : ¬ value.HasObject) :
    target.Represents value := by
  by_contra refused
  obtain ⟨_, handle, rfl⟩ := Target.not_represents_iff.mp refused
  exact free .object

theorem valueOf?_of_operates_empty {target : Target}
    (operates : Operates (.empty target) value operand b) :
    b.constants.valueOf? operand = some value := by
  cases operates with
  | immediate inlined => exact congrArg some (Target.encoding_immediate_value inlined)
  | constant _ interned =>
    rw [Assembly.empty, Constants.intern?_empty] at interned
    cases interned
    rfl

theorem run_emitLiteral (target : Target) {value : Value} (free : ¬ value.HasObject) :
    ∃ a, emitLiteral value .tail (.empty target) = .ok () a ∧
      ∀ name, (a.finish name).run = .ok value := by
  have emission := emitLiteral_emission value .tail (.empty target)
  generalize emitLiteral value .tail (.empty target) = result at emission
  cases emission with
  | refused refused =>
    obtain ⟨encoding, encoded⟩ := represents_of_not_hasObject target free
    exact absurd (refused.symm.trans encoded) (by simp)
  | elided _ dropped => contradiction
  | full _ _ none => contradiction
  | unreachable _ _ ended => contradiction
  | @emitted operand b operates kept =>
    refine ⟨_, rfl, fun name => Execution.run ?_⟩
    have code := congrArg Buffer.instrs operates.code
    have execution := Loads.nil.codeFor target (valueOf?_of_operates_empty operates) kept
    simpa [Assembly.append, Assembly.finish, code, Assembly.empty, Buffer.empty] using execution

theorem assemble_run (target : Target) (name : String) {body : List Expr}
    (free : ∀ expr ∈ body, ¬ expr.eval.HasObject) :
    ∃ unit, assemble target name body = .ok unit ∧ unit.run = .ok (bodyValue body) := by
  have last_free : ¬ (bodyValue body).HasObject := by
    unfold bodyValue
    cases last : body.getLast? with
    | none => exact Value.not_hasObject_atom .nil
    | some expr => exact free expr (List.mem_of_getLast? last)
  obtain ⟨a, emitted, run⟩ := run_emitLiteral target last_free
  refine ⟨a.finish name, ?_, run name⟩
  have represents (expr : Expr) (member : expr ∈ body) : target.Represents expr.eval :=
    represents_of_not_hasObject target (free expr member)
  simp only [assemble, EStateM.run, emitBody_eq (a := .empty target) represents, emitted]

theorem assemble_eq_finish {target : Target} {name : String} {body : List Expr} {unit : CodeUnit}
    (h : assemble target name body = .ok unit) :
    unit = ((Call.body body .tail).after (.empty target)).finish name := by
  unfold assemble at h
  split at h
  case h_1 assembly emitted =>
    cases h
    have after : (Call.body body .tail).after (.empty target) = assembly := congrArg stateOf emitted
    rw [after]
  case h_2 => contradiction

/-- There is never more than one constant in a compiled unit, so there is a slot for it. -/
theorem listing?_of_compile {target : Target} {name source : String} {unit : CodeUnit}
    (h : compile target name source = .ok unit) : unit.listing? = some unit.listing := by
  obtain ⟨body, -, assembled⟩ := bind_eq_ok.mp h
  have single : unit.constants.length ≤ 1 := by
    rw [assemble_eq_finish assembled]
    exact (Call.body body .tail).after_size_le (.empty target)
  have bound : unit.constants.length ≤ UInt32.size := Nat.le_trans single (by decide)
  have shown := unit.listing?_eq
  rw [if_pos bound] at shown
  rw [CodeUnit.listing, shown]
  rfl

theorem compile_of_analyze (target : Target) (name : String) {source : String} {body : List Expr}
    (h : analyze source = .ok body) :
    ∃ unit, compile target name source = .ok unit ∧ unit.run = .ok (bodyValue body) := by
  obtain ⟨unit, assembled, run⟩ := assemble_run target name (analyze_not_hasObject h)
  exact ⟨unit, bind_eq_ok.mpr ⟨body, h, assembled⟩, run⟩

theorem compile_of_analyze_error (target : Target) (name : String) {source : String}
    {error : Error} (h : analyze source = .error error) :
    compile target name source = .error error := by
  rw [compile, h]
  rfl

theorem eval_eq_run (target : Target) (name : String) {source : String} {form : Value}
    (h : Reader.readAll source = .ok [form]) : eval source =
      compile target name source >>= fun unit => unit.run.mapError RunFault.report := by
  have first := Reader.readFirst_of_readAll h
  cases analyzed : Expr.ofForm form with
  | error fault =>
    have fails : analyze source = .error (Expr.report fault) := by
      simp [analyze, h, bind, Except.bind, List.mapM_cons, analyzed, Except.mapError]
    rw [compile_of_analyze_error target name fails, eval, first]
    simp [bind, Except.bind, analyzed, Except.mapError]
  | ok expr =>
    have single : analyze source = .ok [expr] := by
      simp [analyze, h, bind, Except.bind, List.mapM_cons, analyzed, Except.mapError, pure,
        Except.pure]
    obtain ⟨unit, compiled, run⟩ := compile_of_analyze target name single
    rw [compiled, eval, first]
    simp [bind, Except.bind, analyzed, run, Except.mapError, pure, Except.pure, bodyValue]

/-- Compiling fails as analyzing does, on every target. What compiles runs to the value of the last
expression, and a text of one form to what it evaluates to. -/
theorem compile_agrees_with_eval (target : Target) (name source : String) :
    (∀ error, compile target name source = .error error ↔ analyze source = .error error) ∧
    (∀ body, analyze source = .ok body → ∃ unit, compile target name source = .ok unit ∧
      unit.run = .ok (bodyValue body)) ∧
    (∀ form, Reader.readAll source = .ok [form] → eval source =
      compile target name source >>= fun unit => unit.run.mapError RunFault.report) := by
  refine ⟨fun error => ⟨fun failed => ?_, compile_of_analyze_error target name⟩, fun body analyzed =>
    compile_of_analyze target name analyzed, fun form read => eval_eq_run target name read⟩
  cases analyzed : analyze source with
  | error other =>
    rw [compile_of_analyze_error target name analyzed] at failed
    cases failed
    rfl
  | ok body =>
    obtain ⟨unit, compiled, _⟩ := compile_of_analyze target name analyzed
    rw [compiled] at failed
    contradiction

/-- Statements leave no code, and the vector that comes last is what runs. -/
theorem compile_agrees_with_eval_vector :
    let body : List Expr :=
      [.literal (.symbol "a"), .literal (.vector [.atom (.int 1), .atom (.string "b")])]
    analyze "'a [1 \"b\"]" = .ok body ∧ ∃ unit, compile .stack "unit" "'a [1 \"b\"]" = .ok unit ∧
      unit.run = .ok (.vector [.atom (.int 1), .atom (.string "b")]) := by
  intro body
  have analyzed : analyze "'a [1 \"b\"]" = .ok body := by cbv
  exact ⟨analyzed, (compile_agrees_with_eval .stack "unit" _).2.1 body analyzed⟩

end FormCode.Source

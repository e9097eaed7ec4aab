import FormCode.Proofs.Reader.Lines
import FormCode.Proofs.Source.Compile

/-! Forms that come before others in a source. Each but the last is a statement, for which no code
is emitted and no constant is interned. So a source compiles to the same unit below any source that
can be analyzed: the forms above it leave no trace. -/
namespace FormCode.Source

open Code

theorem readAll_below {above below : String} {forms others : List Value}
    (read : Reader.readAll above = .ok forms) (read' : Reader.readAll below = .ok others) :
    Reader.readAll (above ++ "\n" ++ below) = .ok (forms ++ others) := by
  obtain ⟨tokens, lexed, derives⟩ := Reader.readAll_ok_iff.mp read
  obtain ⟨more, lexed', derives'⟩ := Reader.readAll_ok_iff.mp read'
  apply Reader.readAll_ok_iff.mpr
  refine ⟨_, ?_, derives.append (derives'.lower (1 + above.toList.count '\n'))⟩
  rw [Reader.lex_line lexed, mapError_eq_ok.mp lexed']
  rfl

theorem analyze_below {above below : String} {statements body : List Expr}
    (analyzed : analyze above = .ok statements) (analyzed' : analyze below = .ok body) :
    analyze (above ++ "\n" ++ below) = .ok (statements ++ body) := by
  obtain ⟨forms, read, mapped⟩ := bind_eq_ok.mp analyzed
  obtain ⟨others, read', mapped'⟩ := bind_eq_ok.mp analyzed'
  refine bind_eq_ok.mpr ⟨forms ++ others, readAll_below read read', mapError_eq_ok.mpr ?_⟩
  rw [List.mapM_append, mapError_eq_ok.mp mapped, mapError_eq_ok.mp mapped']
  rfl

theorem bodyValue_append (statements : List Expr) {body : List Expr} (nonempty : body ≠ []) :
    bodyValue (statements ++ body) = bodyValue body := by
  rw [bodyValue, bodyValue, List.getLast?_append_of_ne_nil statements nonempty]

theorem assemble_append (target : Target) (name : String) {statements body : List Expr}
    (represents : ∀ expr ∈ statements ++ body, target.Represents expr.eval) (nonempty : body ≠ []) :
    assemble target name (statements ++ body) = assemble target name body := by
  have represents' (expr : Expr) (member : expr ∈ body) : target.Represents expr.eval :=
    represents expr (List.mem_append_right statements member)
  simp only [assemble, EStateM.run, emitBody_eq (a := .empty target) represents,
    emitBody_eq (a := .empty target) represents', bodyValue_append statements nonempty]

/-- A source with some form compiles to the same unit on its own and below any source that can be
analyzed. -/
theorem compile_below (target : Target) (name above below : String) {statements body : List Expr}
    (analyzed : analyze above = .ok statements) (analyzed' : analyze below = .ok body)
    (nonempty : body ≠ []) : ∃ unit, compile target name (above ++ "\n" ++ below) = .ok unit ∧
      compile target name below = .ok unit := by
  obtain ⟨unit, compiled, -⟩ := compile_of_analyze target name analyzed'
  have together := analyze_below analyzed analyzed'
  have represents (expr : Expr) (member : expr ∈ statements ++ body) :
      target.Represents expr.eval :=
    represents_of_not_hasObject target (analyze_not_hasObject together expr member)
  refine ⟨unit, ?_, compiled⟩
  calc compile target name (above ++ "\n" ++ below)
    _ = assemble target name (statements ++ body) := by rw [compile, together]; rfl
    _ = assemble target name body := assemble_append target name represents nonempty
    _ = compile target name below := by rw [compile, analyzed']; rfl
    _ = .ok unit := compiled

/-- A quoted map that would need a slot, and a comment, above a text with a pooled constant. -/
theorem compile_below_comment :
    let statements : List Expr :=
      [.literal (.symbol "a"), .literal (.map [(.atom (.keyword "x"), .vector [.atom (.int 1)])])]
    let body : List Expr := [.literal (.atom (.keyword "k")), .literal (.atom (.string "two"))]
    analyze "'a {:x [1]} ; c" = .ok statements ∧ analyze ":k \"two\"" = .ok body ∧ body ≠ [] ∧
      ∃ unit, compile .stack "unit" ("'a {:x [1]} ; c" ++ "\n" ++ ":k \"two\"") = .ok unit ∧
        compile .stack "unit" ":k \"two\"" = .ok unit := by
  intro statements body
  have analyzed : analyze "'a {:x [1]} ; c" = .ok statements := by cbv
  have analyzed' : analyze ":k \"two\"" = .ok body := by cbv
  have nonempty : body ≠ [] := List.cons_ne_nil _ _
  exact ⟨analyzed, analyzed', nonempty, compile_below .stack "unit" _ _ analyzed analyzed' nonempty⟩

end FormCode.Source

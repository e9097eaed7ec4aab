import FormCode.Proofs.Code.Emission

/-! Bodies. Statements leave nothing behind, so a body either fails at the first literal that the
target cannot represent, with the assembly as it was, or is emitted as its last literal alone. -/
namespace FormCode.Code

/-- Every expression completes, so nothing is cut off a body. -/
theorem emitBody_eq_emitInTurn (context : Context) (body : List Expr) :
    emitBody context body = emitInTurn context body := by
  have complete : ∀ expr ∈ body, (!expr.completes) = false := fun expr _ => by cases expr; rfl
  have none : body.findIdx? (fun expr => !expr.completes) = none :=
    List.findIdx?_eq_none_iff.mpr complete
  rw [emitBody, reachableLength, none, List.take_length]

def bodyValue (body : List Expr) : Value := (body.getLast?.map Expr.eval).getD .nil

def Target.Represents (target : Target) (value : Value) : Prop :=
  ∃ encoding, target.encoding value value.kind? = .ok encoding

theorem Target.not_represents_iff {target : Target} {value : Value} :
    ¬ target.Represents value ↔ target.hostObjects = false ∧ ∃ handle, value = .object handle := by
  unfold Target.Represents
  cases encoded : target.encoding value value.kind? with
  | ok encoding =>
    simp only [Except.ok.injEq, exists_eq', not_true, false_iff]
    rintro ⟨without, handle, rfl⟩
    have refused := Target.encoding_error_iff.mpr ⟨without, handle, rfl, rfl⟩
    exact absurd (refused.symm.trans encoded) (by simp)
  | error constant =>
    obtain ⟨without, handle, rfl, _⟩ := Target.encoding_error_iff.mp encoded
    simp [without]

theorem represents_bodyValue {target : Target} {body : List Expr}
    (represents : ∀ expr ∈ body, target.Represents expr.eval) :
    target.Represents (bodyValue body) := by
  rw [bodyValue]
  cases last : body.getLast? with
  | none => exact ⟨.immediate .nil, rfl⟩
  | some expr => exact represents expr (List.mem_of_getLast? last)

theorem emit_statement {a : Assembly} {expr : Expr}
    (represents : a.code.target.Represents expr.eval) : emit .statement expr a = .ok () a := by
  obtain ⟨value⟩ := expr
  obtain ⟨encoding, encoded⟩ := represents
  exact emitLiteral_statement encoded

theorem emit_refused {a : Assembly} {expr : Expr} {constant : Unrepresentable} (context : Context)
    (refused : a.code.target.encoding expr.eval expr.eval.kind? = .error constant) :
    emit context expr a = .error (.unrepresentable constant) a := by
  obtain ⟨value⟩ := expr
  simp only [Expr.eval] at refused
  simp only [emit, emitLiteral, bind, EStateM.bind, encode, refused]

theorem emitBody_eq {body : List Expr} {a : Assembly}
    (represents : ∀ expr ∈ body, a.code.target.Represents expr.eval) (context : Context) :
    emitBody context body a = emitLiteral (bodyValue body) context a := by
  rw [emitBody_eq_emitInTurn]
  induction body with
  | nil => rfl
  | cons expr body ih =>
    cases body with
    | nil => cases expr; rfl
    | cons next body =>
      have first := emit_statement (represents expr (List.mem_cons_self ..))
      have rest := ih fun expr member => represents expr (List.mem_cons_of_mem _ member)
      simp only [emitInTurn, bind, EStateM.bind, first]
      rw [rest]
      simp [bodyValue, List.getLast?_cons_cons]

/-- The first literal that is refused decides, whatever follows it. -/
theorem emitBody_refused {before after : List Expr} {expr : Expr} {a : Assembly}
    {constant : Unrepresentable} (represents : ∀ e ∈ before, a.code.target.Represents e.eval)
    (refused : a.code.target.encoding expr.eval expr.eval.kind? = .error constant)
    (context : Context) :
    emitBody context (before ++ expr :: after) a = .error (.unrepresentable constant) a := by
  rw [emitBody_eq_emitInTurn]
  induction before with
  | nil =>
    cases after with
    | nil => exact emit_refused context refused
    | cons next after =>
      have first := emit_refused .statement refused
      simp only [List.nil_append, emitInTurn, bind, EStateM.bind, first]
  | cons e before ih =>
    have first := emit_statement (represents e (List.mem_cons_self ..))
    have rest := ih fun e member => represents e (List.mem_cons_of_mem _ member)
    have more : ∃ next others, before ++ expr :: after = next :: others := by
      cases before <;> simp
    obtain ⟨next, others, form⟩ := more
    rw [form] at rest
    simp only [List.cons_append, form, emitInTurn, bind, EStateM.bind, first]
    exact rest

theorem represents_or_refused (target : Target) (body : List Expr) :
    (∀ expr ∈ body, target.Represents expr.eval) ∨ ∃ before expr after constant,
      body = before ++ expr :: after ∧ (∀ e ∈ before, target.Represents e.eval) ∧
      target.encoding expr.eval expr.eval.kind? = .error constant := by
  induction body with
  | nil => exact .inl (by simp)
  | cons expr body ih =>
    cases encoded : target.encoding expr.eval expr.eval.kind? with
    | error constant => exact .inr ⟨[], expr, body, constant, rfl, by simp, encoded⟩
    | ok encoding =>
      have first : target.Represents expr.eval := ⟨encoding, encoded⟩
      rcases ih with all | ⟨before, bad, after, constant, rfl, good, refused⟩
      · exact .inl (by simpa using ⟨first, all⟩)
      · exact .inr ⟨expr :: before, bad, after, constant, rfl, by simpa using ⟨first, good⟩, refused⟩

end FormCode.Code

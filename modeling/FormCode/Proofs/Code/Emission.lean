import FormCode.Code.Emission
import FormCode.Proofs.Code.Encoding
import FormCode.Proofs.Code.Interning

/-! What the emission of a literal can do: refuse the constant, elide a statement, run out of slots,
meet a return, or append the code of its context. Later proofs take these five cases and open no
emission function again. -/
namespace FormCode.Code

def Assembly.append (a : Assembly) (instrs : List Instr) : Assembly :=
  { a with code := { a.code with instrs := a.code.instrs ++ instrs } }

def codeFor (target : Target) (operand : Operand) : Context → List Instr
  | .statement => []
  | .expression => [.load operand]
  | .tail => if target.directReturn then [.retOf operand] else [.load operand, .ret]

/-- The operand of a constant, and the assembly once the constant has its slot. -/
inductive Operates (a : Assembly) (value : Value) : Operand → Assembly → Prop
  | immediate (inlined : a.code.target.encoding value value.kind? = .ok (.immediate i)) :
    Operates a value (.immediate i) a
  | constant (pooled : a.code.target.encoding value value.kind? = .ok .pooled)
    (interned : a.constants.intern? value = some (slot, table)) :
    Operates a value (.constant slot) { a with constants := table }

theorem Operates.code (h : Operates a value operand b) : b.code = a.code := by
  cases h <;> rfl

theorem Operates.extends (h : Operates a value operand b) : b.constants.Extends a.constants := by
  cases h with
  | immediate => exact .refl _
  | constant _ interned => exact Constants.intern?_extends interned

inductive Emission (a : Assembly) (value : Value) (context : Context) :
    EStateM.Result Fault Assembly Unit → Prop
  | refused (h : a.code.target.encoding value value.kind? = .error constant) :
    Emission a value context (.error (.unrepresentable constant) a)
  | elided (h : a.code.target.encoding value value.kind? = .ok encoding)
    (dropped : context = .statement) : Emission a value context (.ok () a)
  | full (h : a.code.target.encoding value value.kind? = .ok .pooled)
    (kept : context ≠ .statement) (none : a.constants.intern? value = none) :
    Emission a value context (.error (.tableFull a.constants.size) a)
  | unreachable (h : Operates a value operand b) (kept : context ≠ .statement)
    (ended : a.code.isEnded = true) (instr : Instr) :
    Emission a value context (.error (.unreachable instr) b)
  | emitted (h : Operates a value operand b) (kept : context ≠ .statement)
    (isOpen : a.code.isEnded = false) :
    Emission a value context (.ok () (b.append (codeFor a.code.target operand context)))

theorem emitInstr_eq (instr : Instr) (a : Assembly) : emitInstr instr a =
    if a.code.isEnded then .error (.unreachable instr) a else .ok () (a.append [instr]) := by
  unfold emitInstr Buffer.push?
  cases ended : a.code.isEnded <;> rfl

theorem isEnded_append_load (a : Assembly) (operand : Operand) :
    (a.append [.load operand]).code.isEnded = false := by
  simp [Assembly.append, Buffer.isEnded, Instr.isReturn]

theorem append_append (a : Assembly) (first second : List Instr) :
    (a.append first).append second = a.append (first ++ second) := by
  simp [Assembly.append]

theorem emitReturn_eq (operand : Operand) (a : Assembly) : emitReturn operand a =
    if a.code.isEnded then
      .error (.unreachable (if a.code.target.directReturn then .retOf operand else .load operand)) a
    else .ok () (a.append (codeFor a.code.target operand .tail)) := by
  have run : emitReturn operand a = (if a.code.target.directReturn then emitInstr (.retOf operand)
      else do emitInstr (.load operand); emitInstr .ret) a := rfl
  rw [run]
  cases direct : a.code.target.directReturn with
  | true => simp [codeFor, direct, emitInstr_eq]
  | false =>
    have loaded := isEnded_append_load a operand
    cases ended : a.code.isEnded <;>
      simp [codeFor, direct, bind, EStateM.bind, emitInstr_eq, ended, loaded, append_append]

theorem operandOf_error {value : Value} {encoding : Encoding} {a b : Assembly} {fault : Fault}
    (h : operandOf value encoding a = .error fault b) : encoding = .pooled ∧
      a.constants.intern? value = none ∧ fault = .tableFull a.constants.size ∧ b = a := by
  cases encoding with
  | immediate i => cases h
  | pooled =>
    simp only [operandOf, bind, EStateM.bind, intern] at h
    cases interned : a.constants.intern? value with
    | none =>
      simp only [interned] at h
      cases h
      exact ⟨rfl, rfl, rfl, rfl⟩
    | some found =>
      simp only [interned] at h
      cases h

theorem operandOf_ok {value : Value} {encoding : Encoding} {a b : Assembly} {operand : Operand}
    (encoded : a.code.target.encoding value value.kind? = .ok encoding)
    (h : operandOf value encoding a = .ok operand b) : Operates a value operand b := by
  cases encoding with
  | immediate i =>
    cases h
    exact .immediate encoded
  | pooled =>
    simp only [operandOf, bind, EStateM.bind, intern] at h
    cases interned : a.constants.intern? value with
    | none =>
      simp only [interned] at h
      cases h
    | some found =>
      simp only [interned] at h
      cases h
      exact .constant encoded interned

/-- The code after the constant has its operand depends on the context alone. -/
theorem emission_of_operand {value : Value} {context : Context} {a : Assembly} {encoding : Encoding}
    {emitCode : Operand → Emit Unit}
    (encoded : a.code.target.encoding value value.kind? = .ok encoding) (kept : context ≠ .statement)
    (code : ∀ operand b, b.code = a.code → ∃ instr, emitCode operand b =
      if a.code.isEnded then .error (.unreachable instr) b
      else .ok () (b.append (codeFor a.code.target operand context))) :
    Emission a value context ((operandOf value encoding >>= emitCode) a) := by
  cases result : operandOf value encoding a with
  | error fault b =>
    obtain ⟨rfl, none, rfl, rfl⟩ := operandOf_error result
    simp only [bind, EStateM.bind, result]
    exact .full encoded kept none
  | ok operand b =>
    have operates := operandOf_ok encoded result
    obtain ⟨instr, equal⟩ := code operand b operates.code
    simp only [bind, EStateM.bind, result, equal]
    cases ended : a.code.isEnded with
    | true => exact .unreachable operates kept ended instr
    | false => exact .emitted operates kept ended

theorem emitLiteral_emission (value : Value) (context : Context) (a : Assembly) :
    Emission a value context (emitLiteral value context a) := by
  cases encoded : a.code.target.encoding value value.kind? with
  | error constant =>
    simp only [emitLiteral, bind, EStateM.bind, encode, encoded]
    exact .refused encoded
  | ok encoding =>
    simp only [emitLiteral, bind, EStateM.bind, encode, encoded]
    cases context with
    | statement => exact .elided encoded rfl
    | expression =>
      refine emission_of_operand encoded (by decide) fun operand b same => ⟨.load operand, ?_⟩
      rw [emitInstr_eq, same]
      rfl
    | tail =>
      refine emission_of_operand encoded (by decide) fun operand b same => ?_
      have returned := emitReturn_eq operand b
      rw [same] at returned
      exact ⟨_, returned⟩

theorem emitLiteral_statement {value : Value} {a : Assembly} {encoding : Encoding}
    (encoded : a.code.target.encoding value value.kind? = .ok encoding) :
    emitLiteral value .statement a = .ok () a := by
  have emission := emitLiteral_emission value .statement a
  generalize emitLiteral value .statement a = result at emission
  cases emission with
  | refused refused => rw [encoded] at refused; contradiction
  | elided => rfl
  | full _ kept => contradiction
  | unreachable _ kept => contradiction
  | emitted _ kept => contradiction

end FormCode.Code

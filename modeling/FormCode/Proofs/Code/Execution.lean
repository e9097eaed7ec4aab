import FormCode.Code.Machine
import FormCode.Proofs.Code.Emission

/-! Running emitted code. Up to a return, code only loads operands, so its effect on the stack can
be read off without running it. `Execution` says what code of this form yields; emission keeps the
form, and the run yields what the form says. -/
namespace FormCode.Code

def Constants.valueOf? (table : Constants) : Operand → Option Value
  | .immediate i => some i.value
  | .constant slot => table.get? slot

theorem Constants.Extends.valueOf? {next table : Constants} (grown : next.Extends table)
    {operand : Operand} {value : Value} (h : table.valueOf? operand = some value) :
    next.valueOf? operand = some value := by
  cases operand with
  | immediate i => exact h
  | constant slot => exact grown.get? h

theorem Operates.valueOf? (h : Operates a value operand b) :
    ∃ loaded, b.constants.valueOf? operand = some loaded ∧ (loaded == value) = true := by
  cases h with
  | immediate inlined =>
    have equal := Target.encoding_immediate_value inlined
    exact ⟨value, congrArg some equal, Value.same_refl value⟩
  | constant _ interned => exact Constants.intern?_get? interned

/-- Code without returns, and the values that it loads, the last one first. -/
inductive Loads (table : Constants) : List Instr → List Value → Prop
  | nil : Loads table [] []
  | load (before : Loads table instrs stack) (h : table.valueOf? operand = some value) :
    Loads table (instrs ++ [.load operand]) (value :: stack)

/-- Code and the value that it yields: the top of the stack at its end, or what it returns. -/
inductive Execution (table : Constants) : List Instr → Value → Prop
  | fallsOff (loads : Loads table instrs stack) : Execution table instrs (stack.head?.getD .nil)
  | ret (loads : Loads table instrs (value :: stack)) : Execution table (instrs ++ [.ret]) value
  | retOf (loads : Loads table instrs stack) (h : table.valueOf? operand = some value) :
    Execution table (instrs ++ [.retOf operand]) value

theorem Loads.mono (grown : next.Extends table) (h : Loads table instrs stack) :
    Loads next instrs stack := by
  induction h with
  | nil => exact .nil
  | load _ value ih => exact .load ih (grown.valueOf? value)

theorem Execution.loads_of_open {a : Assembly} (h : Execution table a.code.instrs value)
    (isOpen : a.code.isEnded = false) : ∃ stack, Loads table a.code.instrs stack := by
  cases form : a.code.instrs with
  | nil => exact ⟨[], .nil⟩
  | cons instr instrs =>
    rw [← form]
    unfold Buffer.isEnded at isOpen
    generalize a.code.instrs = code at h isOpen
    cases h with
    | fallsOff loads => exact ⟨_, loads⟩
    | ret => simp [Instr.isReturn] at isOpen
    | retOf => simp [Instr.isReturn] at isOpen

theorem Loads.codeFor (target : Target) (loads : Loads table instrs stack)
    (h : table.valueOf? operand = some value) (kept : context ≠ .statement) :
    Execution table (instrs ++ codeFor target operand context) value := by
  cases context with
  | statement => contradiction
  | expression => exact .fallsOff (.load loads h)
  | tail =>
    by_cases direct : target.directReturn = true
    · rw [Code.codeFor, if_pos direct]
      exact .retOf loads h
    · rw [Code.codeFor, if_neg direct, List.append_cons]
      exact .ret (.load loads h)

section Running

variable {unit : CodeUnit}

theorem valueOf_eq_ok (h : (Constants.mk unit.constants).valueOf? operand = some value) :
    unit.valueOf operand = .ok value := by
  cases operand with
  | immediate i => exact congrArg Except.ok (Option.some.inj h)
  | constant slot =>
    have found : unit.constant? slot = some value := h
    simp [CodeUnit.valueOf, found]

theorem Loads.runFrom (h : Loads ⟨unit.constants⟩ instrs stack) (more : List Instr)
    (base : List Value) :
    unit.runFrom base (instrs ++ more) = unit.runFrom (stack ++ base) more := by
  induction h generalizing more with
  | nil => rfl
  | load _ value ih =>
    rw [List.append_assoc, ih, List.singleton_append, CodeUnit.runFrom, valueOf_eq_ok value]
    rfl

theorem Execution.run (h : Execution ⟨unit.constants⟩ unit.instrs value) :
    unit.run = .ok value := by
  unfold CodeUnit.run
  generalize unit.instrs = instrs at h
  cases h with
  | fallsOff loads =>
    have run := loads.runFrom [] []
    rw [List.append_nil, List.append_nil] at run
    rw [run, CodeUnit.runFrom]
  | ret loads => rw [loads.runFrom, List.cons_append, CodeUnit.runFrom]
  | retOf loads found => rw [loads.runFrom, CodeUnit.runFrom, valueOf_eq_ok found]

end Running

end FormCode.Code

import FormCode.Code.Machine
import FormCode.Proofs.Code.Emission
import Mathlib.Logic.Relation

/-! Shorter code that runs the same. A load and the return behind it can be one instruction, and
instructions behind a return can go. This holds of all code, also of code that nothing emits:
operands may refer to constants that the unit does not have, and returns may stand anywhere. -/
namespace FormCode.Code

open Relation (ReflTransGen)

/-- The ways in which one step makes code shorter. -/
inductive Shortens : List Instr → List Instr → Prop
  | fuse (before : List Instr) (operand : Operand) (after : List Instr) :
    Shortens (before ++ .load operand :: .ret :: after) (before ++ .retOf operand :: after)
  | drop (before : List Instr) (ends : instr.isReturn = true) (kept : rest.Sublist after) :
    Shortens (before ++ instr :: after) (before ++ instr :: rest)

/-- Code that a unit runs with the same outcome, whatever the stack. -/
def CodeUnit.RunsAs (unit : CodeUnit) (code shorter : List Instr) : Prop :=
  ∀ stack, unit.runFrom stack code = unit.runFrom stack shorter

namespace CodeUnit.RunsAs

variable {unit : CodeUnit} {code shorter : List Instr}

theorem trans (first : unit.RunsAs code middle) (second : unit.RunsAs middle shorter) :
    unit.RunsAs code shorter := fun stack => (first stack).trans (second stack)

/-- Common instructions in front keep the outcome: they end the run or leave both ends the same
stack. -/
theorem behind (same : unit.RunsAs code shorter) (before : List Instr) :
    unit.RunsAs (before ++ code) (before ++ shorter) := by
  induction before with
  | nil => exact same
  | cons instr before ih =>
    intro stack
    cases instr with
    | load operand =>
      rw [List.cons_append, List.cons_append, runFrom, runFrom]
      cases unit.valueOf operand with
      | error => rfl
      | ok value => exact ih (value :: stack)
    | ret => rfl
    | retOf => rfl

/-- A missing constant is a fault of the load and of the fused return alike. -/
theorem fuse (unit : CodeUnit) (operand : Operand) (after : List Instr) :
    unit.RunsAs (.load operand :: .ret :: after) (.retOf operand :: after) := by
  intro stack
  rw [runFrom, runFrom]
  cases unit.valueOf operand with
  | error => rfl
  | ok value => rfl

theorem drop (unit : CodeUnit) (ends : instr.isReturn = true) (after rest : List Instr) :
    unit.RunsAs (instr :: after) (instr :: rest) := by
  intro stack
  cases instr with
  | load => contradiction
  | ret => rfl
  | retOf => rfl

theorem of_shortens (step : Shortens code shorter) : unit.RunsAs code shorter := by
  cases step with
  | fuse before operand after => exact (fuse unit operand after).behind before
  | drop before ends => exact (drop unit ends _ _).behind before

theorem of_shortened (steps : ReflTransGen Shortens code shorter) :
    unit.RunsAs code shorter := by
  induction steps with
  | refl => exact fun _ => rfl
  | tail _ step ih => exact ih.trans (of_shortens step)

end CodeUnit.RunsAs

theorem CodeUnit.runFrom_with (unit : CodeUnit) (code instrs : List Instr) :
    ∀ stack, ({ unit with instrs := code } : CodeUnit).runFrom stack instrs =
      unit.runFrom stack instrs := by
  induction instrs with
  | nil => exact fun _ => rfl
  | cons instr instrs ih =>
    intro stack
    have value (operand : Operand) :
        ({ unit with instrs := code } : CodeUnit).valueOf operand = unit.valueOf operand := by
      cases operand <;> rfl
    cases instr with
    | load operand =>
      rw [runFrom, runFrom, value]
      exact congrArg (unit.valueOf operand >>= ·) (funext fun value => ih (value :: stack))
    | ret => rfl
    | retOf operand => rw [runFrom, runFrom, value]

/-- Whatever the unit and however many of its instructions are fused or dropped, the shorter code
yields the same value, or fails with the same fault. -/
theorem CodeUnit.run_shortened (unit : CodeUnit) {shorter : List Instr}
    (steps : ReflTransGen Shortens unit.instrs shorter) :
    ({ unit with instrs := shorter } : CodeUnit).run = unit.run := by
  calc ({ unit with instrs := shorter } : CodeUnit).run
      = unit.runFrom [] shorter := unit.runFrom_with shorter shorter []
    _ = unit.run := (RunsAs.of_shortened steps []).symm

/-- The constant that is missing stops the run at its load, and so does the fused return. -/
theorem CodeUnit.run_shortened_fault :
    let missing : Operand := .constant ⟨7⟩
    let unit : CodeUnit :=
      ⟨"demo", "stack", [.nil], [.load (.immediate .nil), .load missing, .ret, .ret]⟩
    let shorter : List Instr := [.load (.immediate .nil), .retOf missing]
    ReflTransGen Shortens unit.instrs shorter ∧
      ({ unit with instrs := shorter } : CodeUnit).run = .error (.noConstant ⟨7⟩ "demo") := by
  intro missing unit shorter
  have steps : ReflTransGen Shortens unit.instrs shorter :=
    .tail (.single (.fuse [.load (.immediate .nil)] missing [.ret]))
      (.drop [.load (.immediate .nil)] rfl (List.nil_sublist _))
  exact ⟨steps, (unit.run_shortened steps).trans rfl⟩

/-- A target that returns operands directly gets the other targets' code, made shorter. -/
theorem codeFor_shortened (target : Target) (operand : Operand) (context : Context) :
    ReflTransGen Shortens (codeFor { target with directReturn := false } operand context)
      (codeFor target operand context) := by
  cases context with
  | statement => exact .refl
  | expression => exact .refl
  | tail =>
    by_cases direct : target.directReturn = true
    · rw [codeFor, codeFor, if_pos direct]
      exact .single (.fuse [] operand [])
    · rw [codeFor, codeFor, if_neg direct]
      exact .refl

end FormCode.Code

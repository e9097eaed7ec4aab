import FormCode.Proofs.Code.Execution

/-! Emission of any number of literals, each in a context of its own. The unit that comes out
refers to its constants and to nothing else, runs without a fault, and yields the literal that was
emitted last for its value. -/
namespace FormCode.Code

def Instr.slot? : Instr → Option Slot
  | .load (.constant slot) => some slot
  | .retOf (.constant slot) => some slot
  | _ => none

/-- Emits literals one after the other, up to the first fault. -/
def emitEach : List (Value × Context) → Emit Unit
  | [] => pure ()
  | (value, context) :: emissions => do
    emit context (.literal value)
    emitEach emissions

/-- The last literal whose value is kept, after `value`. -/
def lastKept (value : Value) (emissions : List (Value × Context)) : Value :=
  ((emissions.filter fun e => e.2 ≠ .statement).getLast?.map Prod.fst).getD value

theorem lastKept_cons (value : Value) (e : Value × Context) (emissions : List (Value × Context)) :
    lastKept value (e :: emissions) =
      lastKept (if e.2 = .statement then value else e.1) emissions := by
  by_cases dropped : e.2 = .statement
  · simp [lastKept, dropped]
  · simp only [lastKept, List.filter_cons, decide_not, dropped, decide_false, Bool.not_false,
      if_true, if_false, List.getLast?_cons, Option.map_some, Option.getD_some]
    cases (emissions.filter fun e => !decide (e.2 = .statement)).getLast? <;> rfl

/-- What holds of the assembly after emissions of which `last` is the last one kept. -/
structure Sound (last : Value) (a : Assembly) : Prop where
  execution : ∃ value, Execution a.constants a.code.instrs value ∧ (value == last) = true
  bounds : ∀ instr ∈ a.code.instrs, ∀ slot, instr.slot? = some slot →
    slot.index.toNat < a.constants.size
  used : ∀ n < a.constants.size, ∃ instr ∈ a.code.instrs, ∃ slot, instr.slot? = some slot ∧
    slot.index.toNat = n

theorem sound_empty (target : Target) : Sound .nil (.empty target) where
  execution := ⟨.nil, .fallsOff .nil, Value.same_refl .nil⟩
  bounds := by simp [Assembly.empty, Buffer.empty]
  used := by simp [Assembly.empty, Constants.size, Constants.empty]

theorem codeFor_slot (target : Target) {operand : Operand} {context : Context} {instr : Instr}
    (member : instr ∈ codeFor target operand context) {slot : Slot}
    (refers : instr.slot? = some slot) : operand = .constant slot := by
  cases context <;> simp only [codeFor, List.not_mem_nil, List.mem_singleton] at member
  case expression =>
    subst member
    cases operand <;> simp_all [Instr.slot?]
  case tail =>
    split at member <;> simp only [List.mem_cons, List.not_mem_nil, or_false] at member
    · subst member
      cases operand <;> simp_all [Instr.slot?]
    · rcases member with rfl | rfl
      · cases operand <;> simp_all [Instr.slot?]
      · simp [Instr.slot?] at refers

theorem exists_codeFor_slot (target : Target) (slot : Slot) {context : Context}
    (kept : context ≠ .statement) :
    ∃ instr ∈ codeFor target (.constant slot) context, instr.slot? = some slot := by
  cases context with
  | statement => contradiction
  | expression => exact ⟨_, List.mem_singleton_self _, rfl⟩
  | tail =>
    by_cases direct : target.directReturn = true
    · exact ⟨.retOf (.constant slot), by simp [codeFor, direct], rfl⟩
    · exact ⟨.load (.constant slot), by simp [codeFor, direct], rfl⟩

theorem Sound.emitted {last value : Value} {a b : Assembly} {operand : Operand} {context : Context}
    (sound : Sound last a) (operates : Operates a value operand b) (kept : context ≠ .statement)
    (isOpen : a.code.isEnded = false) :
    Sound value (b.append (codeFor a.code.target operand context)) := by
  have grown := operates.extends
  have old : b.code.instrs = a.code.instrs := congrArg Buffer.instrs operates.code
  obtain ⟨loaded, found, equal⟩ := operates.valueOf?
  constructor
  · obtain ⟨_, execution, _⟩ := sound.execution
    obtain ⟨stack, loads⟩ := execution.loads_of_open isOpen
    refine ⟨loaded, ?_, equal⟩
    simp only [Assembly.append, old]
    exact (loads.mono grown).codeFor a.code.target found kept
  · intro instr member slot refers
    simp only [Assembly.append, old, List.mem_append] at member
    rcases member with member | member
    · exact Nat.lt_of_lt_of_le (sound.bounds instr member slot refers) grown.size_le
    · cases codeFor_slot a.code.target member refers
      exact Constants.get?_bound found
  · intro n bound
    simp only [Assembly.append, old, List.mem_append]
    by_cases before : n < a.constants.size
    · obtain ⟨instr, member, refers⟩ := sound.used n before
      exact ⟨instr, .inl member, refers⟩
    · -- only a constant that has just joined the table can be new
      cases operates with
      | immediate => exact absurd bound before
      | @constant slot table _ interned =>
        rcases Constants.intern?_cases interned with ⟨rfl, _⟩ | ⟨rfl, index, _⟩
        · exact absurd bound before
        · obtain ⟨instr, member, refers⟩ := exists_codeFor_slot a.code.target slot kept
          refine ⟨instr, .inr member, slot, refers, ?_⟩
          simp only [Assembly.append, Constants.size, List.length_append, List.length_singleton]
            at bound before index
          omega

theorem Sound.emitLiteral {last value : Value} {a b : Assembly} {context : Context}
    (sound : Sound last a) (h : emitLiteral value context a = .ok () b) :
    Sound (if context = .statement then last else value) b := by
  have emission := emitLiteral_emission value context a
  rw [h] at emission
  cases emission with
  | elided _ dropped => rwa [if_pos dropped]
  | emitted operates kept isOpen =>
    rw [if_neg kept]
    exact sound.emitted operates kept isOpen

theorem Sound.emitEach {last : Value} {a b : Assembly} {emissions : List (Value × Context)}
    (sound : Sound last a) (h : emitEach emissions a = .ok () b) :
    Sound (lastKept last emissions) b := by
  induction emissions generalizing last a with
  | nil =>
    cases h
    exact sound
  | cons e emissions ih =>
    obtain ⟨value, context⟩ := e
    simp only [Code.emitEach, bind, EStateM.bind] at h
    cases first : emit context (.literal value) a with
    | error fault c =>
      rw [first] at h
      cases h
    | ok _ c =>
      rw [first] at h
      rw [lastKept_cons]
      exact ih (sound.emitLiteral first) h

/-- Whatever contexts are mixed, the finished unit refers to constants that it has, refers to each
of them, and runs to the last literal that was kept. -/
theorem emitEach_run (target : Target) (name : String) (emissions : List (Value × Context))
    (a : Assembly) (emitted : emitEach emissions (.empty target) = .ok () a) :
    (∀ instr ∈ (a.finish name).instrs, ∀ slot, instr.slot? = some slot →
      slot.index.toNat < (a.finish name).constants.length) ∧
    (∀ n < (a.finish name).constants.length, ∃ instr ∈ (a.finish name).instrs,
      ∃ slot, instr.slot? = some slot ∧ slot.index.toNat = n) ∧
    ∃ value, (a.finish name).run = .ok value ∧ (value == lastKept .nil emissions) = true := by
  have sound := (sound_empty target).emitEach emitted
  obtain ⟨value, execution, equal⟩ := sound.execution
  exact ⟨sound.bounds, sound.used, value, execution.run, equal⟩

/-- Two maps that differ in the order of their entries share a slot; a statement behind the return
changes nothing. -/
theorem emitEach_run_shared :
    let one : Value := .map [(.atom (.keyword "a"), .nil), (.atom (.keyword "b"), .list [])]
    let other : Value := .map [(.atom (.keyword "b"), .list []), (.atom (.keyword "a"), .nil)]
    let a : Assembly :=
      ⟨⟨[one]⟩, ⟨.compact, [.load (.constant ⟨0⟩), .load (.constant ⟨0⟩), .ret]⟩⟩
    emitEach [(one, .expression), (other, .tail), (.nil, .statement)] (.empty .compact) =
      .ok () a ∧ ∃ value, (a.finish "unit").run = .ok value ∧ (value == other) = true := by
  intro one other a
  have emitted : emitEach [(one, .expression), (other, .tail), (.nil, .statement)]
      (.empty .compact) = .ok () a := rfl
  exact ⟨emitted, (emitEach_run .compact "unit" _ a emitted).2.2⟩

end FormCode.Code

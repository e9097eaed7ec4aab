import FormCode.Proofs.Code.Body
import FormCode.Proofs.Value.Objects

/-! Host objects in the table of constants. A target that has none refuses a bare host object, but
not a collection with one inside. So the table stays free of objects exactly as long as no call
keeps such a collection, and this file says which calls those are. -/
namespace FormCode.Code

/-- One emission, of an expression or of a body. -/
inductive Call where
  | single (expr : Expr) (context : Context)
  | body (exprs : List Expr) (context : Context)

def stateOf : EStateM.Result Fault Assembly Unit → Assembly
  | .ok _ a => a
  | .error _ a => a

namespace Call

def emit : Call → Emit Unit
  | single expr context => Code.emit context expr
  | body exprs context => emitBody context exprs

def exprs : Call → List Expr
  | single expr _ => [expr]
  | body exprs _ => exprs

def context : Call → Context
  | single _ context => context
  | body _ context => context

/-- What a call leaves behind, whether it succeeds or fails. -/
def after (call : Call) (a : Assembly) : Assembly := stateOf (call.emit a)

/-- The call gets as far as keeping `value`: it is wanted and nothing before it is refused. -/
structure Keeps (target : Target) (call : Call) (value : Value) : Prop where
  wanted : call.context ≠ .statement
  represents : ∀ expr ∈ call.exprs, target.Represents expr.eval
  last : bodyValue call.exprs = value

theorem emit_eq (call : Call) : call.emit = emitBody call.context call.exprs := by
  cases call <;> rfl

theorem Keeps.represented {target : Target} {call : Call} {value : Value}
    (keeps : call.Keeps target value) : target.Represents value := by
  rw [← keeps.last]
  exact represents_bodyValue keeps.represents

end Call

def afterCalls : List Call → Assembly → Assembly
  | [], a => a
  | call :: calls, a => afterCalls calls (call.after a)

section Effect

variable {a : Assembly} {value : Value} {context : Context}
  {result : EStateM.Result Fault Assembly Unit}

theorem Emission.target (h : Emission a value context result) :
    (stateOf result).code.target = a.code.target := by
  cases h with
  | refused | elided | full => rfl
  | unreachable operates | emitted operates =>
    have target := congrArg Buffer.target operates.code
    exact target

theorem Emission.constants (h : Emission a value context result) :
    (stateOf result).constants = a.constants ∨ context ≠ .statement ∧
      ∃ slot, a.constants.intern? value = some (slot, (stateOf result).constants) := by
  cases h with
  | refused | elided | full => exact .inl rfl
  | unreachable operates kept | emitted operates kept =>
    cases operates with
    | immediate => exact .inl rfl
    | constant _ interned => exact .inr ⟨kept, _, interned⟩

/-- A literal that is wanted and pooled does join, also if its code is refused afterwards. -/
theorem Emission.interned (h : Emission a value context result) (kept : context ≠ .statement)
    (pooled : a.code.target.encoding value value.kind? = .ok .pooled) {slot : Slot}
    {table : Constants} (room : a.constants.intern? value = some (slot, table)) :
    (stateOf result).constants = table := by
  cases h with
  | refused refused => rw [pooled] at refused; contradiction
  | elided _ dropped => contradiction
  | full _ _ none => rw [room] at none; contradiction
  | unreachable operates | emitted operates =>
    cases operates with
    | immediate inlined => rw [pooled] at inlined; cases inlined
    | constant _ interned =>
      rw [room] at interned
      cases interned
      rfl

end Effect

theorem Constants.intern?_size_le {table next : Constants} {value : Value} {slot : Slot}
    (h : table.intern? value = some (slot, next)) : next.size ≤ table.size + 1 := by
  rcases intern?_cases h with ⟨rfl, _⟩ | ⟨rfl, _⟩
  · exact Nat.le_succ _
  · simp [size]

namespace Call

theorem after_eq {call : Call} {a : Assembly}
    (represents : ∀ expr ∈ call.exprs, a.code.target.Represents expr.eval) :
    call.after a = stateOf (emitLiteral (bodyValue call.exprs) call.context a) := by
  rw [after, emit_eq, emitBody_eq represents]

theorem after_refused {call : Call} {a : Assembly}
    (refused : ¬ ∀ expr ∈ call.exprs, a.code.target.Represents expr.eval) : call.after a = a := by
  rcases represents_or_refused a.code.target call.exprs with all | ⟨_, _, _, _, form, good, bad⟩
  · exact absurd all refused
  · rw [after, emit_eq, form, emitBody_refused good bad]
    rfl

theorem after_target (call : Call) (a : Assembly) :
    (call.after a).code.target = a.code.target := by
  by_cases represents : ∀ expr ∈ call.exprs, a.code.target.Represents expr.eval
  · rw [after_eq represents]
    exact (emitLiteral_emission _ _ a).target
  · rw [after_refused represents]

theorem after_constants (call : Call) (a : Assembly) :
    (call.after a).constants = a.constants ∨ ∃ value slot, call.Keeps a.code.target value ∧
      a.constants.intern? value = some (slot, (call.after a).constants) := by
  by_cases represents : ∀ expr ∈ call.exprs, a.code.target.Represents expr.eval
  · rw [after_eq represents]
    rcases (emitLiteral_emission (bodyValue call.exprs) call.context a).constants with
      same | ⟨wanted, slot, interned⟩
    · exact .inl same
    · exact .inr ⟨_, slot, ⟨wanted, represents, rfl⟩, interned⟩
  · exact .inl (by rw [after_refused represents])

theorem after_extends (call : Call) (a : Assembly) :
    (call.after a).constants.Extends a.constants := by
  rcases call.after_constants a with same | ⟨_, _, _, interned⟩
  · rw [same]
    exact .refl _
  · exact Constants.intern?_extends interned

theorem after_size_le (call : Call) (a : Assembly) :
    (call.after a).constants.size ≤ a.constants.size + 1 := by
  rcases call.after_constants a with same | ⟨_, _, _, interned⟩
  · rw [same]
    exact Nat.le_succ _
  · exact Constants.intern?_size_le interned

end Call

theorem afterCalls_extends (calls : List Call) (a : Assembly) :
    (afterCalls calls a).constants.Extends a.constants := by
  induction calls generalizing a with
  | nil => exact .refl _
  | cons call calls ih => exact (call.after_extends a).trans (ih (call.after a))

theorem afterCalls_origin (calls : List Call) (a : Assembly) :
    ∀ w ∈ (afterCalls calls a).constants.values, w ∈ a.constants.values ∨
      ∃ call ∈ calls, call.Keeps a.code.target w := by
  induction calls generalizing a with
  | nil => exact fun w member => .inl member
  | cons call calls ih =>
    intro w member
    rcases ih (call.after a) w member with before | ⟨later, inside, keeps⟩
    · rcases call.after_constants a with same | ⟨value, slot, keeps, interned⟩
      · exact .inl (same ▸ before)
      · rcases Constants.intern?_cases interned with ⟨same, _⟩ | ⟨grown, _⟩
        · exact .inl (same ▸ before)
        · rw [grown, List.mem_append, List.mem_singleton] at before
          rcases before with before | rfl
          · exact .inl before
          · exact .inr ⟨call, List.mem_cons_self .., keeps⟩
    · rw [call.after_target] at keeps
      exact .inr ⟨later, List.mem_cons_of_mem _ inside, keeps⟩

theorem afterCalls_complete {calls : List Call} {a : Assembly}
    (room : a.constants.size + calls.length ≤ UInt32.size) {call : Call} (inside : call ∈ calls)
    {value : Value} (keeps : call.Keeps a.code.target value)
    (pooled : a.code.target.encoding value value.kind? = .ok .pooled) :
    ∃ w ∈ (afterCalls calls a).constants.values, w = value ∨ value.alike w = true := by
  induction calls generalizing a with
  | nil => simp at inside
  | cons first calls ih =>
    rw [List.length_cons] at room
    rcases List.mem_cons.mp inside with rfl | inside
    · obtain ⟨slot, next, interned⟩ := Constants.exists_intern? a.constants value (by omega)
      have table : (call.after a).constants = next := by
        rw [Call.after_eq keeps.represents, keeps.last]
        exact (emitLiteral_emission value call.context a).interned keeps.wanted pooled interned
      have grown := afterCalls_extends calls (call.after a)
      rw [table] at grown
      rcases Constants.intern?_cases interned with ⟨rfl, w, found, alike⟩ | ⟨rfl, _, _⟩
      · exact ⟨w, grown.subset (List.mem_of_getElem? found), .inr alike⟩
      · exact ⟨value, grown.subset (by simp), .inl rfl⟩
    · have size := first.after_size_le a
      rw [← first.after_target a] at keeps pooled
      exact ih (by omega) inside keeps pooled

theorem encoding_of_hasObject {target : Target} {value : Value}
    (represents : target.Represents value) (h : value.HasObject) :
    target.encoding value value.kind? = .ok .pooled := by
  cases value with
  | atom a => exact absurd h (Value.not_hasObject_atom a)
  | object handle =>
    obtain ⟨encoding, encoded⟩ := represents
    cases allowed : target.hostObjects <;>
      simp [Target.encoding, Value.kind?, allowed] at encoded ⊢
  | list | vector | map => rfl

theorem emit_eq_unrepresentable_iff {a b : Assembly} {value : Value} {context : Context}
    {constant : Unrepresentable} (without : a.code.target.hostObjects = false) :
    emit context (.literal value) a = .error (.unrepresentable constant) b ↔
      ∃ handle, value = .object handle ∧
        constant = ⟨handle.typeName, a.code.target.name⟩ ∧ b = a := by
  constructor
  · intro failed
    have emission := emitLiteral_emission value context a
    rw [emit] at failed
    rw [failed] at emission
    cases emission with
    | refused refused =>
      obtain ⟨_, handle, rfl, rfl⟩ := Target.encoding_error_iff.mp refused
      exact ⟨handle, rfl, rfl, rfl⟩
  · rintro ⟨handle, rfl, rfl, rfl⟩
    exact emit_refused context (Target.encoding_error_iff.mpr ⟨without, handle, rfl, rfl⟩)

/-- A host object is refused exactly where it stands alone, and then nothing changes. So the table
never holds it alone; it holds one inside a collection exactly if some call kept the collection. -/
theorem constants_hasObject (target : Target) (without : target.hostObjects = false)
    (calls : List Call) :
    (∀ value context a b constant, a.code.target = target →
      (emit context (.literal value) a = .error (.unrepresentable constant) b ↔
        ∃ handle, value = .object handle ∧ constant = ⟨handle.typeName, target.name⟩ ∧ b = a)) ∧
    (∀ handle, .object handle ∉ (afterCalls calls (.empty target)).constants.values) ∧
    ((∀ call ∈ calls, ∀ value, call.Keeps target value → ¬ value.HasObject) →
      ∀ w ∈ (afterCalls calls (.empty target)).constants.values, ¬ w.HasObject) ∧
    (calls.length ≤ UInt32.size → ∀ call ∈ calls, ∀ value, call.Keeps target value →
      value.HasObject → ∃ w ∈ (afterCalls calls (.empty target)).constants.values,
        w.HasObject) := by
  have kept (w : Value) (member : w ∈ (afterCalls calls (.empty target)).constants.values) :
      ∃ call ∈ calls, call.Keeps target w := by
    rcases afterCalls_origin calls (.empty target) w member with empty | kept
    · simp [Assembly.empty, Constants.empty] at empty
    · exact kept
  refine ⟨?_, ?_, ?_, ?_⟩
  · rintro value context a b constant rfl
    exact emit_eq_unrepresentable_iff without
  · intro handle member
    obtain ⟨call, _, keeps⟩ := kept _ member
    exact Target.not_represents_iff.mpr ⟨without, handle, rfl⟩ keeps.represented
  · intro free w member
    obtain ⟨call, inside, keeps⟩ := kept w member
    exact free call inside w keeps
  · intro room call inside value keeps holds
    have pooled := encoding_of_hasObject keeps.represented holds
    obtain ⟨w, member, rfl | alike⟩ := afterCalls_complete (a := .empty target)
      (by simpa [Assembly.empty, Constants.empty, Constants.size] using room) inside keeps pooled
    · exact ⟨w, member, holds⟩
    · exact ⟨w, member, holds.of_alike alike⟩

/-- A body whose first literal is a bare object keeps nothing of the collection behind it. -/
theorem constants_hasObject_refused :
    let object : Expr := .literal (.object ⟨"Widget", 1⟩)
    let calls : List Call :=
      [.body [object, .literal (.list [object.eval])] .tail, .single (.literal (.list [])) .tail]
    Target.stack.hostObjects = false ∧
      ∀ w ∈ (afterCalls calls (.empty .stack)).constants.values, ¬ w.HasObject := by
  intro object calls
  refine ⟨rfl, (constants_hasObject .stack rfl calls).2.2.1 fun call inside value keeps => ?_⟩
  rcases List.mem_cons.mp inside with rfl | inside
  · have bare : ¬ Target.stack.Represents object.eval :=
      Target.not_represents_iff.mpr ⟨rfl, _, rfl⟩
    exact absurd (keeps.represents object (by simp [Call.exprs])) bare
  · obtain rfl := List.mem_singleton.mp inside
    obtain rfl : Value.list [] = value := keeps.last
    simp [Value.hasObject_list_iff]

/-- A vector with a host object inside gets past a target that has none. -/
theorem vector_of_object_pooled :
    let vector : Value := .vector [.object ⟨"Widget", 1⟩]
    let calls : List Call := [.single (.literal vector) .expression]
    Target.stack.hostObjects = false ∧ vector.HasObject ∧
      vector ∈ (afterCalls calls (.empty .stack)).constants.values := by
  intro vector calls
  have pooled : (afterCalls calls (.empty .stack)).constants.values = [vector] := rfl
  exact ⟨rfl, .element (List.mem_singleton_self _) .object, by simp [pooled]⟩

end FormCode.Code

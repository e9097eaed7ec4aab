import FormCode.Proofs.Code.Body

/-! When the emission of a body fails, and what it leaves behind. A host object that the target has
none of is refused wherever it stands; code behind a return is refused next. Neither changes the
code that is there, and at most the last literal has joined the table. -/
namespace FormCode.Code

/-- The host object that a literal is. One inside a collection does not count. -/
def objectOf? : Expr → Option HostObject
  | .literal (.object handle) => some handle
  | _ => none

def Accepts (target : Target) (body : List Expr) : Prop :=
  target.hostObjects = true ∨ body.findSome? objectOf? = none

theorem objectOf?_eq_some_iff {expr : Expr} {handle : HostObject} :
    objectOf? expr = some handle ↔ expr.eval = .object handle := by
  obtain ⟨value⟩ := expr
  cases value <;> simp [objectOf?, Expr.eval]

theorem represents_iff {target : Target} {expr : Expr} :
    target.Represents expr.eval ↔ target.hostObjects = true ∨ objectOf? expr = none := by
  rw [← not_iff_not, Target.not_represents_iff, not_or, Bool.not_eq_true]
  refine and_congr_right fun _ => ?_
  rw [← ne_eq, Option.ne_none_iff_exists']
  exact exists_congr fun handle => objectOf?_eq_some_iff.symm

theorem accepts_iff {target : Target} {body : List Expr} :
    Accepts target body ↔ ∀ expr ∈ body, target.Represents expr.eval := by
  simp only [Accepts, represents_iff, List.findSome?_eq_none_iff]
  by_cases objects : target.hostObjects = true <;> simp [objects]

def Grown (a b : Assembly) (body : List Expr) : Prop :=
  b.constants = a.constants ∨
    ∃ last, body.getLast? = some last ∧ b.constants.values = a.constants.values ++ [last.eval]

theorem Grown.extends {a b : Assembly} {body : List Expr} (grown : Grown a b body) :
    b.constants.Extends a.constants := by
  rcases grown with same | ⟨last, -, values⟩
  · rw [same]
    exact .refl _
  · exact ⟨[last.eval], values.symm⟩

/-- Only what is pooled joins the table, and nil, the value of an empty body, never is. -/
theorem Operates.grown {a b : Assembly} {body : List Expr} {operand : Operand}
    (h : Operates a (bodyValue body) operand b) : Grown a b body := by
  cases h with
  | immediate => exact .inl rfl
  | @constant slot table pooled interned =>
    cases last : body.getLast? with
    | none =>
      simp [bodyValue, last, Value.nil, Value.kind?, Atom.kind?, Target.encoding, Value.isNil]
        at pooled
    | some expr =>
      rcases Constants.intern?_cases interned with ⟨same, -⟩ | ⟨grown, -⟩
      · exact .inl same
      · exact .inr ⟨expr, last, by simp [grown, bodyValue, last]⟩

/-- The outcome of emitting a body while there are slots left. -/
inductive BodyEmission (a : Assembly) (body : List Expr) (context : Context) :
    EStateM.Result Fault Assembly Unit → Prop
  | refused (without : a.code.target.hostObjects = false)
    (first : body.findSome? objectOf? = some handle) :
    BodyEmission a body context
      (.error (.unrepresentable ⟨handle.typeName, a.code.target.name⟩) a)
  | unreachable (accepted : Accepts a.code.target body) (kept : context ≠ .statement)
    (ended : a.code.isEnded = true) (code : b.code = a.code) (grown : Grown a b body)
    (instr : Instr) : BodyEmission a body context (.error (.unreachable instr) b)
  | elided (accepted : Accepts a.code.target body) (dropped : context = .statement) :
    BodyEmission a body context (.ok () a)
  | emitted (accepted : Accepts a.code.target body) (kept : context ≠ .statement)
    (isOpen : a.code.isEnded = false) (b : Assembly) : BodyEmission a body context (.ok () b)

theorem findSome?_objectOf? {target : Target} {before after : List Expr} {expr : Expr}
    {handle : HostObject} (without : target.hostObjects = false) (accepted : Accepts target before)
    (object : expr.eval = .object handle) :
    (before ++ expr :: after).findSome? objectOf? = some handle := by
  have none : before.findSome? objectOf? = none := by
    rcases accepted with allowed | none
    · exact absurd (without.symm.trans allowed) Bool.false_ne_true
    · exact none
  rw [List.findSome?_append, none, Option.none_or, List.findSome?_cons,
    objectOf?_eq_some_iff.mpr object]

theorem emitBody_emission {a : Assembly} (room : a.constants.size < UInt32.size)
    (body : List Expr) (context : Context) :
    BodyEmission a body context (emitBody context body a) := by
  rcases represents_or_refused a.code.target body with
    all | ⟨before, expr, after, constant, rfl, good, bad⟩
  · have accepted := accepts_iff.mpr all
    rw [emitBody_eq all]
    have emission := emitLiteral_emission (bodyValue body) context a
    generalize emitLiteral (bodyValue body) context a = result at emission
    cases emission with
    | refused refused =>
      obtain ⟨encoding, encoded⟩ := represents_bodyValue all
      rw [refused] at encoded
      contradiction
    | elided _ dropped => exact .elided accepted dropped
    | full _ _ none =>
      obtain ⟨slot, next, interned⟩ := Constants.exists_intern? a.constants (bodyValue body) room
      rw [none] at interned
      contradiction
    | unreachable operates kept ended instr =>
      exact .unreachable accepted kept ended operates.code operates.grown instr
    | emitted operates kept isOpen => exact .emitted accepted kept isOpen _
  · rw [emitBody_refused good bad]
    obtain ⟨without, handle, object, rfl⟩ := Target.encoding_error_iff.mp bad
    apply BodyEmission.refused without
    exact findSome?_objectOf? without (accepts_iff.mpr good) object

theorem Accepts.not_refused {target : Target} {body : List Expr} {handle : HostObject}
    (accepted : Accepts target body) (without : target.hostObjects = false) :
    body.findSome? objectOf? ≠ some handle := by
  intro first
  rcases accepted with allowed | none
  · exact absurd (without.symm.trans allowed) Bool.false_ne_true
  · rw [none] at first
    contradiction

section Outcome

variable {a b : Assembly} {body : List Expr} {context : Context}
  {result : EStateM.Result Fault Assembly Unit}

theorem BodyEmission.unrepresentable_iff (h : BodyEmission a body context result)
    {constant : Unrepresentable} : result = .error (.unrepresentable constant) b ↔
      a.code.target.hostObjects = false ∧ b = a ∧ ∃ handle, body.findSome? objectOf? = some handle ∧
        constant = ⟨handle.typeName, a.code.target.name⟩ := by
  constructor
  · rintro rfl
    cases h with
    | refused without first => exact ⟨without, rfl, _, first, rfl⟩
  · rintro ⟨without, rfl, handle, first, rfl⟩
    cases h with
    | refused _ other =>
      rw [first] at other
      cases other
      rfl
    | unreachable accepted | elided accepted | emitted accepted =>
      exact absurd first (accepted.not_refused without)

theorem BodyEmission.unreachable_iff (h : BodyEmission a body context result) :
    (∃ instr b, result = .error (.unreachable instr) b) ↔
      Accepts a.code.target body ∧ context ≠ .statement ∧ a.code.isEnded = true := by
  constructor
  · rintro ⟨instr, b, rfl⟩
    cases h with
    | unreachable accepted kept ended => exact ⟨accepted, kept, ended⟩
  · rintro ⟨accepted, kept, ended⟩
    cases h with
    | refused without first => exact absurd first (accepted.not_refused without)
    | unreachable _ _ _ _ _ instr => exact ⟨instr, _, rfl⟩
    | elided _ dropped => contradiction
    | emitted _ _ isOpen =>
      rw [ended] at isOpen
      contradiction

theorem BodyEmission.ok_iff (h : BodyEmission a body context result) :
    (∃ b, result = .ok () b) ↔
      Accepts a.code.target body ∧ (context = .statement ∨ a.code.isEnded = false) := by
  constructor
  · rintro ⟨b, rfl⟩
    cases h with
    | elided accepted dropped => exact ⟨accepted, .inl dropped⟩
    | emitted accepted _ isOpen => exact ⟨accepted, .inr isOpen⟩
  · rintro ⟨accepted, reason⟩
    cases h with
    | refused without first => exact absurd first (accepted.not_refused without)
    | unreachable _ kept ended =>
      rcases reason with dropped | isOpen
      · contradiction
      · rw [ended] at isOpen
        contradiction
    | elided | emitted => exact ⟨_, rfl⟩

theorem BodyEmission.keeps {fault : Fault} (h : BodyEmission a body context (.error fault b)) :
    b.code = a.code ∧ (b.constants = a.constants ∨ (∃ instr, fault = .unreachable instr) ∧
      ∃ last, body.getLast? = some last ∧
        b.constants.values = a.constants.values ++ [last.eval]) := by
  cases h with
  | refused => exact ⟨rfl, .inl rfl⟩
  | unreachable _ _ _ code grown instr =>
    exact ⟨code, grown.imp_right fun joined => ⟨⟨instr, rfl⟩, joined⟩⟩

theorem BodyEmission.eq_of_statement (h : BodyEmission a body .statement (.ok () b)) : b = a := by
  cases h with
  | elided => rfl
  | emitted _ kept => contradiction

end Outcome

/-- While there are slots left, a body is refused for its first host object or rejected behind a
return, in this order, and for nothing else. A failure leaves the code and every constant as they
were and adds at most the last literal to the table. A statement changes nothing. -/
theorem emitBody_fails (body : List Expr) (context : Context) (a : Assembly)
    (room : a.constants.size < UInt32.size) :
    (∀ constant b, emitBody context body a = .error (.unrepresentable constant) b ↔
      a.code.target.hostObjects = false ∧ b = a ∧ ∃ handle,
        body.findSome? objectOf? = some handle ∧
        constant = ⟨handle.typeName, a.code.target.name⟩) ∧
    ((∃ instr b, emitBody context body a = .error (.unreachable instr) b) ↔
      Accepts a.code.target body ∧ context ≠ .statement ∧ a.code.isEnded = true) ∧
    ((∃ b, emitBody context body a = .ok () b) ↔
      Accepts a.code.target body ∧ (context = .statement ∨ a.code.isEnded = false)) ∧
    (∀ fault b, emitBody context body a = .error fault b → b.code = a.code ∧
      (∀ slot value, a.constants.get? slot = some value → b.constants.get? slot = some value) ∧
      (b.constants = a.constants ∨ (∃ instr, fault = .unreachable instr) ∧
        ∃ last, body.getLast? = some last ∧
          b.constants.values = a.constants.values ++ [last.eval])) ∧
    (∀ b, context = .statement → emitBody context body a = .ok () b → b = a) := by
  have emission := emitBody_emission room body context
  refine ⟨fun constant b => emission.unrepresentable_iff, emission.unreachable_iff, emission.ok_iff,
    fun fault b failed => ?_, fun b dropped emitted => ?_⟩
  · rw [failed] at emission
    obtain ⟨code, grown⟩ := emission.keeps
    refine ⟨code, fun slot value found => Constants.Extends.get? ?_ found, grown⟩
    exact Grown.extends (grown.imp_right And.right)
  · subst dropped
    rw [emitted] at emission
    exact emission.eq_of_statement

/-- The host object is refused even though no code could follow the return. -/
theorem emitBody_fails_behind_return :
    let a : Assembly := ⟨⟨[.atom (.string "a")]⟩, ⟨.stack, [.load (.immediate .nil), .ret]⟩⟩
    let body : List Expr :=
      [.nil, .literal (.object ⟨"Widget", 1⟩), .literal (.atom (.keyword "k"))]
    a.constants.size < UInt32.size ∧
      emitBody .tail body a = .error (.unrepresentable ⟨"Widget", "stack"⟩) a := by
  intro a body
  have room : a.constants.size < UInt32.size := by decide
  exact ⟨room, ((emitBody_fails body .tail a room).1 _ a).mpr ⟨rfl, rfl, _, rfl, rfl⟩⟩

/-- Behind a return the last literal is interned before its code is rejected. -/
example : emitBody .expression [.literal (.atom (.string "s")), .literal (.atom (.keyword "k"))]
    ⟨⟨[.nil]⟩, ⟨.compact, [.ret]⟩⟩ = .error (.unreachable (.load (.constant ⟨1⟩)))
      ⟨⟨[.nil, .atom (.keyword "k")]⟩, ⟨.compact, [.ret]⟩⟩ := rfl

end FormCode.Code

import FormCode.Code.Recorder
import FormCode.Proofs.Code.Emission

/-! The flag of a recorder never falls back, because behind a return nothing is taken. So after any
run of calls a recorder and a buffer both hold the given instructions through the first return, and
the flag says what the last of them is. -/
namespace FormCode.Code

section Session

variable {ε σ τ α : Type} {call : α → EStateM ε σ Unit} {other : α → EStateM ε τ Unit}

def outcome : EStateM.Result ε σ Unit → Except ε Unit × σ
  | .ok _ s => (.ok (), s)
  | .error fault s => (.error fault, s)

/-- The answers of calls that are made one after the other, whether they succeed or fail, and what
all of them leave behind. -/
def session (call : α → EStateM ε σ Unit) (s : σ) : List α → List (Except ε Unit) × σ
  | [] => ([], s)
  | x :: xs =>
    let first := outcome (call x s)
    let rest := session call first.2 xs
    (first.1 :: rest.1, rest.2)

variable {P : σ → Prop} (kept : ∀ x s, P s → P (outcome (call x s)).2)
include kept

theorem session_keeps {s : σ} (holds : P s) (xs : List α) : P (session call s xs).2 := by
  induction xs generalizing s with
  | nil => exact holds
  | cons x xs ih => exact ih (kept x s holds)

theorem session_map {f : σ → τ}
    (same : ∀ x s, P s → outcome (other x (f s)) = (outcome (call x s)).map id f)
    {s : σ} (holds : P s) (xs : List α) :
    session other (f s) xs = (session call s xs).map id f := by
  induction xs generalizing s with
  | nil => rfl
  | cons x xs ih =>
    have rest := ih (kept x s holds)
    simp only [session, same x s holds, Prod.map_fst, Prod.map_snd, rest, id]
    rfl

end Session

/-- The instructions up to the first return, which is the last of them. -/
def throughReturn (given : List Instr) : List Instr :=
  given.take (given.findIdx Instr.isReturn + 1)

def refusal (instr : Instr) : Except Fault Unit := .error (.unreachable instr)

def answers (given : List Instr) : List (Except Fault Unit) :=
  given.mapIdx fun k instr =>
    if (given.take k).any Instr.isReturn then refusal instr else .ok ()

section Given

variable {instr : Instr} {instrs : List Instr}

theorem throughReturn_cons_return (ends : instr.isReturn = true) :
    throughReturn (instr :: instrs) = [instr] := by
  simp [throughReturn, List.findIdx_cons, ends]

theorem throughReturn_cons_load (goes_on : instr.isReturn = false) :
    throughReturn (instr :: instrs) = instr :: throughReturn instrs := by
  simp [throughReturn, List.findIdx_cons, goes_on]

theorem answers_cons_return (ends : instr.isReturn = true) :
    answers (instr :: instrs) = .ok () :: instrs.map refusal := by
  have refused : instrs.mapIdx (fun _ later => refusal later) = instrs.map refusal :=
    List.ext_getElem (by simp) (by simp)
  simp [answers, List.mapIdx_cons, ends, refused]

theorem answers_cons_load (goes_on : instr.isReturn = false) :
    answers (instr :: instrs) = .ok () :: answers instrs := by
  simp [answers, List.mapIdx_cons, goes_on]

/-- A return is the last instruction that is kept. -/
theorem eq_nil_of_throughReturn {given before after : List Instr}
    (kept : throughReturn given = before ++ instr :: after) (ends : instr.isReturn = true) :
    after = [] := by
  -- With more behind it, the instruction would be a return in front of the first return.
  by_contra more
  have positive : 0 < after.length := List.length_pos_iff.mpr more
  have bound : (throughReturn given).length ≤ given.findIdx Instr.isReturn + 1 :=
    List.length_take_le ..
  have early : before.length < given.findIdx Instr.isReturn := by
    rw [kept, List.length_append, List.length_cons] at bound
    omega
  have found : (throughReturn given)[before.length]? = some instr := by
    simp [kept]
  rw [throughReturn, List.getElem?_take_of_lt (by omega)] at found
  obtain ⟨inside, rfl⟩ := List.getElem?_eq_some_iff.mp found
  have goes_on : given[before.length].isReturn = false := List.not_of_lt_findIdx early
  rw [ends] at goes_on
  contradiction

end Given

namespace Recorder

variable {r : Recorder}

def InStep (r : Recorder) : Prop := r.ended = r.buffer.isEnded

theorem empty_inStep (target : Target) : (empty target).InStep := rfl

theorem record_of_ended (ended : r.ended = true) (instr : Instr) :
    record instr r = .error (.unreachable instr) r := if_pos ended

theorem record_of_open (isOpen : r.ended = false) (instr : Instr) :
    record instr r = .ok () ⟨r.target, r.instrs ++ [instr], instr.isReturn⟩ := by
  simp [record, isOpen]

theorem InStep.record (instr : Instr) (r : Recorder) (h : r.InStep) :
    (outcome (record instr r)).2.InStep := by
  cases flag : r.ended with
  | true =>
    rw [record_of_ended flag]
    exact h
  | false =>
    rw [record_of_open flag]
    simp [InStep, outcome, buffer, Buffer.isEnded]

/-- Emission gets from the last instruction what a recorder gets from its flag. -/
theorem InStep.emitInstr (constants : Constants) (instr : Instr) (r : Recorder) (h : r.InStep) :
    outcome (emitInstr instr ⟨constants, r.buffer⟩) =
      (outcome (Recorder.record instr r)).map id fun next => ⟨constants, next.buffer⟩ := by
  rw [emitInstr_eq]
  cases flag : r.ended with
  | true =>
    rw [record_of_ended flag, ← h, if_pos flag]
    rfl
  | false =>
    rw [record_of_open flag, ← h, flag]
    rfl

theorem session_of_ended (ended : r.ended = true) (given : List Instr) :
    session record r given = (given.map refusal, r) := by
  induction given with
  | nil => rfl
  | cons instr given ih =>
    simp only [session, record_of_ended ended, outcome, ih]
    rfl

theorem session_of_open (isOpen : r.ended = false) (given : List Instr) :
    session record r given = (answers given,
      ⟨r.target, r.instrs ++ throughReturn given, given.any Instr.isReturn⟩) := by
  induction given generalizing r with
  | nil =>
    obtain ⟨target, instrs, ended⟩ := r
    cases isOpen
    simp [session, answers, throughReturn]
  | cons instr given ih =>
    cases kind : instr.isReturn with
    | true =>
      -- The flag is set now, so the rest is refused as a whole.
      have rest := session_of_ended (r := ⟨r.target, r.instrs ++ [instr], true⟩) rfl given
      simp only [session, record_of_open isOpen, kind, outcome, rest, answers_cons_return kind,
        throughReturn_cons_return kind, List.any_cons, Bool.true_or]
    | false =>
      have rest := ih (r := ⟨r.target, r.instrs ++ [instr], false⟩) rfl
      simp only [session, record_of_open isOpen, kind, outcome, rest, answers_cons_load kind,
        throughReturn_cons_load kind, List.any_cons, Bool.false_or, List.append_assoc,
        List.singleton_append]

end Recorder

/-- Whatever instructions are given to new code, those through the first return are kept, and the
flag is set exactly if there is one. All others are refused as code behind a return, and change
nothing. Emission does the same without a flag. So a return is never followed by anything, and the
flag agrees with the last instruction. -/
theorem session_throughReturn (target : Target) (constants : Constants) (given : List Instr) :
    let r : Recorder := ⟨target, throughReturn given, given.any Instr.isReturn⟩
    session Recorder.record (.empty target) given = (answers given, r) ∧
    session emitInstr ⟨constants, .empty target⟩ given = (answers given, ⟨constants, r.buffer⟩) ∧
    (r.ended = true → ∀ instr, Recorder.record instr r = .error (.unreachable instr) r ∧
      (Fault.unreachable instr).report =
        .misplaced .tail ("code after return point is unreachable: " ++ instr.text)) ∧
    (∀ before instr after, r.instrs = before ++ instr :: after → instr.isReturn = true →
      after = []) ∧
    r.ended = r.buffer.isEnded := by
  intro r
  have recorded : session Recorder.record (.empty target) given = (answers given, r) :=
    Recorder.session_of_open rfl given
  have emitted := session_map Recorder.InStep.record (Recorder.InStep.emitInstr constants)
    (Recorder.empty_inStep target) given
  have inStep := session_keeps Recorder.InStep.record (Recorder.empty_inStep target) given
  rw [recorded] at emitted inStep
  refine ⟨recorded, emitted, fun ended instr => ⟨Recorder.record_of_ended ended instr, rfl⟩, ?_,
    inStep⟩
  exact fun before instr after kept ends => eq_nil_of_throughReturn kept ends

/-- Behind the first return a second one is refused like anything else. -/
theorem session_throughReturn_refused :
    let nil : Instr := .load (.immediate .nil)
    let second : Instr := .retOf (.constant ⟨7⟩)
    let r : Recorder := ⟨.stack, [nil, .ret], true⟩
    session Recorder.record (.empty .stack) [nil, .ret, second, nil] =
        ([.ok (), .ok (), .error (.unreachable second), .error (.unreachable nil)], r) ∧
      Recorder.record nil r = .error (.unreachable nil) r := by
  intro nil second r
  obtain ⟨recorded, -, refused, -⟩ :=
    session_throughReturn .stack .empty [nil, .ret, second, nil]
  exact ⟨recorded, (refused rfl nil).1⟩

end FormCode.Code

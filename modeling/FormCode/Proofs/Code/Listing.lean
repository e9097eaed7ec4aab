import FormCode.Code.CodeUnit
import FormCode.Proofs.Code.Interning
import FormCode.Proofs.Text.CharQuote
import FormCode.Proofs.Text.Lines
import FormCode.Proofs.Value.OneLine

/-! A listing determines the code. Each constant and each instruction has a line to itself, the
line's beginning tells which of the two it is, and what stands on it can be told apart. -/
namespace FormCode.Code

open Text

/-- Items in lines that are numbered alike can be told apart if their lines can. -/
theorem mapIdx_injective {α β : Type} {f : Nat → α → β} {xs ys : List α}
    (each : ∀ n, ∀ x ∈ xs, ∀ y ∈ ys, f n x = f n y → x = y) (same : xs.mapIdx f = ys.mapIdx f) :
    xs = ys := by
  have length : xs.length = ys.length := by simpa using congrArg List.length same
  apply List.ext_getElem length
  intro n left right
  have row := List.getElem_of_eq same (by simpa using left)
  rw [List.getElem_mapIdx, List.getElem_mapIdx] at row
  exact each n _ (List.getElem_mem left) _ (List.getElem_mem right) row

theorem Slot.render_injective {s t : Slot} (same : s.render = t.render) : s = t := by
  have index := Numeral.toDigits_injective (List.cons.inj same).2
  obtain ⟨i⟩ := s
  obtain ⟨j⟩ := t
  exact congrArg Slot.mk (UInt32.toNat_inj.mp index)

theorem Slot.not_mem_render (slot : Slot) : '\n' ∉ slot.render := by
  intro member
  have digits := (List.mem_cons.mp member).resolve_left (by decide)
  exact Numeral.not_mem_toDigits _ digits

namespace Immediate

def isNaN : Immediate → Bool
  | .float x => x.isNaN
  | _ => false

def letter : Immediate → Char
  | .nil => 'n'
  | .bool _ => 'b'
  | .int _ => 'i'
  | .float _ => 'f'
  | .char _ => 'c'

theorem head?_render (i : Immediate) : i.render.head? = some i.letter := by
  cases i with
  | bool b => cases b <;> rfl
  | nil | int | float | char => rfl

theorem render_injective {i j : Immediate} (hi : i.isNaN = false) (hj : j.isNaN = false)
    (same : i.render = j.render) : i = j := by
  have letters : i.letter = j.letter := by
    have heads := congrArg List.head? same
    rw [head?_render, head?_render] at heads
    exact Option.some.inj heads
  cases i <;> cases j <;> simp [letter] at letters
  case nil.nil => rfl
  case bool.bool b c =>
    unfold render at same
    cases b <;> cases c <;> simp at same ⊢
  case int.int n k =>
    have texts : Numeral.ofInt n.toInt = Numeral.ofInt k.toInt := List.append_cancel_left same
    have values := congrArg Numeral.integer texts
    rw [Numeral.integer_ofInt, Numeral.integer_ofInt] at values
    exact congrArg Immediate.int (Int64.toInt_inj.mp values)
  case float.float x y =>
    have texts : x.literal = y.literal := List.append_cancel_left same
    exact congrArg Immediate.float (Binary64.literal_injective hi hj texts)
  case char.char c d =>
    have texts : CharQuote.encode c = CharQuote.encode d := List.append_cancel_left same
    exact congrArg Immediate.char (CharQuote.encode_injective texts)

theorem not_mem_render {i : Immediate} (number : i.isNaN = false) : '\n' ∉ i.render := by
  unfold render
  cases i with
  | nil => decide
  | bool b => cases b <;> decide
  | int n => simp [Numeral.not_mem_ofInt]
  | float x => simp [Binary64.not_mem_literal number]
  | char c => simp [CharQuote.not_mem_encode]

end Immediate

namespace Operand

def isNaN : Operand → Bool
  | .immediate i => i.isNaN
  | .constant _ => false

theorem head?_render (o : Operand) : o.render.head? = some '.' := by
  cases o <;> rfl

theorem render_injective {o p : Operand} (ho : o.isNaN = false) (hp : p.isNaN = false)
    (same : o.render = p.render) : o = p := by
  unfold render at same
  cases o <;> cases p <;> simp at same
  case immediate.immediate i j =>
    exact congrArg Operand.immediate (Immediate.render_injective ho hp same)
  case constant.constant s t => exact congrArg Operand.constant (Slot.render_injective same)

theorem not_mem_render {o : Operand} (number : o.isNaN = false) : '\n' ∉ o.render := by
  unfold render
  cases o with
  | immediate i => simp [Immediate.not_mem_render number]
  | constant slot => simp [Slot.not_mem_render slot]

end Operand

namespace Instr

/-- Whether the operand is an immediate NaN. All NaNs are written alike. -/
def hasNaN : Instr → Bool
  | .load operand | .retOf operand => operand.isNaN
  | .ret => false

theorem render_injective {instr other : Instr} (h : instr.hasNaN = false)
    (h' : other.hasNaN = false) (same : instr.render = other.render) : instr = other := by
  unfold render at same
  cases instr <;> cases other <;> simp at same
  case load.load => exact congrArg Instr.load (Operand.render_injective h h' same)
  case ret.ret => rfl
  case ret.retOf operand => simpa [same] using operand.head?_render
  case retOf.ret operand => simpa [same] using operand.head?_render
  case retOf.retOf => exact congrArg Instr.retOf (Operand.render_injective h h' same)

theorem not_mem_render {instr : Instr} (number : instr.hasNaN = false) : '\n' ∉ instr.render := by
  unfold render
  cases instr with
  | load operand => simp [Operand.not_mem_render number]
  | ret => decide
  | retOf operand => simp [Operand.not_mem_render number]

end Instr

namespace CodeUnit

/-- The line of a constant as it is numbered, however far slots reach. -/
def constantLine (n : Nat) (value : Value) : List Char :=
  ";   #".toList ++ Nat.toDigits 10 n ++ " = ".toList ++ value.render ++ ['\n']

theorem constantLine?_eq (n : Nat) (value : Value) :
    constantLine? n value = if n < UInt32.size then some (constantLine n value) else none := by
  unfold constantLine?
  by_cases bound : n < UInt32.size
  · have slot : Slot.ofNat? n = some ⟨.ofNat n⟩ := if_pos bound
    have index := Slot.ofNat?_eq_some slot
    rw [slot, if_pos bound, Option.map_some, Slot.render, index]
    rfl
  · have none_left : Slot.ofNat? n = none := if_neg bound
    rw [none_left, if_neg bound]
    rfl

theorem mapM_constantLine? (values : List Value) {n : Nat} (bound : n ≤ UInt32.size) :
    (values.zipIdx n).mapM (fun (value, k) => constantLine? k value) =
      if n + values.length ≤ UInt32.size then
        some ((values.zipIdx n).map fun (value, k) => constantLine k value)
      else none := by
  induction values generalizing n with
  | nil => simp [bound]
  | cons value values ih =>
    rw [List.zipIdx_cons, List.mapM_cons]
    dsimp only
    rw [constantLine?_eq]
    by_cases here : n < UInt32.size
    · have shift : n + (value :: values).length = n + 1 + values.length := by
        rw [List.length_cons]
        omega
      rw [if_pos here, ih here, shift]
      split <;> rfl
    · have none_left : ¬ n + (value :: values).length ≤ UInt32.size := by
        rw [List.length_cons]
        omega
      rw [if_neg here, if_neg none_left]
      rfl

theorem constantLine_injective {n : Nat} {v w : Value} (same : constantLine n v = constantLine n w) :
    v.render = w.render :=
  List.append_cancel_left (List.append_cancel_right same)

theorem instrLine_injective {n : Nat} {instr other : Instr}
    (same : instrLine n instr = instrLine n other) : instr.render = other.render :=
  List.append_cancel_left (List.append_cancel_right same)

theorem isLine_constantLine (n : Nat) {v : Value} (h : '\n' ∉ v.render) :
    IsLine (constantLine n v) := by
  apply IsLine.concat
  have digits : '\n' ∉ Nat.toDigits 10 n := Numeral.not_mem_toDigits n
  simp [h, digits]

/-- Blanks and digits stand before the colon. -/
theorem number_origin {n : Nat} {c : Char} (member : c ∈ List.leftpad 4 ' ' (Nat.toDigits 10 n)) :
    c = ' ' ∨ c.isDigit = true := by
  rcases List.mem_append.mp member with blank | digit
  · exact .inl (List.mem_replicate.mp blank).2
  · exact .inr (Numeral.isDigit_of_mem_toDigits digit)

theorem isLine_instrLine (n : Nat) {instr : Instr} (h : '\n' ∉ instr.render) :
    IsLine (instrLine n instr) := by
  apply IsLine.concat
  have number := @number_origin n '\n'
  generalize List.leftpad 4 ' ' (Nat.toDigits 10 n) = digits at number
  have plain : '\n' ∉ digits := fun member => absurd (number member) (by decide)
  simp [h, plain]

def isComment (line : List Char) : Bool := line.head? == some ';'

theorem isComment_instrLine (n : Nat) (instr : Instr) : isComment (instrLine n instr) = false := by
  have nonempty : List.leftpad 4 ' ' (Nat.toDigits 10 n) ≠ [] := by
    simp [List.leftpad, Nat.toDigits_ne_nil]
  have number := @number_origin n ';'
  unfold instrLine
  generalize List.leftpad 4 ' ' (Nat.toDigits 10 n) = digits at nonempty number
  obtain ⟨c, rest, rfl⟩ := List.exists_cons_of_ne_nil nonempty
  have other : c ≠ ';' := by
    rintro rfl
    exact absurd (number (by simp)) (by decide)
  simp [isComment, other]

/-- The lines of the constants, below a line that announces them. -/
def comments (unit : CodeUnit) : List (List Char) :=
  if unit.constants.isEmpty then []
  else "; constants\n".toList :: unit.constants.mapIdx constantLine

def lines (unit : CodeUnit) : List (List Char) := unit.comments ++ unit.instrs.mapIdx instrLine

theorem constantLines?_eq (unit : CodeUnit) : unit.constantLines? =
    if unit.constants.length ≤ UInt32.size then some unit.comments.flatten else none := by
  unfold constantLines? comments
  split
  case isTrue empty => simp [List.isEmpty_iff.mp empty]
  case isFalse =>
    rw [mapM_constantLine? unit.constants (Nat.zero_le _), Nat.zero_add,
      List.mapIdx_eq_zipIdx_map]
    split <;> rfl

theorem listing?_eq (unit : CodeUnit) : unit.listing? =
    if unit.constants.length ≤ UInt32.size then
      some (.ofList (unit.heading ++ unit.lines.flatten))
    else none := by
  rw [listing?, constantLines?_eq, lines, List.flatten_append]
  split
  case isTrue => rw [Option.map_some, List.append_assoc]
  case isFalse => rfl

theorem tail_comments (unit : CodeUnit) :
    unit.comments.tail = unit.constants.mapIdx constantLine := by
  unfold comments
  split
  case isTrue empty => simp [List.isEmpty_iff.mp empty]
  case isFalse => rfl

theorem comments_origin {unit : CodeUnit} {line : List Char} (member : line ∈ unit.comments) :
    line = "; constants\n".toList ∨ ∃ n, ∃ v ∈ unit.constants, line = constantLine n v := by
  unfold comments at member
  split at member
  · contradiction
  · rcases List.mem_cons.mp member with announced | member
    · exact .inl announced
    · obtain ⟨n, bound, rfl⟩ := List.mem_mapIdx.mp member
      exact .inr ⟨n, _, List.getElem_mem bound, rfl⟩

theorem instrLine_origin {unit : CodeUnit} {line : List Char}
    (member : line ∈ unit.instrs.mapIdx instrLine) :
    ∃ n, ∃ instr ∈ unit.instrs, line = instrLine n instr := by
  obtain ⟨n, bound, rfl⟩ := List.mem_mapIdx.mp member
  exact ⟨n, _, List.getElem_mem bound, rfl⟩

theorem filter_lines (unit : CodeUnit) : unit.lines.filter isComment = unit.comments := by
  have kept : unit.comments.filter isComment = unit.comments := by
    apply List.filter_eq_self.mpr
    intro line member
    obtain rfl | ⟨n, v, -, rfl⟩ := comments_origin member
    · rfl
    · rfl
  have dropped : (unit.instrs.mapIdx instrLine).filter isComment = [] := by
    apply List.filter_eq_nil_iff.mpr
    intro line member
    obtain ⟨n, instr, -, rfl⟩ := instrLine_origin member
    simp [isComment_instrLine]
  rw [lines, List.filter_append, kept, dropped, List.append_nil]

/-- Units with listings that can be read: all constants can be read back, and no instruction has a
NaN. -/
structure IsLegible (unit : CodeUnit) : Prop where
  readable : ∀ v ∈ unit.constants, v.Readable
  low : ∀ v ∈ unit.constants, v.height ≤ Reader.maxDepth
  numbers : ∀ instr ∈ unit.instrs, instr.hasNaN = false

/-- A listing of one line for each constant and each instruction, none of which brings a line feed
of its own. -/
structure IsLined (unit : CodeUnit) : Prop where
  constants : ∀ v ∈ unit.constants, '\n' ∉ v.render
  instrs : ∀ instr ∈ unit.instrs, '\n' ∉ instr.render
  listing : unit.listing? = if unit.constants.length ≤ UInt32.size then
      some (.ofList (unit.heading ++ unit.lines.flatten))
    else none
  lines : ∀ line ∈ unit.lines, IsLine line

theorem IsLegible.isLined {unit : CodeUnit} (h : unit.IsLegible) : unit.IsLined := by
  have constants : ∀ v ∈ unit.constants, '\n' ∉ v.render :=
    fun v member => (h.readable v member).not_mem_render
  have instrs : ∀ instr ∈ unit.instrs, '\n' ∉ instr.render :=
    fun instr member => Instr.not_mem_render (h.numbers instr member)
  refine ⟨constants, instrs, unit.listing?_eq, fun line member => ?_⟩
  rcases List.mem_append.mp member with comment | row
  · obtain rfl | ⟨n, v, inside, rfl⟩ := comments_origin comment
    · exact ⟨"; constants".toList, by decide, rfl⟩
    · exact isLine_constantLine n (constants v inside)
  · obtain ⟨n, instr, inside, rfl⟩ := instrLine_origin row
    exact isLine_instrLine n (instrs instr inside)

theorem IsLegible.of_lines {first second : CodeUnit} (h : first.IsLegible) (h' : second.IsLegible)
    (same : first.lines = second.lines) :
    first.constants = second.constants ∧ first.instrs = second.instrs := by
  have comments : first.comments = second.comments := by
    rw [← filter_lines, same, filter_lines]
  have constants : first.constants.mapIdx constantLine = second.constants.mapIdx constantLine := by
    rw [← tail_comments, comments, tail_comments]
  have instrs : first.instrs.mapIdx instrLine = second.instrs.mapIdx instrLine := by
    rw [lines, lines, comments] at same
    exact List.append_cancel_left same
  constructor
  · apply mapIdx_injective (fun n v inside w inside' row => ?_) constants
    exact Value.render_injective (h.readable v inside) (h.low v inside) (h'.readable w inside')
      (h'.low w inside') (constantLine_injective row)
  · apply mapIdx_injective (fun n instr inside other inside' row => ?_) instrs
    exact Instr.render_injective (h.numbers instr inside) (h'.numbers other inside')
      (instrLine_injective row)

/-- Two units for one target and with one name have the same listing only if they have the same
constants and the same instructions. -/
theorem listing_determines {first second : CodeUnit} (name : first.name = second.name)
    (target : first.target = second.target) (h : first.IsLegible) (h' : second.IsLegible) :
    first.IsLined ∧ second.IsLined ∧
    ((∃ text, first.listing? = some text ∧ second.listing? = some text) ↔
      first.constants = second.constants ∧ first.instrs = second.instrs ∧
        first.constants.length ≤ UInt32.size) := by
  have headings : first.heading = second.heading := by rw [heading, heading, name, target]
  refine ⟨h.isLined, h'.isLined, ?_, ?_⟩
  · rintro ⟨text, shown, shown'⟩
    rw [listing?_eq, Option.ite_none_right_eq_some, Option.some.injEq] at shown shown'
    obtain ⟨bound, shown⟩ := shown
    obtain ⟨-, shown'⟩ := shown'
    rw [← shown', headings] at shown
    have rows := List.append_cancel_left (String.ofList_injective shown)
    obtain ⟨constants, instrs⟩ :=
      h.of_lines h' (IsLine.flatten_injective h.isLined.lines h'.isLined.lines rows)
    exact ⟨constants, instrs, bound⟩
  · rintro ⟨constants, instrs, bound⟩
    have comments : first.comments = second.comments := by
      rw [CodeUnit.comments, CodeUnit.comments, constants]
    refine ⟨_, by rw [listing?_eq, if_pos bound], ?_⟩
    rw [listing?_eq, ← constants, if_pos bound, headings, lines, lines, comments, instrs]

/-- A line feed and a letter n are told apart, and the line feeds of a string stay on its line. -/
theorem listing_determines_feed :
    let constants : List Value := [.list [.atom (.string "a\nb"), .atom (.char '\n')]]
    let first : CodeUnit :=
      ⟨"demo", "stack", constants, [.load (.immediate (.char '\n')), .retOf (.constant ⟨0⟩)]⟩
    let second : CodeUnit :=
      ⟨"demo", "stack", constants, [.load (.immediate (.char 'n')), .retOf (.constant ⟨0⟩)]⟩
    first.IsLegible ∧ second.IsLegible ∧ first.IsLined ∧
      ∃ text, first.listing? = some text ∧ second.listing? ≠ some text := by
  intro constants first second
  have readable : ∀ v ∈ constants, v.Readable := by
    intro v member
    cases List.mem_singleton.mp member
    refine .list ?_
    simp only [List.forall_mem_cons]
    exact ⟨.atom trivial, .atom (by simp [Atom.Readable]), by simp⟩
  have low : ∀ v ∈ constants, v.height ≤ Reader.maxDepth := by decide
  have h : first.IsLegible := ⟨readable, low, by decide⟩
  have h' : second.IsLegible := ⟨readable, low, by decide⟩
  obtain ⟨lined, -, iff⟩ := @listing_determines first second rfl rfl h h'
  have bound : first.constants.length ≤ UInt32.size := by decide
  refine ⟨h, h', lined, _, by rw [listing?_eq, if_pos bound], fun same => ?_⟩
  obtain ⟨-, instrs, -⟩ := iff.mp ⟨_, by rw [listing?_eq, if_pos bound], same⟩
  exact absurd instrs (by decide)

end CodeUnit

end FormCode.Code

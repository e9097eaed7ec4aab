import FormCode.Proofs.Value.ReadBack

/-! The text of a readable value stands on one line, and no other readable value has it. -/
namespace FormCode

open Regex

theorem Text.Quoted.not_mem_encode (s : List Char) : '\n' ∉ Text.Quoted.encode s := by
  have escaped (c : Char) : '\n' ∉ Text.Quoted.escape c := by
    unfold Text.Quoted.escape
    split
    case h_5 plain _ => exact fun member => plain (List.mem_singleton.mp member).symm
    all_goals decide
  simp [Text.Quoted.encode, escaped]

theorem Text.CharLiteral.not_mem_encode (c : Char) : '\n' ∉ Text.CharLiteral.encode c := by
  unfold Text.CharLiteral.encode
  split
  case h_4 plain _ _ =>
    simpa using fun feed : '\n' = c => plain feed.symm
  all_goals decide

theorem Numeral.not_mem_toDigits (n : Nat) : '\n' ∉ Numeral.toDigits n := by
  intro member
  have := Numeral.isDigit_of_mem_toDigits member
  contradiction

theorem Numeral.not_mem_ofInt (n : Int) : '\n' ∉ Numeral.ofInt n := by
  unfold Numeral.ofInt
  split
  · simp [Numeral.not_mem_toDigits]
  · exact Numeral.not_mem_toDigits _

theorem Binary64.not_mem_literal {x : Binary64} (number : x.isNaN = false) :
    '\n' ∉ x.literal := by
  cases finite : x.isFinite with
  | true =>
    intro member
    have := Binary64.mem_literal finite member
    contradiction
  | false =>
    rw [(Binary64.literal_infinity number finite).2, Binary64.sign]
    split
    · decide
    · decide

namespace Token

theorem not_mem_of_chosen {text : List Char} {rule : Rule}
    (chosen : longestOf rules text = some (text.length, rule))
    (useless : holds '\n' rule.shape = false) : '\n' ∉ text := by
  intro member
  have own := matches_of_chosen chosen
  rw [List.take_length] at own
  have held := holds_of_matches own member
  rw [useless] at held
  contradiction

theorem not_mem_keyword {name : String} (yielded : Yielded (.keyword name)) :
    '\n' ∉ ':' :: name.toList :=
  not_mem_of_chosen (written_keyword yielded).chosen rfl

theorem not_mem_symbol {name : String} (yielded : Yielded (.symbol name)) : '\n' ∉ name.toList :=
  not_mem_of_chosen (written_symbol yielded).chosen rfl

end Token

theorem Atom.Readable.not_mem_render {a : Atom} (readable : a.Readable) : '\n' ∉ a.render := by
  cases a with
  | nil => decide
  | bool b => cases b <;> decide
  | int n => exact Numeral.not_mem_ofInt _
  | float x => exact Binary64.not_mem_literal (Binary64.isNaN_of_isFinite readable)
  | char c => exact Text.CharLiteral.not_mem_encode c
  | string s => exact Text.Quoted.not_mem_encode _
  | keyword name => exact Token.not_mem_keyword readable
  | symbol name => exact Token.not_mem_symbol readable

namespace Value

theorem renderItems_origin {items : List Value} {c : Char} (member : c ∈ renderItems items) :
    c = ' ' ∨ ∃ x ∈ items, c ∈ x.render := by
  induction items with
  | nil => contradiction
  | cons x items ih =>
    cases items with
    | nil => exact .inr ⟨x, by simp, member⟩
    | cons y items =>
      rw [renderItems_cons_cons, List.mem_append, List.mem_cons] at member
      rcases member with first | blank | others
      · exact .inr ⟨x, by simp, first⟩
      · exact .inl blank
      · refine (ih others).imp_right fun held => ?_
        obtain ⟨z, inside, here⟩ := held
        exact ⟨z, List.mem_cons_of_mem _ inside, here⟩

theorem renderEntries_origin {entries : List (Value × Value)} {c : Char}
    (member : c ∈ renderEntries entries) :
    c = ' ' ∨ c = ',' ∨ ∃ e ∈ entries, c ∈ e.1.render ∨ c ∈ e.2.render := by
  induction entries with
  | nil => contradiction
  | cons e entries ih =>
    obtain ⟨k, v⟩ := e
    cases entries with
    | nil =>
      rw [renderEntries, List.mem_append, List.mem_cons] at member
      rcases member with key | blank | value
      · exact .inr (.inr ⟨(k, v), by simp, .inl key⟩)
      · exact .inl blank
      · exact .inr (.inr ⟨(k, v), by simp, .inr value⟩)
    | cons f entries =>
      rw [renderEntries_cons_cons, List.mem_append, List.mem_cons, List.mem_append, List.mem_cons,
        List.mem_cons] at member
      rcases member with key | blank | value | comma | blank | others
      · exact .inr (.inr ⟨(k, v), by simp, .inl key⟩)
      · exact .inl blank
      · exact .inr (.inr ⟨(k, v), by simp, .inr value⟩)
      · exact .inr (.inl comma)
      · exact .inl blank
      · refine (ih others).imp_right (.imp_right fun held => ?_)
        obtain ⟨g, inside, here⟩ := held
        exact ⟨g, List.mem_cons_of_mem _ inside, here⟩

theorem not_mem_bracketed {inside : List Char} (h : '\n' ∉ inside) (bracket : Bracket) :
    '\n' ∉ bracket.left :: (inside ++ [bracket.right]) := by
  cases bracket <;> simp [h, Bracket.left, Bracket.right]

theorem Readable.not_mem_render {v : Value} (readable : Readable v) : '\n' ∉ v.render := by
  have items {xs : List Value} (each : ∀ x ∈ xs, '\n' ∉ x.render) : '\n' ∉ renderItems xs := by
    intro member
    obtain blank | ⟨x, inside, here⟩ := renderItems_origin member
    · contradiction
    · exact each x inside here
  induction readable with
  | atom h => exact h.not_mem_render
  | list _ ih => exact not_mem_bracketed (items ih) .round
  | vector _ ih => exact not_mem_bracketed (items ih) .square
  | map _ _ _ keys values =>
    refine not_mem_bracketed (fun member => ?_) .curly
    obtain blank | comma | ⟨e, inside, key | value⟩ := renderEntries_origin member
    · contradiction
    · contradiction
    · exact keys e inside key
    · exact values e inside value

/-- Reading undoes writing, so values with one text are one value. -/
theorem render_injective {v w : Value} (hv : Readable v) (low : v.height ≤ Reader.maxDepth)
    (hw : Readable w) (low' : w.height ≤ Reader.maxDepth) (same : v.render = w.render) : v = w := by
  have texts : v.text = w.text := congrArg String.ofList same
  have read := readFirst_text hv low
  rw [texts, readFirst_text hw low'] at read
  exact (Except.ok.inj read).symm

end Value

end FormCode

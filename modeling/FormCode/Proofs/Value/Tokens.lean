import FormCode.Proofs.Token.AtomText

/-! The tokens that values are written with. The text of a value is scanned to them wherever an atom
could stand, whatever is behind it. -/
namespace FormCode.Value

open Token

mutual

def tokens : Value → List Token
  | .atom a => [.atom a]
  | .object _ => []
  | .list items => .opening .round :: (tokensOfItems items ++ [.closing .round])
  | .vector items => .opening .square :: (tokensOfItems items ++ [.closing .square])
  | .map entries => .opening .curly :: (tokensOfEntries entries ++ [.closing .curly])

def tokensOfItems : List Value → List Token
  | [] => []
  | x :: items => tokens x ++ tokensOfItems items

def tokensOfEntries : List (Value × Value) → List Token
  | [] => []
  | (k, v) :: entries => tokens k ++ (tokens v ++ tokensOfEntries entries)

end

theorem tokensOfEntries_eq (entries : List (Value × Value)) :
    tokensOfEntries entries = tokensOfItems (entries.flatMap fun e => [e.1, e.2]) := by
  induction entries with
  | nil => rfl
  | cons e entries ih => simp [tokensOfEntries, tokensOfItems, ih]

/-- A blank before this text ends with it. -/
def Unskipped (text : List Char) : Prop := ∃ c ∈ text.head?, isSkipped c = false

theorem Unskipped.append {s : List Char} (h : Unskipped s) (t : List Char) :
    Unskipped (s ++ t) := by
  obtain ⟨c, head, unskipped⟩ := h
  exact ⟨c, by simp [Option.mem_def.mp head], unskipped⟩

/-- The value is scanned to its tokens in front of whatever may follow an atom. -/
structure Scanned (v : Value) : Prop where
  unskipped : Unskipped v.render
  scans : ∀ rest, Stops rest → Scans (v.render ++ rest) v.tokens rest

/-- Between two values stands a blank, which belongs to neither. -/
theorem Scanned.blank {v : Value} {c : Char} {t rest next : List Char} {others : List Token}
    (scanned : v.Scanned) (blanks : (c :: t).all isSkipped = true) (stop : isStop c = true)
    (unskipped : Unskipped next) (h : Scans next others rest) :
    Scans (v.render ++ (c :: t ++ next)) (v.tokens ++ others) rest := by
  obtain ⟨d, head, unskipped⟩ := unskipped
  have ended : ∀ d ∈ next.head?, isSkipped d = false := by
    intro e first
    cases head.symm.trans first
    exact unskipped
  have between : Scans (c :: t ++ next) others rest := by
    apply Scans.blank (piece_blanks blanks ended)
    rwa [List.drop_left]
  have stops : Stops (c :: t ++ next) := by
    intro e first
    cases first
    exact stop
  exact (scanned.scans _ stops).append between

theorem renderItems_cons_cons (x y : Value) (items : List Value) :
    renderItems (x :: y :: items) = render x ++ ' ' :: renderItems (y :: items) := by
  rw [renderItems]
  simp

theorem renderEntries_cons_cons (k v : Value) (f : Value × Value) (entries : List (Value × Value)) :
    renderEntries ((k, v) :: f :: entries) =
      render k ++ ' ' :: (render v ++ ',' :: ' ' :: renderEntries (f :: entries)) := by
  rw [renderEntries]
  simp

theorem Scanned.renderItems_unskipped {x : Value} (h : x.Scanned) (items : List Value) :
    Unskipped (renderItems (x :: items)) := by
  cases items with
  | nil => exact h.unskipped
  | cons y items =>
    rw [renderItems_cons_cons]
    exact h.unskipped.append _

theorem Scanned.renderEntries_unskipped {e : Value × Value} (h : e.1.Scanned)
    (entries : List (Value × Value)) : Unskipped (renderEntries (e :: entries)) := by
  cases entries with
  | nil => exact h.unskipped.append _
  | cons f entries =>
    rw [renderEntries_cons_cons]
    exact h.unskipped.append _

theorem scans_items {items : List Value} (each : ∀ x ∈ items, x.Scanned) {rest : List Char}
    (stop : Stops rest) : Scans (renderItems items ++ rest) (tokensOfItems items) rest := by
  induction items with
  | nil => exact .done
  | cons x items ih =>
    rw [List.forall_mem_cons] at each
    cases items with
    | nil =>
      rw [renderItems, tokensOfItems, tokensOfItems, List.append_nil]
      exact each.1.scans rest stop
    | cons y items =>
      have first := (each.2 y (by simp)).renderItems_unskipped items
      rw [renderItems_cons_cons, tokensOfItems, List.append_assoc]
      exact each.1.blank (c := ' ') (t := []) rfl rfl (first.append rest) (ih each.2)

theorem scans_entries {entries : List (Value × Value)}
    (each : ∀ e ∈ entries, e.1.Scanned ∧ e.2.Scanned) {rest : List Char} (stop : Stops rest) :
    Scans (renderEntries entries ++ rest) (tokensOfEntries entries) rest := by
  induction entries with
  | nil => exact .done
  | cons e entries ih =>
    obtain ⟨k, v⟩ := e
    rw [List.forall_mem_cons] at each
    obtain ⟨⟨key, value⟩, others⟩ := each
    cases entries with
    | nil =>
      rw [renderEntries, tokensOfEntries, tokensOfEntries, List.append_nil, List.append_assoc]
      exact key.blank (c := ' ') (t := []) rfl rfl (value.unskipped.append rest)
        (value.scans rest stop)
    | cons f entries =>
      have first := (others f (by simp)).1.renderEntries_unskipped entries
      have after_key : Scans (render v ++ ([',', ' '] ++ (renderEntries (f :: entries) ++ rest)))
          (v.tokens ++ tokensOfEntries (f :: entries)) rest :=
        value.blank (c := ',') (t := [' ']) rfl rfl (first.append rest) (ih others)
      rw [renderEntries_cons_cons, tokensOfEntries, List.append_assoc, List.cons_append,
        List.append_assoc]
      exact key.blank (c := ' ') (t := []) rfl rfl (value.unskipped.append _) after_key

theorem stops_closing (bracket : Bracket) (rest : List Char) : Stops (bracket.right :: rest) := by
  intro c first
  cases first
  cases bracket <;> rfl

theorem scans_bracketed (bracket : Bracket) {inside : List Char} {tokens : List Token}
    (h : ∀ rest, Stops rest → Scans (inside ++ rest) tokens rest) (rest : List Char) :
    Scans (bracket.left :: (inside ++ [bracket.right]) ++ rest)
      (.opening bracket :: (tokens ++ [.closing bracket])) rest := by
  have closing : Scans (bracket.right :: rest) [.closing bracket] rest :=
    .token (piece_closing bracket rest) .done
  rw [List.cons_append, List.append_assoc, List.singleton_append]
  exact .token (piece_opening bracket _) ((h _ (stops_closing bracket rest)).append closing)

namespace Scanned

theorem atom {a : Atom} (readable : a.Readable) : (Value.atom a).Scanned where
  unskipped := render_unskipped readable
  scans rest stop := by
    apply Scans.token (piece_render readable stop)
    rw [List.drop_left]
    exact .done

theorem list {items : List Value} (each : ∀ x ∈ items, x.Scanned) : (Value.list items).Scanned where
  unskipped := ⟨'(', rfl, rfl⟩
  scans rest _ := scans_bracketed .round (fun _ => scans_items each) rest

theorem vector {items : List Value} (each : ∀ x ∈ items, x.Scanned) :
    (Value.vector items).Scanned where
  unskipped := ⟨'[', rfl, rfl⟩
  scans rest _ := scans_bracketed .square (fun _ => scans_items each) rest

theorem map {entries : List (Value × Value)} (each : ∀ e ∈ entries, e.1.Scanned ∧ e.2.Scanned) :
    (Value.map entries).Scanned where
  unskipped := ⟨'\x7b', rfl, rfl⟩
  scans rest _ := scans_bracketed .curly (fun _ => scans_entries each) rest

end Scanned

end FormCode.Value

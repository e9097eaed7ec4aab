import FormCode.Proofs.Reader.Derivation
import FormCode.Proofs.Value.Tokens
import Mathlib

/-! Values are read back from their text: it scans to the tokens that the value is written with, and
these derive the value. -/
namespace FormCode.Value

open Token Reader

/-- Values of readable atoms, without host objects, whose maps have unequal keys. -/
inductive Readable : Value → Prop
  | atom (h : a.Readable) : Readable (.atom a)
  | list (each : ∀ x ∈ items, Readable x) : Readable (.list items)
  | vector (each : ∀ x ∈ items, Readable x) : Readable (.vector items)
  | map (keys : ∀ e ∈ entries, Readable e.1) (values : ∀ e ∈ entries, Readable e.2)
      (distinct : (entries.map Prod.fst).Pairwise fun k l => (k == l) = false) :
      Readable (.map entries)

mutual

/-- The levels of a value: one for an atom, one more than its highest item for a collection. -/
def height : Value → Nat
  | .atom _ => 1
  | .object _ => 1
  | .list items => heightOfItems items + 1
  | .vector items => heightOfItems items + 1
  | .map entries => heightOfEntries entries + 1

def heightOfItems : List Value → Nat
  | [] => 0
  | x :: items => max (height x) (heightOfItems items)

def heightOfEntries : List (Value × Value) → Nat
  | [] => 0
  | (k, v) :: entries => max (max (height k) (height v)) (heightOfEntries entries)

end

theorem height_le_of_item {items : List Value} {x : Value} (member : x ∈ items) :
    x.height ≤ heightOfItems items := by
  induction items with
  | nil => contradiction
  | cons y items ih =>
    rw [heightOfItems]
    rcases List.mem_cons.mp member with rfl | member
    · exact Nat.le_max_left ..
    · exact Nat.le_trans (ih member) (Nat.le_max_right ..)

theorem height_le_of_entry {entries : List (Value × Value)} {e : Value × Value}
    (member : e ∈ entries) :
    e.1.height ≤ heightOfEntries entries ∧ e.2.height ≤ heightOfEntries entries := by
  induction entries with
  | nil => contradiction
  | cons f entries ih =>
    rw [heightOfEntries]
    rcases List.mem_cons.mp member with rfl | member
    · omega
    · have := ih member
      omega

theorem scanned_of_readable {v : Value} (readable : Readable v) : v.Scanned := by
  induction readable with
  | atom h => exact .atom h
  | list _ ih => exact .list ih
  | vector _ ih => exact .vector ih
  | map _ _ _ keys values => exact .map fun e member => ⟨keys e member, values e member⟩

theorem derives_items {level : Nat} {items : List Value}
    (each : ∀ x ∈ items, ∀ located : List (Located Token), located.map Located.item = x.tokens →
      Derives level located x)
    {located : List (Located Token)} (same : located.map Located.item = tokensOfItems items) :
    DerivesAll level located items := by
  induction items generalizing located with
  | nil =>
    obtain rfl := List.map_eq_nil_iff.mp same
    exact .nil
  | cons x items ih =>
    rw [List.forall_mem_cons] at each
    obtain ⟨first, others, rfl, here, there⟩ := List.map_eq_append_iff.mp same
    exact .cons (each.1 first here) (ih each.2 there)

theorem bracketed_of_map {bracket : Bracket} {inside : List Token}
    {located : List (Located Token)}
    (same : located.map Located.item = .opening bracket :: (inside ++ [.closing bracket])) :
    ∃ place there middle, middle.map Located.item = inside ∧
      located = ⟨place, .opening bracket⟩ :: (middle ++ [⟨there, .closing bracket⟩]) := by
  obtain ⟨⟨place, _⟩, rest, rfl, rfl, after⟩ := List.map_eq_cons_iff.mp same
  obtain ⟨middle, last, rfl, within, closing⟩ := List.map_eq_append_iff.mp after
  obtain ⟨⟨there, _⟩, rfl, rfl⟩ := List.map_eq_singleton_iff.mp closing
  exact ⟨place, there, middle, within, rfl⟩

theorem derives_tokens {v : Value} (readable : Readable v) {level : Nat}
    (room : level + v.height ≤ maxDepth + 1) {located : List (Located Token)}
    (same : located.map Located.item = v.tokens) : Derives level located v := by
  induction readable generalizing level located with
  | atom h =>
    obtain ⟨⟨place, _⟩, rfl, rfl⟩ := List.map_eq_singleton_iff.mp same
    rw [height] at room
    exact .atom (by omega)
  | list _ ih =>
    obtain ⟨place, there, middle, within, rfl⟩ := bracketed_of_map same
    rw [height] at room
    refine .list (by omega) (derives_items (fun x member located same => ?_) within)
    have := height_le_of_item member
    exact ih x member (by omega) same
  | vector _ ih =>
    obtain ⟨place, there, middle, within, rfl⟩ := bracketed_of_map same
    rw [height] at room
    refine .vector (by omega) (derives_items (fun x member located same => ?_) within)
    have := height_le_of_item member
    exact ih x member (by omega) same
  | map _ _ distinct keys values =>
    obtain ⟨place, there, middle, within, rfl⟩ := bracketed_of_map same
    rw [height] at room
    rw [tokensOfEntries_eq] at within
    refine .map (by omega) (derives_items (fun x member located same => ?_) within) distinct
    obtain ⟨e, inside, member⟩ := List.mem_flatMap.mp member
    have := height_le_of_entry inside
    rcases List.mem_cons.mp member with rfl | member
    · exact keys e inside (by omega) same
    · cases List.mem_singleton.mp member
      exact values e inside (by omega) same

/-- Writing a value and reading the text gives the value back. -/
theorem readFirst_text {v : Value} (readable : Readable v) (shallow : v.height ≤ maxDepth) :
    readFirst v.text = .ok v := by
  have scans := (scanned_of_readable readable).scans [] (by simp [Stops])
  rw [List.append_nil] at scans
  obtain ⟨located, done, same⟩ := scan_ok_iff.mpr scans
  have lexed : Token.lex v.text = .ok (located ++ []) := by
    rw [Token.lex, Value.text, String.toList_ofList, done, List.append_nil]
    rfl
  exact readFirst_of_derives lexed (derives_tokens readable (by omega) same)

/-- A map from a keyword and a symbol to a vector of awkward atoms and to a fraction. -/
theorem readFirst_text_map :
    let v : Value := .map [
      (.atom (.keyword "k"), .vector [.atom (.int (-1)), .atom (.string "a\"b"), .atom (.char '\n')]),
      (.atom (.symbol "s"), .list [.atom (.float ⟨0xBFE0000000000000⟩)])]
    Readable v ∧ v.height ≤ maxDepth ∧ readFirst v.text = .ok v := by
  intro v
  have keyword : (Atom.keyword "k").Readable := ⟨":k", .first, by cbv⟩
  have symbol : (Atom.symbol "s").Readable := ⟨"s", .first, by cbv⟩
  have items : Readable (.vector
      [.atom (.int (-1)), .atom (.string "a\"b"), .atom (.char '\n')]) := by
    refine .vector ?_
    simp only [List.forall_mem_cons]
    exact ⟨.atom trivial, .atom trivial, .atom (by simp [Atom.Readable]), by simp⟩
  have fraction : Readable (.list [.atom (.float ⟨0xBFE0000000000000⟩)]) := by
    refine .list ?_
    simp only [List.forall_mem_cons]
    exact ⟨.atom rfl, by simp⟩
  have unequal : same (.atom (.keyword "k")) (.atom (.symbol "s")) = false := by
    simp [same, sameWay]
  have readable : Readable v := by
    refine .map ?_ ?_ (List.pairwise_pair.mpr unequal)
    · simp only [List.forall_mem_cons]
      exact ⟨.atom keyword, .atom symbol, by simp⟩
    · simp only [List.forall_mem_cons]
      exact ⟨items, fraction, by simp⟩
  have shallow : v.height ≤ maxDepth := by decide
  exact ⟨readable, shallow, readFirst_text readable shallow⟩

end FormCode.Value

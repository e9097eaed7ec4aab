import FormCode.Proofs.Regex.Longest
import FormCode.Token.Rule

/-! The rule that decides at the beginning of a text: none matches more, and none that stands before
it matches as much. -/
namespace FormCode.Token

open Regex

theorem longestOf_eq_none_iff {rules : List Rule} {text : List Char} :
    longestOf rules text = none ↔ ∀ rule ∈ rules, rule.shape.longest text = none := by
  induction rules with
  | nil => simp [longestOf]
  | cons first others ih =>
    rw [List.forall_mem_cons, ← ih, longestOf]
    cases first.shape.longest text with
    | none => simp
    | some n =>
      cases longestOf others text with
      | none => simp
      | some best =>
        obtain ⟨m, other⟩ := best
        by_cases h : n < m <;> simp [h]

/-- The first rule wins a tie against those behind it. -/
theorem longestOf_cons_iff {first rule : Rule} {others : List Rule} {text : List Char} {n : Nat} :
    longestOf (first :: others) text = some (n, rule) ↔
      (first.shape.longest text = some n ∧ first = rule ∧
        ∀ m r, longestOf others text = some (m, r) → m ≤ n) ∨
      (longestOf others text = some (n, rule) ∧ ∀ m, first.shape.longest text = some m → m < n) := by
  rw [longestOf]
  cases first.shape.longest text with
  | none => simp
  | some k =>
    cases longestOf others text with
    | none => simp
    | some best =>
      obtain ⟨m, other⟩ := best
      by_cases longer : k < m
      · simp only [if_pos longer, Option.some.injEq, Prod.mk.injEq]
        constructor
        · rintro ⟨rfl, rfl⟩
          exact .inr ⟨⟨rfl, rfl⟩, fun _ same => same ▸ longer⟩
        · rintro (⟨rfl, -, most⟩ | ⟨same, -⟩)
          · exact absurd (most m other ⟨rfl, rfl⟩) (Nat.not_le.mpr longer)
          · exact same
      · simp only [if_neg longer, Option.some.injEq, Prod.mk.injEq]
        constructor
        · rintro ⟨rfl, rfl⟩
          exact .inl ⟨rfl, rfl, fun _ _ same => same.1 ▸ Nat.le_of_not_lt longer⟩
        · rintro (⟨rfl, rfl, -⟩ | ⟨⟨rfl, rfl⟩, less⟩)
          · exact ⟨rfl, rfl⟩
          · exact absurd (less k rfl) longer

theorem longestOf_mem {rules : List Rule} {text : List Char} {n : Nat} {rule : Rule}
    (h : longestOf rules text = some (n, rule)) :
    rule ∈ rules ∧ rule.shape.longest text = some n := by
  induction rules with
  | nil => contradiction
  | cons first others ih =>
    rcases longestOf_cons_iff.mp h with ⟨own, rfl, -⟩ | ⟨best, -⟩
    · exact ⟨List.mem_cons_self .., own⟩
    · obtain ⟨member, own⟩ := ih best
      exact ⟨List.mem_cons_of_mem _ member, own⟩

theorem longestOf_le {rules : List Rule} {text : List Char} {n m : Nat} {rule r : Rule}
    (h : longestOf rules text = some (n, rule)) (member : r ∈ rules)
    (matched : r.shape.longest text = some m) : m ≤ n := by
  induction rules generalizing n rule with
  | nil => contradiction
  | cons first others ih =>
    rcases longestOf_cons_iff.mp h with ⟨own, rfl, most⟩ | ⟨best, less⟩
    · rcases List.mem_cons.mp member with rfl | member
      · cases own.symm.trans matched
        exact Nat.le_refl _
      · cases best : longestOf others text with
        | none => simp [longestOf_eq_none_iff.mp best r member] at matched
        | some other => exact Nat.le_trans (ih best member) (most _ _ best)
    · rcases List.mem_cons.mp member with rfl | member
      · exact Nat.le_of_lt (less m matched)
      · exact ih best member

theorem longestOf_eq_some_iff {rules : List Rule} {text : List Char} {n : Nat} {rule : Rule} :
    longestOf rules text = some (n, rule) ↔ ∃ earlier later, rules = earlier ++ rule :: later ∧
      rule.shape.longest text = some n ∧
      (∀ r ∈ earlier, ∀ m, r.shape.longest text = some m → m < n) ∧
      ∀ r ∈ later, ∀ m, r.shape.longest text = some m → m ≤ n := by
  constructor
  · intro h
    induction rules with
    | nil => contradiction
    | cons first others ih =>
      rcases longestOf_cons_iff.mp h with ⟨own, rfl, -⟩ | ⟨best, less⟩
      · exact ⟨[], others, rfl, own, by simp, fun r member m matched =>
          longestOf_le h (List.mem_cons_of_mem _ member) matched⟩
      · obtain ⟨earlier, later, rfl, chosen, before, after⟩ := ih best
        exact ⟨first :: earlier, later, rfl, chosen, List.forall_mem_cons.mpr ⟨less, before⟩, after⟩
  · rintro ⟨earlier, later, rfl, chosen, before, after⟩
    induction earlier with
    | nil =>
      refine longestOf_cons_iff.mpr (.inl ⟨chosen, rfl, fun m r best => ?_⟩)
      obtain ⟨member, matched⟩ := longestOf_mem best
      exact after r member m matched
    | cons first earlier ih =>
      rw [List.forall_mem_cons] at before
      exact longestOf_cons_iff.mpr (.inr ⟨ih before.2, before.1⟩)

theorem longestOf_congr {rules : List Rule} {s t : List Char}
    (h : ∀ rule ∈ rules, rule.shape.longest s = rule.shape.longest t) :
    longestOf rules s = longestOf rules t := by
  induction rules with
  | nil => rfl
  | cons first others ih =>
    rw [List.forall_mem_cons] at h
    rw [longestOf, longestOf, h.1, ih h.2]

theorem longestOf_append {rules : List Rule} {t rest : List Char}
    (h : ∀ rule ∈ rules, rule.shape.Ends t rest) :
    longestOf rules (t ++ rest) = longestOf rules t :=
  longestOf_congr fun rule member => longest_append (h rule member)

theorem longestOf_take {rules : List Rule} {text : List Char} {n : Nat} {rule : Rule}
    (h : longestOf rules text = some (n, rule)) :
    longestOf rules (text.take n) = some (n, rule) := by
  have same : longestOf rules (text.take n ++ text.drop n) = longestOf rules (text.take n) := by
    apply longestOf_append
    intro r member
    exact Ends.of_longest fun m matched => longestOf_le h member matched
  rw [← same, List.take_append_drop, h]

theorem longestOf_whole {rules : List Rule} {rule : Rule} {text : List Char}
    (member : rule ∈ rules) (own : rule.shape.Matches text)
    (alone : ∀ r ∈ rules, r.shape.Matches text → r = rule) :
    longestOf rules text = some (text.length, rule) := by
  obtain ⟨earlier, later, rfl, fresh⟩ := List.eq_append_cons_of_mem member
  apply longestOf_eq_some_iff.mpr
  refine ⟨earlier, later, rfl, longest_of_matches own, ?_, ?_⟩
  · intro r before m matched
    obtain ⟨bound, matched⟩ := matches_of_longest matched
    apply Nat.lt_of_le_of_ne bound
    rintro rfl
    rw [List.take_length] at matched
    cases alone r (List.mem_append_left _ before) matched
    exact fresh before
  · intro r _ m matched
    exact (matches_of_longest matched).1

theorem longestOf_only {rules : List Rule} {rule : Rule} {c : Char} {t rest : List Char}
    (member : rule ∈ rules) (others : ∀ r ∈ rules, r ≠ rule → begins c r.shape = false)
    (own : rule.shape.Matches (c :: t)) (ends : rule.shape.Ends (c :: t) rest) :
    longestOf rules (c :: t ++ rest) = some ((c :: t).length, rule) := by
  have each : ∀ r ∈ rules, r.shape.Ends (c :: t) rest := by
    intro r inside
    by_cases same : r = rule
    · rw [same]
      exact ends
    · exact .of_begins t rest (others r inside same)
  rw [longestOf_append each]
  apply longestOf_whole member own
  intro r inside matched
  by_cases same : r = rule
  · exact same
  · have first := begins_of_matches matched
    simp [others r inside same] at first

end FormCode.Token

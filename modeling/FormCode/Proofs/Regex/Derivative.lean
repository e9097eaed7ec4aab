import FormCode.Regex

/-! Derivatives describe what may follow a character, and so `longest` finds the longest beginning
that matches. -/
namespace FormCode.Regex

theorem matches_never_iff {s : List Char} : Matches .never s ↔ False := by
  constructor
  · intro h
    cases h
  · exact False.elim

theorem matches_empty_iff {s : List Char} : Matches .empty s ↔ s = [] := by
  constructor
  · intro h
    cases h
    rfl
  · rintro rfl
    exact .empty

theorem matches_one_iff {allowed : Char → Bool} {s : List Char} :
    Matches (.one allowed) s ↔ ∃ c, s = [c] ∧ allowed c = true := by
  constructor
  · intro h
    cases h with
    | one h => exact ⟨_, rfl, h⟩
  · rintro ⟨c, rfl, h⟩
    exact .one h

theorem matches_seq_iff {r r' : Regex} {s : List Char} :
    Matches (.seq r r') s ↔ ∃ t u, s = t ++ u ∧ Matches r t ∧ Matches r' u := by
  constructor
  · intro h
    cases h with
    | seq hr ht => exact ⟨_, _, rfl, hr, ht⟩
  · rintro ⟨t, u, rfl, hr, hu⟩
    exact .seq hr hu

theorem matches_alt_iff {r r' : Regex} {s : List Char} :
    Matches (.alt r r') s ↔ Matches r s ∨ Matches r' s := by
  constructor
  · intro h
    cases h with
    | left h => exact .inl h
    | right h => exact .inr h
  · rintro (h | h)
    · exact .left h
    · exact .right h

theorem nullable_iff {r : Regex} : r.nullable = true ↔ Matches r [] := by
  induction r with
  | never => simp [nullable, matches_never_iff]
  | empty => simp [nullable, matches_empty_iff]
  | one allowed => simp [nullable, matches_one_iff]
  | seq r s ihr ihs =>
    simp only [nullable, Bool.and_eq_true, ihr, ihs, matches_seq_iff]
    constructor
    · rintro ⟨hr, hs⟩
      exact ⟨[], [], rfl, hr, hs⟩
    · rintro ⟨t, u, split, hr, hs⟩
      obtain ⟨rfl, rfl⟩ := List.append_eq_nil_iff.mp split.symm
      exact ⟨hr, hs⟩
  | alt r s ihr ihs => simp [nullable, matches_alt_iff, ihr, ihs]
  | star r => simpa [nullable] using Matches.done

theorem matches_seqOf_iff {r r' : Regex} {s : List Char} :
    Matches (seqOf r r') s ↔ Matches (.seq r r') s := by
  unfold seqOf
  split
  · simp [matches_seq_iff, matches_never_iff]
  · simp only [matches_seq_iff, matches_empty_iff]
    constructor
    · exact fun h => ⟨[], s, rfl, rfl, h⟩
    · rintro ⟨_, u, rfl, rfl, h⟩
      exact h
  · rfl

theorem matches_altOf_iff {r r' : Regex} {s : List Char} :
    Matches (altOf r r') s ↔ Matches (.alt r r') s := by
  unfold altOf
  split
  · simp [matches_alt_iff, matches_never_iff]
  · simp [matches_alt_iff, matches_never_iff]
  · rfl

theorem matches_star_cons_iff {r : Regex} {c : Char} {s : List Char} :
    Matches (.star r) (c :: s) ↔ ∃ t u, s = t ++ u ∧ Matches r (c :: t) ∧ Matches (.star r) u := by
  constructor
  · intro h
    generalize whole : Regex.star r = star at h
    generalize text : c :: s = cs at h
    induction h with
    | done => contradiction
    | @more r' first rest hr ht _ ih =>
      cases whole
      cases first with
      | nil => exact ih rfl text
      | cons d first =>
        cases text
        exact ⟨first, rest, rfl, hr, ht⟩
    | _ => contradiction
  · rintro ⟨t, u, rfl, hr, hu⟩
    exact .more hr hu

theorem matches_deriv_iff {r : Regex} {c : Char} {s : List Char} :
    Matches (r.deriv c) s ↔ Matches r (c :: s) := by
  induction r generalizing s with
  | never => simp [deriv, matches_never_iff]
  | empty => simp [deriv, matches_never_iff, matches_empty_iff]
  | one allowed =>
    by_cases h : allowed c = true
    · simp only [deriv, h, if_true, matches_empty_iff, matches_one_iff, List.cons.injEq]
      constructor
      · rintro rfl
        exact ⟨c, ⟨rfl, rfl⟩, h⟩
      · rintro ⟨_, ⟨_, rest⟩, _⟩
        exact rest
    · simp [deriv, h, matches_never_iff, matches_one_iff]
  | seq r r' ihr ihr' =>
    have split : Matches (.seq r r') (c :: s) ↔
        (∃ t u, s = t ++ u ∧ Matches r (c :: t) ∧ Matches r' u) ∨
          (r.nullable = true ∧ Matches r' (c :: s)) := by
      simp only [matches_seq_iff, List.cons_eq_append_iff, nullable_iff]
      grind
    by_cases h : r.nullable = true
    · simp [deriv, h, matches_altOf_iff, matches_alt_iff, matches_seqOf_iff, matches_seq_iff, ihr,
        ihr', split]
    · simp [deriv, h, matches_seqOf_iff, matches_seq_iff, ihr, split]
  | alt r r' ihr ihr' => simp [deriv, matches_altOf_iff, matches_alt_iff, ihr, ihr']
  | star r ih =>
    rw [deriv, matches_seqOf_iff, matches_seq_iff, matches_star_cons_iff]
    simp only [ih]

def derivAll (r : Regex) (t : List Char) : Regex := t.foldl (fun r c => r.deriv c) r

theorem derivAll_cons (r : Regex) (c : Char) (t : List Char) :
    r.derivAll (c :: t) = (r.deriv c).derivAll t := rfl

theorem derivAll_append (r : Regex) (s t : List Char) :
    r.derivAll (s ++ t) = (r.derivAll s).derivAll t := List.foldl_append

theorem matches_derivAll_iff {r : Regex} {t s : List Char} :
    Matches (r.derivAll t) s ↔ Matches r (t ++ s) := by
  induction t generalizing r with
  | nil => rfl
  | cons c t ih =>
    rw [derivAll_cons, ih, matches_deriv_iff, List.cons_append]

/-- Matching is decided by taking derivatives to the end of the text. -/
theorem matches_iff_nullable {r : Regex} {t : List Char} :
    Matches r t ↔ (r.derivAll t).nullable = true := by
  rw [nullable_iff, matches_derivAll_iff, List.append_nil]

theorem matches_star_one {allowed : Char → Bool} {t : List Char}
    (h : ∀ c ∈ t, allowed c = true) : Matches (.star (.one allowed)) t := by
  induction t with
  | nil => exact .done
  | cons c t ih =>
    rw [List.forall_mem_cons] at h
    exact .more (.one h.1) (ih h.2)

theorem matches_plus_one {allowed : Char → Bool} {t : List Char} (first : t ≠ [])
    (h : ∀ c ∈ t, allowed c = true) : Matches (plus (.one allowed)) t := by
  obtain ⟨c, t, rfl⟩ := List.exists_cons_of_ne_nil first
  rw [List.forall_mem_cons] at h
  exact .seq (.one h.1) (matches_star_one h.2)

end FormCode.Regex

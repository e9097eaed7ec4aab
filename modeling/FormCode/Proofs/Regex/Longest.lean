import FormCode.Proofs.Regex.Derivative

/-! The longest beginning that matches. Whether a match can go on past a given beginning is often
seen from the characters that an expression can start with or can hold at all. -/
namespace FormCode.Regex

theorem longestFrom_cons (r : Regex) (n : Nat) (best : Option Nat) (c : Char) (text : List Char) :
    r.longestFrom n best (c :: text) =
      (r.deriv c).longestFrom (n + 1) (if r.nullable then some n else best) text := by
  cases r with
  | never => cases text <;> rfl
  | _ => rfl

theorem longestFrom_eq (r : Regex) (n : Nat) (best : Option Nat) (text : List Char) :
    r.longestFrom n best text = ((r.longest text).map (n + ·)).or best := by
  induction text generalizing r n best with
  | nil => cases r <;> simp [longest, longestFrom] <;> split <;> simp
  | cons c text ih =>
    rw [longest, longestFrom_cons, longestFrom_cons, ih, ih _ (0 + 1)]
    cases (r.deriv c).longest text with
    | none => cases r.nullable <;> simp
    | some k => simp [Nat.add_assoc]

theorem longest_nil (r : Regex) : r.longest [] = if r.nullable then some 0 else none := by
  cases r <;> rfl

theorem longest_cons (r : Regex) (c : Char) (text : List Char) :
    r.longest (c :: text) =
      (((r.deriv c).longest text).map (1 + ·)).or (if r.nullable then some 0 else none) := by
  rw [longest, longestFrom_cons, longestFrom_eq]

theorem matches_of_longest {r : Regex} {text : List Char} {n : Nat} (h : r.longest text = some n) :
    n ≤ text.length ∧ Matches r (text.take n) := by
  induction text generalizing r n with
  | nil =>
    rw [longest_nil] at h
    split at h
    · cases h
      exact ⟨Nat.le_refl _, nullable_iff.mp ‹_›⟩
    · contradiction
  | cons c text ih =>
    rw [longest_cons] at h
    cases best : (r.deriv c).longest text with
    | some k =>
      obtain ⟨bound, matched⟩ := ih best
      simp only [best, Option.map_some, Option.some_or, Option.some.injEq] at h
      subst h
      rw [Nat.add_comm, List.take_succ_cons, List.length_cons]
      exact ⟨Nat.succ_le_succ bound, matches_deriv_iff.mp matched⟩
    | none =>
      rw [best] at h
      by_cases empty : r.nullable = true
      · simp only [Option.map_none, Option.none_or, empty, if_true, Option.some.injEq] at h
        subst h
        exact ⟨Nat.zero_le _, nullable_iff.mp empty⟩
      · simp [empty] at h

theorem longest_ge {r : Regex} {text : List Char} {m : Nat} (bound : m ≤ text.length)
    (matched : Matches r (text.take m)) : ∃ n, r.longest text = some n ∧ m ≤ n := by
  induction text generalizing r m with
  | nil =>
    obtain rfl := Nat.le_zero.mp bound
    exact ⟨0, by simp [longest_nil, nullable_iff.mpr matched], Nat.le_refl _⟩
  | cons c text ih =>
    rw [longest_cons]
    cases m with
    | zero =>
      rw [nullable_iff.mpr matched]
      cases (r.deriv c).longest text with
      | none => exact ⟨0, rfl, Nat.le_refl _⟩
      | some k => exact ⟨1 + k, rfl, Nat.zero_le _⟩
    | succ m =>
      rw [List.take_succ_cons] at matched
      obtain ⟨k, best, least⟩ := ih (Nat.le_of_succ_le_succ bound) (matches_deriv_iff.mpr matched)
      exact ⟨1 + k, by simp [best], by omega⟩

theorem exists_longest_append {r : Regex} {t : List Char} (matched : Matches r t)
    (rest : List Char) : ∃ n, r.longest (t ++ rest) = some n ∧ t.length ≤ n :=
  longest_ge (by simp) (by rwa [List.take_left])

theorem longest_eq_some_iff {r : Regex} {text : List Char} {n : Nat} :
    r.longest text = some n ↔ n ≤ text.length ∧ Matches r (text.take n) ∧
      ∀ m, m ≤ text.length → Matches r (text.take m) → m ≤ n := by
  constructor
  · intro h
    obtain ⟨bound, matched⟩ := matches_of_longest h
    refine ⟨bound, matched, fun m bound matched => ?_⟩
    obtain ⟨k, best, least⟩ := longest_ge bound matched
    cases h.symm.trans best
    exact least
  · rintro ⟨bound, matched, most⟩
    obtain ⟨k, best, least⟩ := longest_ge bound matched
    obtain ⟨bound, matched⟩ := matches_of_longest best
    rw [best, Nat.le_antisymm (most k bound matched) least]

theorem longest_eq_none_iff {r : Regex} {text : List Char} :
    r.longest text = none ↔ ∀ m, m ≤ text.length → ¬ Matches r (text.take m) := by
  constructor
  · intro h m bound matched
    obtain ⟨k, best, -⟩ := longest_ge bound matched
    cases h.symm.trans best
  · intro h
    cases best : r.longest text with
    | none => rfl
    | some k =>
      obtain ⟨bound, matched⟩ := matches_of_longest best
      exact absurd matched (h k bound)

theorem longest_of_matches {r : Regex} {text : List Char} (h : Matches r text) :
    r.longest text = some text.length :=
  longest_eq_some_iff.mpr ⟨Nat.le_refl _, by rwa [List.take_length], fun _ bound _ => bound⟩

/-- Whether a match may start with `c`. -/
def begins (c : Char) : Regex → Bool
  | .never => false
  | .empty => false
  | .one allowed => allowed c
  | .seq r s => begins c r || (r.nullable && begins c s)
  | .alt r s => begins c r || begins c s
  | .star r => begins c r

/-- Whether a match may hold `c` somewhere. -/
def holds (c : Char) : Regex → Bool
  | .never => false
  | .empty => false
  | .one allowed => allowed c
  | .seq r s => holds c r || holds c s
  | .alt r s => holds c r || holds c s
  | .star r => holds c r

theorem begins_of_matches {r : Regex} {c : Char} {s : List Char} (h : Matches r (c :: s)) :
    begins c r = true := by
  generalize text : c :: s = cs at h
  induction h generalizing s with
  | empty => contradiction
  | one allowed =>
    cases text
    exact allowed
  | @seq r first r' rest hr hs ihr ihs =>
    rw [begins, Bool.or_eq_true]
    cases first with
    | nil => exact .inr (by simp [nullable_iff.mpr hr, ihs text])
    | cons d first =>
      cases text
      exact .inl (ihr rfl)
  | left _ ih => simp [begins, ih text]
  | right _ ih => simp [begins, ih text]
  | done => contradiction
  | @more r first rest hr hs ihr ihs =>
    cases first with
    | nil => exact ihs text
    | cons d first =>
      cases text
      exact ihr rfl

theorem holds_of_matches {r : Regex} {c : Char} {s : List Char} (h : Matches r s) (member : c ∈ s) :
    holds c r = true := by
  induction h with
  | empty => contradiction
  | one allowed =>
    cases List.mem_singleton.mp member
    exact allowed
  | seq _ _ ihr ihs =>
    rw [holds, Bool.or_eq_true]
    exact (List.mem_append.mp member).imp ihr ihs
  | left _ ih => simp [holds, ih member]
  | right _ ih => simp [holds, ih member]
  | done => contradiction
  | more _ _ ihr ihs => exact (List.mem_append.mp member).elim ihr ihs

/-- No match of `r` goes on past `t` into `rest`. -/
def Ends (r : Regex) (t rest : List Char) : Prop :=
  ∀ m, 0 < m → m ≤ rest.length → ¬ Matches r (t ++ rest.take m)

theorem Ends.nil (r : Regex) (t : List Char) : Ends r t [] := by
  intro m least bound
  exact absurd bound (Nat.not_le.mpr least)

theorem Ends.of_begins {r : Regex} {c : Char} (t rest : List Char) (h : begins c r = false) :
    Ends r (c :: t) rest := by
  intro m _ _ matched
  rw [List.cons_append] at matched
  simp [begins_of_matches matched] at h

theorem Ends.of_holds {r : Regex} {c : Char} (t rest : List Char) (h : holds c r = false) :
    Ends r t (c :: rest) := by
  intro m least _ matched
  obtain ⟨m, rfl⟩ := Nat.exists_eq_succ_of_ne_zero (Nat.ne_of_gt least)
  rw [List.take_succ_cons] at matched
  have found := holds_of_matches (c := c) matched (by simp)
  simp [h] at found

theorem Ends.of_derivAll {r : Regex} {t : List Char} (rest : List Char)
    (h : r.derivAll t = .empty) : Ends r t rest := by
  intro m least bound matched
  rw [← matches_derivAll_iff, h, matches_empty_iff] at matched
  have := congrArg List.length matched
  rw [List.length_take, List.length_nil] at this
  omega

theorem Ends.of_longest {r : Regex} {text : List Char} {n : Nat}
    (h : ∀ m, r.longest text = some m → m ≤ n) : Ends r (text.take n) (text.drop n) := by
  intro m least bound matched
  rw [← List.take_add] at matched
  rw [List.length_drop] at bound
  obtain ⟨k, best, reached⟩ := longest_ge (m := n + m) (by omega) matched
  have := h k best
  omega

theorem ends_iff {r : Regex} {t rest : List Char} :
    Ends r t rest ↔ ∀ s, s <+: t ++ rest → Matches r s → s.length ≤ t.length := by
  constructor
  · intro h s begins matched
    apply Nat.le_of_not_lt
    intro past
    have length := begins.length_le
    rw [List.length_append] at length
    rw [List.prefix_iff_eq_take.mp begins, List.take_append,
      List.take_of_length_le (Nat.le_of_lt past)] at matched
    exact h (s.length - t.length) (by omega) (by omega) matched
  · intro h m least bound matched
    have within := h _ ((List.prefix_append_right_inj t).mpr (List.take_prefix m rest)) matched
    rw [List.length_append, List.length_take_of_le bound] at within
    omega

/-- Where no match goes past `t` at first, a text behind matters only past all that follows. -/
theorem Ends.append {r : Regex} {t rest more : List Char} (h : Ends r t rest)
    (h' : Ends r (t ++ rest) more) : Ends r t (rest ++ more) := by
  rw [ends_iff] at *
  intro s begins matched
  rw [← List.append_assoc] at begins
  have within := h' s begins matched
  exact h s (List.prefix_of_prefix_length_le begins (List.prefix_append _ _) within) matched

theorem longest_append {r : Regex} {t rest : List Char} (h : Ends r t rest) :
    r.longest (t ++ rest) = r.longest t := by
  have inside : ∀ m, m ≤ (t ++ rest).length → Matches r ((t ++ rest).take m) → m ≤ t.length := by
    intro m bound matched
    have within := ends_iff.mp h _ (List.take_prefix m _) matched
    rwa [List.length_take_of_le bound] at within
  cases best : r.longest t with
  | none =>
    rw [longest_eq_none_iff] at best ⊢
    intro m bound matched
    have short := inside m bound matched
    rw [List.take_append_of_le_length short] at matched
    exact best m short matched
  | some n =>
    rw [longest_eq_some_iff] at best ⊢
    obtain ⟨bound, matched, most⟩ := best
    refine ⟨by simp; omega, by rwa [List.take_append_of_le_length bound], ?_⟩
    intro m bound matched
    have short := inside m bound matched
    rw [List.take_append_of_le_length short] at matched
    exact most m short matched

end FormCode.Regex

import FormCode.Proofs.Token.Choice
import FormCode.Token.Lexer

/-! Scanning as a relation between a text, the tokens that are taken from its beginning and what is
left of it. -/
namespace FormCode.Token

open Regex

theorem piece_eq_token_iff {text : List Char} {n : Nat} {t : Token} :
    piece text = .token n t ↔ ∃ rule, longestOf rules text = some (n, rule) ∧
      rule.meaning (text.take n) = some (.token t) ∧
      (t.needsDelimiter = true → isDelimited (text.drop n) = true) := by
  unfold piece
  cases longestOf rules text with
  | none => simp
  | some best =>
    obtain ⟨k, rule⟩ := best
    simp only [Option.some.injEq, Prod.mk.injEq]
    constructor
    · intro h
      cases meant : rule.meaning (text.take k) with
      | none => simp [meant] at h
      | some meaning =>
        cases meaning with
        | blank => simp [meant] at h
        | token other =>
          simp only [meant] at h
          split at h
          · contradiction
          · rename_i free
            cases h
            exact ⟨rule, ⟨rfl, rfl⟩, meant, by simpa using free⟩
    · rintro ⟨_, ⟨rfl, rfl⟩, meant, free⟩
      simp only [meant]
      rw [if_neg (by simpa using free)]

theorem piece_of_chosen {t rest : List Char} {rule : Rule} {token : Token}
    (chosen : longestOf rules (t ++ rest) = some (t.length, rule))
    (meant : rule.meaning t = some (.token token))
    (free : token.needsDelimiter = true → isDelimited rest = true) :
    piece (t ++ rest) = .token t.length token := by
  apply piece_eq_token_iff.mpr
  refine ⟨rule, chosen, ?_, ?_⟩
  · rwa [List.take_left]
  · rwa [List.drop_left]

theorem piece_eq_blank_iff {text : List Char} {n : Nat} :
    piece text = .blank n ↔ ∃ rule, longestOf rules text = some (n, rule) ∧
      rule.meaning (text.take n) = some .blank := by
  unfold piece
  cases longestOf rules text with
  | none => simp
  | some best =>
    obtain ⟨k, rule⟩ := best
    simp only [Option.some.injEq, Prod.mk.injEq]
    constructor
    · intro h
      cases meant : rule.meaning (text.take k) with
      | none => simp [meant] at h
      | some meaning =>
        cases meaning with
        | blank =>
          simp only [meant] at h
          cases h
          exact ⟨rule, ⟨rfl, rfl⟩, meant⟩
        | token other =>
          simp only [meant] at h
          split at h <;> contradiction
    · rintro ⟨_, ⟨rfl, rfl⟩, meant⟩
      simp only [meant]

theorem not_nullable_of_mem {rule : Rule} (member : rule ∈ rules) :
    rule.shape.nullable = false := by
  have all : rules.all (fun rule => !rule.shape.nullable) = true := by decide
  simpa using List.all_eq_true.mp all rule member

theorem longestOf_pos {text : List Char} {n : Nat} {rule : Rule}
    (h : longestOf rules text = some (n, rule)) : 0 < n ∧ n ≤ text.length := by
  obtain ⟨member, chosen⟩ := longestOf_mem h
  obtain ⟨bound, matched⟩ := matches_of_longest chosen
  refine ⟨Nat.pos_of_ne_zero ?_, bound⟩
  rintro rfl
  have nullable := nullable_iff.mpr matched
  simp [not_nullable_of_mem member] at nullable

theorem chosen_of_piece {text : List Char} {n : Nat} {t : Token} (h : piece text = .token n t) :
    ∃ lexeme rule, longestOf rules lexeme = some (lexeme.length, rule) ∧
      rule.meaning lexeme = some (.token t) := by
  obtain ⟨rule, chosen, meant, -⟩ := piece_eq_token_iff.mp h
  have length : (text.take n).length = n := by
    rw [List.length_take, Nat.min_eq_left (longestOf_pos chosen).2]
  exact ⟨text.take n, rule, by rw [length, longestOf_take chosen], meant⟩

inductive Scans : List Char → List Token → List Char → Prop
  | done : Scans text [] text
  | blank (first : piece text = .blank n) (others : Scans (text.drop n) tokens rest) :
      Scans text tokens rest
  | token (first : piece text = .token n t) (others : Scans (text.drop n) tokens rest) :
      Scans text (t :: tokens) rest

theorem Scans.append (h : Scans text tokens middle) (h' : Scans middle others rest) :
    Scans text (tokens ++ others) rest := by
  induction h with
  | done => exact h'
  | blank first _ ih => exact .blank first (ih h')
  | token first _ ih => exact .token first (ih h')

theorem Scans.piece_of_mem (h : Scans text tokens rest) (member : t ∈ tokens) :
    ∃ text n, piece text = .token n t := by
  induction h with
  | done => contradiction
  | blank _ _ ih => exact ih member
  | token first _ ih =>
    rcases List.mem_cons.mp member with rfl | member
    · exact ⟨_, _, first⟩
    · exact ih member

theorem scanFrom_blank {text : List Char} {n : Nat} (h : piece text = .blank n) (place : Location)
    (found : List (Located Token)) :
    scanFrom place found text = scanFrom (place.advance (text.take n)) found (text.drop n) := by
  obtain ⟨rule, chosen, -⟩ := piece_eq_blank_iff.mp h
  obtain ⟨least, bound⟩ := longestOf_pos chosen
  cases text with
  | nil => simp at bound; omega
  | cons c text =>
    obtain ⟨n, rfl⟩ := Nat.exists_eq_succ_of_ne_zero (Nat.ne_of_gt least)
    rw [scanFrom, h]
    rfl

theorem scanFrom_token {text : List Char} {n : Nat} {t : Token} (h : piece text = .token n t)
    (place : Location) (found : List (Located Token)) :
    scanFrom place found text =
      scanFrom (place.advance (text.take n)) (⟨place, t⟩ :: found) (text.drop n) := by
  obtain ⟨rule, chosen, -⟩ := piece_eq_token_iff.mp h
  obtain ⟨least, bound⟩ := longestOf_pos chosen
  cases text with
  | nil => simp at bound; omega
  | cons c text =>
    obtain ⟨n, rfl⟩ := Nat.exists_eq_succ_of_ne_zero (Nat.ne_of_gt least)
    rw [scanFrom, h]
    rfl

theorem scanFrom_of_scans (h : Scans text tokens rest) (place : Location)
    (found : List (Located Token)) :
    ∃ (after : Location) (located : List (Located Token)), located.map Located.item = tokens ∧
      scanFrom place found text = scanFrom after (located.reverse ++ found) rest := by
  induction h generalizing place found with
  | done => exact ⟨place, [], rfl, rfl⟩
  | blank first _ ih =>
    rw [scanFrom_blank first]
    exact ih _ _
  | @token text n t tokens rest first _ ih =>
    rw [scanFrom_token first]
    obtain ⟨after, located, items, same⟩ := ih (place.advance (text.take n)) (⟨place, t⟩ :: found)
    exact ⟨after, ⟨place, t⟩ :: located, by simp [items], by simp [same]⟩

theorem scans_of_scanFrom {place : Location} {found located : List (Located Token)}
    {text : List Char} (h : scanFrom place found text = .ok located) :
    ∃ more, located = found.reverse ++ more ∧ Scans text (more.map Located.item) [] := by
  induction place, found, text using scanFrom.induct with
  | case1 place found =>
    rw [scanFrom] at h
    cases h
    exact ⟨[], by simp, .done⟩
  | case2 place found c text fault wrong =>
    rw [scanFrom, wrong] at h
    contradiction
  | case3 place found c text n first ih =>
    rw [scanFrom_blank first] at h
    obtain ⟨least, -⟩ := longestOf_pos (piece_eq_blank_iff.mp first).choose_spec.1
    obtain ⟨n, rfl⟩ := Nat.exists_eq_succ_of_ne_zero (Nat.ne_of_gt least)
    obtain ⟨more, rfl, scans⟩ := ih h
    exact ⟨more, rfl, .blank first scans⟩
  | case4 place found c text n t first ih =>
    rw [scanFrom_token first] at h
    obtain ⟨least, -⟩ := longestOf_pos (piece_eq_token_iff.mp first).choose_spec.1
    obtain ⟨n, rfl⟩ := Nat.exists_eq_succ_of_ne_zero (Nat.ne_of_gt least)
    obtain ⟨more, rfl, scans⟩ := ih h
    exact ⟨⟨place, t⟩ :: more, by simp, .token first scans⟩

/-- Scanning succeeds exactly on texts from which tokens can be taken up to their end. -/
theorem scan_ok_iff {text : List Char} {tokens : List Token} :
    (∃ located, scan text = .ok located ∧ located.map Located.item = tokens) ↔
      Scans text tokens [] := by
  constructor
  · rintro ⟨located, h, rfl⟩
    obtain ⟨more, rfl, scans⟩ := scans_of_scanFrom h
    exact scans
  · intro h
    obtain ⟨after, located, items, same⟩ := scanFrom_of_scans h .first []
    refine ⟨located, ?_, items⟩
    rw [scan, same, scanFrom]
    simp

end FormCode.Token

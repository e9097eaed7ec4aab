import FormCode.Proofs.Reader.Closure
import FormCode.Proofs.Reader.Derivation
import FormCode.Proofs.Value.Distinct

/-! The reader takes nothing but forms of the grammar, and takes them whole. What the open frames
still ask for is said of the tokens to come; every token that is taken serves it. -/
namespace FormCode.Reader

mutual

/-- Forms repeat no key, because the grammar does not let them. -/
theorem Derives.distinct {level : Nat} {tokens : List (Located Token)} {v : Value}
    (h : Derives level tokens v) : v.Distinct := by
  match h with
  | .atom _ => exact .atom
  | .quote _ inside =>
    refine .list (List.forall_mem_cons.mpr ⟨.atom, List.forall_mem_singleton.mpr ?_⟩)
    exact inside.distinct
  | .list _ inside => exact .list inside.distinct
  | .vector _ inside => exact .vector inside.distinct
  | .map _ inside apart =>
    have parts := inside.distinct
    simp only [List.mem_flatMap, forall_exists_index, and_imp] at parts
    exact .map (fun e member => parts e.1 e member (by simp))
      (fun e member => parts e.2 e member (by simp)) apart

theorem DerivesAll.distinct {level : Nat} {tokens : List (Located Token)} {items : List Value}
    (h : DerivesAll level tokens items) : ∀ x ∈ items, x.Distinct := by
  match h with
  | .nil => exact fun _ member => absurd member (List.not_mem_nil)
  | .cons first others => exact List.forall_mem_cons.mpr ⟨first.distinct, others.distinct⟩

end

theorem flatMap_of_pairs? {items : List Value} {entries : List (Value × Value)}
    (h : pairs? items = some entries) : items = entries.flatMap fun e => [e.1, e.2] := by
  fun_induction pairs? items generalizing entries with
  | case1 => cases h; rfl
  | case2 => contradiction
  | case3 k v items ih =>
    obtain ⟨others, paired, rfl⟩ := Option.map_eq_some_iff.mp h
    simp [← ih paired]

theorem derives_of_collect {level : Nat} {bracket : Bracket} {written : List (Located Token)}
    {items : List Value} {form : Value} (room : level ≤ maxDepth) (place there : Location)
    (inside : DerivesAll (level + 1) written items) (made : collect bracket items = .ok form) :
    Derives level (⟨place, .opening bracket⟩ :: (written ++ [⟨there, .closing bracket⟩])) form := by
  unfold collect at made
  split at made
  · cases made
    exact .list room inside
  · cases made
    exact .vector room inside
  · split at made
    case h_1 => contradiction
    case h_2 entries paired =>
      split at made
      case h_1 => contradiction
      case h_2 fresh =>
        cases made
        have keys : ∀ k ∈ entries.map Prod.fst, k.Distinct := by
          intro k member
          obtain ⟨e, entry, rfl⟩ := List.mem_map.mp member
          exact inside.distinct e.1 (pairs?_mem paired e entry).1
        rw [flatMap_of_pairs? paired] at inside
        exact .map room inside (Value.pairwise_of_firstRepeat? keys fresh)

/-- The tokens that `frames` still ask for once a form has been handed to them, and the form that
they then make. -/
inductive Closes : List Frame → Value → List (Located Token) → Value → Prop
  | done : Closes [] form [] form
  | quote (outer : Closes frames (.list [.symbol "quote", form]) rest v) :
      Closes (.quote :: frames) form rest v
  | collection (inside : DerivesAll (frames.length + 2) written others)
      (made : collect bracket (items.reverse ++ form :: others) = .ok whole)
      (outer : Closes frames whole rest v) :
      Closes (.collection bracket place items :: frames) form
        (written ++ ⟨there, .closing bracket⟩ :: rest) v

/-- The tokens that `frames` ask for: a form of their level, or the closing bracket of the innermost
collection, and what comes after it. -/
inductive Fills : List Frame → List (Located Token) → Value → Prop
  | form (first : Derives (frames.length + 1) written x) (outer : Closes frames x rest v) :
      Fills frames (written ++ rest) v
  | close (made : collect bracket items.reverse = .ok whole) (outer : Closes frames whole rest v) :
      Fills (.collection bracket place items :: frames) (⟨there, .closing bracket⟩ :: rest) v

/-- The tokens that are to come after a step, and the form that they complete. -/
def Step.Serves (written : List (Located Token)) (v : Value) : Step → Prop
  | .more frames => Fills frames written v
  | .form read => written = [] ∧ v = read
  | .fault _ => False
  | .tooDeep => False

theorem closes_of_fills {frames : List Frame} {bracket : Bracket} {place : Location}
    {items : List Value} {form v : Value} {written : List (Located Token)}
    (h : Fills (.collection bracket place (form :: items) :: frames) written v) :
    Closes (.collection bracket place items :: frames) form written v := by
  cases h with
  | form first outer =>
    cases outer with
    | collection inside made outer =>
      rw [← List.append_assoc]
      refine .collection (.cons first inside) ?_ outer
      rwa [List.reverse_cons, List.append_assoc] at made
  | close made outer =>
    rw [List.reverse_cons] at made
    exact .collection .nil made outer

theorem deliver_serves {form v : Value} {frames : List Frame} {written : List (Located Token)}
    (h : (deliver form frames).Serves written v) : Closes frames form written v := by
  fun_induction deliver form frames with
  | case1 form =>
    obtain ⟨rfl, rfl⟩ := h
    exact .done
  | case2 form frames ih => exact .quote (ih h)
  | case3 => exact closes_of_fills h

theorem fills_of_opening {frames : List Frame} {bracket : Bracket} {place : Location} {v : Value}
    {written : List (Located Token)} (room : frames.length + 1 ≤ maxDepth)
    (h : Fills (.collection bracket place [] :: frames) written v) :
    Fills frames (⟨place, .opening bracket⟩ :: written) v := by
  cases h with
  | form first outer =>
    cases outer with
    | @collection _ _ _ _ _ _ _ _ _ _ there inside made outer =>
      have whole := derives_of_collect room place there (.cons first inside) made
      simpa using Fills.form whole outer
  | @close _ _ _ _ _ _ _ there made outer =>
    exact .form (derives_of_collect room place there .nil made) outer

theorem step_serves {frames : List Frame} {token : Located Token} {written : List (Located Token)}
    {v : Value} (h : (step frames token).Serves written v) : Fills frames (token :: written) v := by
  obtain ⟨place, token⟩ := token
  unfold step at h
  split at h
  case h_1 bracket start items outer isClosed =>
    obtain ⟨found, rfl, rfl, rfl⟩ := closed?_eq_some isClosed
    split at h
    case h_1 form made => exact .close made (deliver_serves h)
    case h_2 => exact h.elim
  case h_2 =>
    split at h
    case isTrue => exact h.elim
    case isFalse full =>
      have room : frames.length + 1 ≤ maxDepth := Nat.lt_of_not_le full
      cases token with
      | atom a => exact .form (.atom room) (deliver_serves h)
      | quote =>
        cases h with
        | form first outer =>
          cases outer with
          | quote outer => exact .form (.quote room first) outer
      | opening bracket => exact fills_of_opening room h
      | closing bracket => exact h.elim

/-- What reading takes before it succeeds is what the open frames asked for. -/
theorem fills_of_readFrom {finish : Location} {frames : List Frame}
    {tokens rest : List (Located Token)} {v : Value}
    (h : readFrom finish frames tokens = (.ok v, rest)) :
    ∃ written, tokens = written ++ rest ∧ Fills frames written v := by
  induction tokens generalizing frames with
  | nil => cases h
  | cons token tokens ih =>
    have serves : ∀ written, (step frames token).Serves written v →
        Fills frames (token :: written) v := fun _ => step_serves
    rw [readFrom] at h
    split at h
    case h_1 inner stepped =>
      obtain ⟨written, rfl, fills⟩ := ih h
      exact ⟨token :: written, rfl, serves written (by rwa [stepped])⟩
    case h_2 form stepped =>
      cases h
      exact ⟨[token], rfl, serves [] (by rw [stepped]; exact ⟨rfl, rfl⟩)⟩
    case h_3 => cases h
    case h_4 => cases h

theorem derives_of_fills {written : List (Located Token)} {v : Value} (h : Fills [] written v) :
    Derives 1 written v := by
  cases h with
  | form first outer =>
    cases outer
    rwa [List.append_nil]

/-- With nothing open, reading succeeds exactly on the tokens of a form, and takes these. -/
theorem readFrom_nil_iff {finish : Location} {tokens rest : List (Located Token)} {v : Value} :
    readFrom finish [] tokens = (.ok v, rest) ↔
      ∃ written, tokens = written ++ rest ∧ Derives 1 written v := by
  constructor
  · intro h
    obtain ⟨written, split, fills⟩ := fills_of_readFrom h
    exact ⟨written, split, derives_of_fills fills⟩
  · rintro ⟨written, rfl, derives⟩
    exact readFrom_of_derives derives rfl finish rest

theorem next_ok_iff {r : Reader} {v : Value} {rest : List (Located Token)} :
    r.next = (.ok v, { r with tokens := rest }) ↔
      ∃ written, r.tokens = written ++ rest ∧ Derives 1 written v := by
  have read : readFrom r.finish [] r.tokens = (.ok v, rest) ↔ _ := readFrom_nil_iff
  rw [← read, next]
  simp [Prod.ext_iff]

theorem Derives.ne_nil {level : Nat} {tokens : List (Located Token)} {v : Value}
    (h : Derives level tokens v) : tokens ≠ [] := by
  cases h <;> simp

theorem derivesAll_iff_next {r : Reader} (more : ¬ r.atEnd = true) {forms : List Value} :
    DerivesAll 1 r.tokens forms ↔ ∃ form others, forms = form :: others ∧ r.next.1 = .ok form ∧
      DerivesAll 1 r.next.2.tokens others := by
  rw [atEnd_iff] at more
  constructor
  · intro h
    generalize same : r.tokens = tokens at h more
    cases h with
    | nil => contradiction
    | cons first others =>
      have read := next_ok_iff.mpr ⟨_, same, first⟩
      exact ⟨_, _, rfl, by rw [read], by rwa [read]⟩
  · rintro ⟨form, others, rfl, read, rest⟩
    have next : r.next = (.ok form, r.next.2) := Prod.ext read rfl
    obtain ⟨written, split, first⟩ := next_ok_iff.mp next
    rw [split]
    exact .cons first rest

theorem allFrom_ok_iff {r : Reader} {found forms : List Value} :
    r.allFrom found = .ok forms ↔
      ∃ more, forms = found.reverse ++ more ∧ DerivesAll 1 r.tokens more := by
  fun_induction allFrom r found with
  | case1 r found atEnd =>
    rw [atEnd_iff.mp atEnd]
    constructor
    · intro h
      cases h
      exact ⟨[], by simp, .nil⟩
    · rintro ⟨more, rfl, h⟩
      generalize same : [] = tokens at h
      cases h with
      | nil => simp
      | cons first others => exact absurd (List.append_eq_nil_iff.mp same.symm).1 first.ne_nil
  | case2 r found notEnd _ next form read ih =>
    rw [ih]
    constructor
    · rintro ⟨more, rfl, h⟩
      exact ⟨form :: more, by simp, (derivesAll_iff_next notEnd).mpr ⟨form, more, rfl, read, h⟩⟩
    · rintro ⟨more, rfl, h⟩
      obtain ⟨first, others, rfl, taken, rest⟩ := (derivesAll_iff_next notEnd).mp h
      cases read.symm.trans taken
      exact ⟨others, by simp, rest⟩
  | case3 r found notEnd _ next fault failed =>
    constructor
    · intro h
      cases h
    · rintro ⟨more, rfl, h⟩
      obtain ⟨first, others, rfl, taken, rest⟩ := (derivesAll_iff_next notEnd).mp h
      cases failed.symm.trans taken

theorem all_ok_iff {r : Reader} {forms : List Value} :
    r.all = .ok forms ↔ DerivesAll 1 r.tokens forms := by
  simp [all, allFrom_ok_iff]

/-- No two beginnings of a token list are forms. -/
theorem derives_unique {rest rest' written written' : List (Located Token)} {v v' : Value}
    (h : Derives 1 written v) (h' : Derives 1 written' v')
    (same : written ++ rest = written' ++ rest') : written = written' ∧ v = v' := by
  have read : readFrom .first [] (written ++ rest) = (.ok v, rest) :=
    readFrom_nil_iff.mpr ⟨written, rfl, h⟩
  have read' : readFrom .first [] (written ++ rest) = (.ok v', rest') :=
    readFrom_nil_iff.mpr ⟨written', same, h'⟩
  cases read.symm.trans read'
  exact ⟨List.append_cancel_right same, rfl⟩

theorem next_drop_iff {tokens : List (Located Token)} {finish : Location} {q : Nat} {v : Value} :
    (Reader.mk tokens finish).next = (.ok v, ⟨tokens.drop q, finish⟩) ↔
      Derives 1 (tokens.take q) v := by
  refine next_ok_iff.trans ⟨?_, fun h => ⟨_, (List.take_append_drop q tokens).symm, h⟩⟩
  rintro ⟨written, split, h⟩
  rwa [List.append_cancel_right ((List.take_append_drop q tokens).trans split)]

/-- A form is read, with the tokens that it takes, exactly where the grammar derives it from these
tokens; no other beginning of the tokens is a form. All forms are read exactly where the tokens
derive them one after the other. -/
theorem reads_grammar (tokens : List (Located Token)) (finish : Location) :
    (∀ q v, q ≤ tokens.length ∧ (Reader.mk tokens finish).next = (.ok v, ⟨tokens.drop q, finish⟩) ↔
      q ≤ tokens.length ∧ Derives 1 (tokens.take q) v) ∧
    (∀ q q' v v', q ≤ tokens.length ∧ Derives 1 (tokens.take q) v →
      q' ≤ tokens.length ∧ Derives 1 (tokens.take q') v' → q = q' ∧ v = v') ∧
    (∀ vs, (Reader.mk tokens finish).all = .ok vs ↔ DerivesAll 1 tokens vs) := by
  refine ⟨fun q v => and_congr_right fun _ => next_drop_iff, ?_, fun vs => all_ok_iff⟩
  rintro q q' v v' ⟨bound, h⟩ ⟨bound', h'⟩
  have whole : tokens.take q ++ tokens.drop q = tokens.take q' ++ tokens.drop q' := by simp
  obtain ⟨taken, rfl⟩ := derives_unique h h' whole
  have length := congrArg List.length taken
  rw [List.length_take_of_le bound, List.length_take_of_le bound'] at length
  exact ⟨length, rfl⟩

/-- A quoted vector of a map; the bracket behind it is left. -/
theorem reads_grammar_quoted :
    let tokens : List (Located Token) :=
      [.quote, .opening .square, .opening .curly, .atom (.int 1), .atom (.bool true),
        .closing .curly, .closing .square, .closing .round].map (Located.mk .first)
    let v : Value := .list [.symbol "quote",
      .vector [.map [(.atom (.int 1), .atom (.bool true))]]]
    7 ≤ tokens.length ∧ Derives 1 (tokens.take 7) v ∧
      ∀ q v', q ≤ tokens.length ∧ Derives 1 (tokens.take q) v' → 7 = q ∧ v = v' := by
  intro tokens v
  have read : (Reader.mk tokens .first).next = (.ok v, ⟨tokens.drop 7, .first⟩) := rfl
  obtain ⟨accepted, unique, -⟩ := reads_grammar tokens .first
  have derived := (accepted 7 v).mp ⟨by decide, read⟩
  exact ⟨derived.1, derived.2, fun q v' other => unique 7 q v v' derived other⟩

end FormCode.Reader

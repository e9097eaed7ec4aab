import FormCode.Proofs.Reader.Derivation
import FormCode.Proofs.Source.Keys

/-! Analysis takes quotes off. What is left of a form is described apart from the two functions that
compute it, one for forms at top level and one for elements of collections; both come to it. -/
namespace FormCode.Expr

/-- What is left of a form without its quotes. Nothing is left of a symbol, of a list that is
neither empty nor a quotation, and of a map whose keys become equal. -/
inductive Strips : Value → Value → Prop
  | atom (plain : ∀ name, a ≠ .symbol name) : Strips (.atom a) (.atom a)
  | object : Strips (.object handle) (.object handle)
  | empty : Strips (.list []) (.list [])
  /-- What is quoted keeps the quotes that it has itself. -/
  | quotation : Strips (.list [.symbol "quote", x]) x
  | vector (each : List.Forall₂ Strips xs ys) : Strips (.vector xs) (.vector ys)
  | map (keys : List.Forall₂ Strips (es.map Prod.fst) (fs.map Prod.fst))
      (values : List.Forall₂ Strips (es.map Prod.snd) (fs.map Prod.snd))
      (apart : (fs.map Prod.fst).Pairwise fun k l => (k == l) = false) :
      Strips (.map es) (.map fs)

theorem strips_atom_iff {a : Atom} {value : Value} :
    Strips (.atom a) value ↔ (∀ name, a ≠ .symbol name) ∧ value = .atom a := by
  constructor
  · intro h
    cases h with
    | atom plain => exact ⟨plain, rfl⟩
  · rintro ⟨plain, rfl⟩
    exact .atom plain

theorem strips_object_iff {handle : HostObject} {value : Value} :
    Strips (.object handle) value ↔ value = .object handle := by
  constructor
  · intro h
    cases h
    rfl
  · rintro rfl
    exact .object

theorem strips_list_iff {items : List Value} {value : Value} :
    Strips (.list items) value ↔
      items = [] ∧ value = .list [] ∨ items = [.symbol "quote", value] := by
  constructor
  · intro h
    cases h with
    | empty => exact .inl ⟨rfl, rfl⟩
    | quotation => exact .inr rfl
  · rintro (⟨rfl, rfl⟩ | rfl)
    · exact .empty
    · exact .quotation

theorem strips_vector_iff {xs : List Value} {value : Value} :
    Strips (.vector xs) value ↔ ∃ ys, value = .vector ys ∧ List.Forall₂ Strips xs ys := by
  constructor
  · intro h
    cases h with
    | vector each => exact ⟨_, rfl, each⟩
  · rintro ⟨ys, rfl, each⟩
    exact .vector each

theorem forall₂_parts_iff {r : Value → Value → Prop} {es fs : List (Value × Value)} :
    List.Forall₂ r (es.map Prod.fst) (fs.map Prod.fst) ∧
        List.Forall₂ r (es.map Prod.snd) (fs.map Prod.snd) ↔
      List.Forall₂ (fun e f => r e.1 f.1 ∧ r e.2 f.2) es fs := by
  induction es generalizing fs with
  | nil => cases fs <;> simp
  | cons e es ih =>
    cases fs with
    | nil => simp
    | cons f fs =>
      simp only [List.map_cons, List.forall₂_cons, ← ih]
      exact and_and_and_comm

theorem strips_map_iff {es : List (Value × Value)} {value : Value} :
    Strips (.map es) value ↔ ∃ fs, value = .map fs ∧
      List.Forall₂ (fun e f => Strips e.1 f.1 ∧ Strips e.2 f.2) es fs ∧
      (fs.map Prod.fst).Pairwise fun k l => (k == l) = false := by
  constructor
  · intro h
    cases h with
    | map keys values apart => exact ⟨_, rfl, forall₂_parts_iff.mp ⟨keys, values⟩, apart⟩
  · rintro ⟨fs, rfl, each, apart⟩
    obtain ⟨keys, values⟩ := forall₂_parts_iff.mpr each
    exact .map keys values apart

theorem constants_ok_iff {xs ys : List Value} :
    constants xs = .ok ys ↔ List.Forall₂ (fun x y => constant x = .ok y) xs ys := by
  induction xs generalizing ys with
  | nil => cases ys <;> simp [constants]
  | cons x xs ih =>
    simp only [constants, bind_eq_ok, ih, List.forall₂_cons_left_iff]
    constructor
    · rintro ⟨y, first, others, rest, equal⟩
      cases equal
      exact ⟨y, others, first, rest, rfl⟩
    · rintro ⟨y, others, first, rest, rfl⟩
      exact ⟨y, first, others, rest, rfl⟩

theorem constantEntries_ok_iff {es fs : List (Value × Value)} :
    constantEntries es = .ok fs ↔
      List.Forall₂ (fun e f => constant e.1 = .ok f.1 ∧ constant e.2 = .ok f.2) es fs := by
  induction es generalizing fs with
  | nil => cases fs <;> simp [constantEntries]
  | cons e es ih =>
    obtain ⟨key, value⟩ := e
    simp only [constantEntries, bind_eq_ok, ih, List.forall₂_cons_left_iff]
    constructor
    · rintro ⟨k, first, v, second, others, rest, equal⟩
      cases equal
      exact ⟨(k, v), others, ⟨first, second⟩, rest, rfl⟩
    · rintro ⟨⟨k, v⟩, others, ⟨first, second⟩, rest, rfl⟩
      exact ⟨k, first, v, second, others, rest, rfl⟩

theorem forall₂_iff_of_mem {α β : Type} {r s : α → β → Prop} {xs : List α} {ys : List β}
    (each : ∀ x ∈ xs, ∀ y, r x y ↔ s x y) : List.Forall₂ r xs ys ↔ List.Forall₂ s xs ys := by
  constructor
  · intro h
    exact Value.forall₂_of_mem h fun x member y => (each x member y).mp
  · intro h
    exact Value.forall₂_of_mem h fun x member y => (each x member y).mpr

theorem quoted?_eq_some_iff {items : List Value} {value : Value} :
    quoted? items = some value ↔ items = [.symbol "quote", value] := by
  unfold quoted?
  split
  case h_1 name x => simp [Value.symbol]
  case h_2 other =>
    constructor
    · intro h
      contradiction
    · intro h
      exact absurd h (other "quote" value)

theorem constant_list_ok_iff {items : List Value} {value : Value} :
    constant (.list items) = .ok value ↔ Strips (.list items) value := by
  rw [strips_list_iff, ← quoted?_eq_some_iff]
  cases items with
  | nil => simp [constant, quoted?, eq_comm]
  | cons x items =>
    rw [constant.eq_def]
    cases quoted : quoted? (x :: items) <;> simp [quoted]

theorem constant_vector_ok_iff {items : List Value} {value : Value} :
    constant (.vector items) = .ok value ↔ ∃ ys, value = .vector ys ∧ constants items = .ok ys := by
  rw [constant, map_eq_ok]
  apply exists_congr
  intro ys
  rw [and_comm, eq_comm]

theorem constant_map_ok_iff {entries : List (Value × Value)} {value : Value} :
    constant (.map entries) = .ok value ↔ ∃ fs, value = .map fs ∧
      constantEntries entries = .ok fs ∧ Value.firstRepeat? (fs.map Prod.fst) = none := by
  rw [constant, bind_eq_ok]
  apply exists_congr
  intro fs
  constructor
  · rintro ⟨folded, rest⟩
    split at rest
    case h_1 => contradiction
    case h_2 none =>
      cases rest
      exact ⟨rfl, folded, none⟩
  · rintro ⟨rfl, folded, none⟩
    refine ⟨folded, ?_⟩
    rw [none]

/-- The keys that the analysis finds no repetition among are unequal, for they are parts of the form
or of what is quoted in it. -/
theorem constantEntries_apart {es fs : List (Value × Value)} (distinct : (Value.map es).Distinct)
    (h : constantEntries es = .ok fs) :
    Value.firstRepeat? (fs.map Prod.fst) = none ↔
      (fs.map Prod.fst).Pairwise fun k l => (k == l) = false := by
  constructor
  · apply Value.pairwise_of_firstRepeat?
    intro k member
    obtain ⟨f, inside, rfl⟩ := List.mem_map.mp member
    obtain ⟨e, origin, folded, -⟩ := constantEntries_mem h f inside
    have parts := Source.hereditary_distinct.map es distinct e origin
    exact constant_holds Source.closed_distinct Source.hereditary_distinct parts.1 folded
  · exact Reader.firstRepeat?_eq_none

theorem constant_ok_iff {form value : Value} (distinct : form.Distinct) :
    constant form = .ok value ↔ Strips form value := by
  induction form generalizing value with
  | atom a =>
    rw [strips_atom_iff]
    cases a <;> simp [constant, eq_comm]
  | object handle => simp [constant, strips_object_iff, eq_comm]
  | list items => exact constant_list_ok_iff
  | vector items ih =>
    have parts := Source.hereditary_distinct.vector items distinct
    have each (ys : List Value) : constants items = .ok ys ↔ List.Forall₂ Strips items ys :=
      constants_ok_iff.trans (forall₂_iff_of_mem fun x inside _ => ih x inside (parts x inside))
    simp only [constant_vector_ok_iff, strips_vector_iff, each]
  | map entries ih =>
    have parts := Source.hereditary_distinct.map entries distinct
    have each (fs : List (Value × Value)) : constantEntries entries = .ok fs ↔
        List.Forall₂ (fun e f => Strips e.1 f.1 ∧ Strips e.2 f.2) entries fs := by
      rw [constantEntries_ok_iff]
      apply forall₂_iff_of_mem
      intro e inside f
      exact and_congr ((ih e inside).1 (parts e inside).1) ((ih e inside).2 (parts e inside).2)
    rw [constant_map_ok_iff, strips_map_iff]
    apply exists_congr
    intro fs
    rw [← each fs]
    exact and_congr_right fun _ => and_congr_right (constantEntries_apart distinct)

theorem ofItems_ok_iff {items : List Value} {value : Value} :
    ofItems items = .ok (.literal value) ↔ Strips (.list items) value := by
  rw [strips_list_iff]
  unfold ofItems
  split
  case h_1 =>
    constructor
    · intro h
      cases h
      exact .inl ⟨rfl, rfl⟩
    · rintro (⟨-, rfl⟩ | two)
      · rfl
      · contradiction
  case h_2 operator args =>
    by_cases quote : operator = "quote"
    · subst quote
      rw [if_pos rfl]
      split
      case h_1 x => simp [Value.symbol]
      case h_2 other =>
        constructor
        · intro h
          contradiction
        · rintro (⟨none, -⟩ | two)
          · contradiction
          · exact absurd (List.cons.inj two).2 (other value)
    · simp [quote, Value.symbol]
  case h_3 head args other =>
    constructor
    · intro h
      contradiction
    · rintro (⟨none, -⟩ | two)
      · contradiction
      · exact absurd (List.cons.inj two).1 (other "quote")

/-- At top level and as an element of a collection a form comes to the same. -/
theorem ofForm_ok_iff_constant {form value : Value} :
    ofForm form = .ok (.literal value) ↔ constant form = .ok value := by
  unfold ofForm
  split
  case h_1 name => simp [constant]
  case h_2 items => rw [ofItems_ok_iff, constant_list_ok_iff]
  case h_3 => simp [map_eq_ok]

theorem ofForm_vector_ok_iff {items values : List Value} :
    ofForm (.vector items) = .ok (.literal (.vector values)) ↔
      List.Forall₂ (fun x y => ofForm x = .ok (.literal y)) items values := by
  simp only [ofForm_ok_iff_constant, ← constants_ok_iff, constant_vector_ok_iff, Value.vector.injEq]
  exact exists_eq_left'

theorem ofForm_map_ok_iff {entries others : List (Value × Value)}
    (apart : (others.map Prod.fst).Pairwise fun k l => (k == l) = false) :
    ofForm (.map entries) = .ok (.literal (.map others)) ↔ List.Forall₂
      (fun e f => ofForm e.1 = .ok (.literal f.1) ∧ ofForm e.2 = .ok (.literal f.2))
      entries others := by
  simp only [ofForm_ok_iff_constant, ← constantEntries_ok_iff, constant_map_ok_iff, Value.map.injEq,
    exists_eq_left']
  exact and_iff_left (Reader.firstRepeat?_eq_none apart)

/-- Analysis takes quotes off. A form without repeated keys stands for what is left of it, and where
nothing is left it is an error. It makes no difference whether a form stands at top level or inside
a collection, so a collection stands for the collection of what its elements stand for, as long as
its keys stay apart. -/
theorem ofForm_strips :
    (∀ form : Value, form.Distinct →
      (∀ value, ofForm form = .ok (.literal value) ↔ Strips form value) ∧
      ((∀ value, ¬ Strips form value) →
        ∃ message, (ofForm form).mapError report = .error (.analysis message))) ∧
    (∀ items values, ofForm (.vector items) = .ok (.literal (.vector values)) ↔
      List.Forall₂ (fun x y => ofForm x = .ok (.literal y)) items values) ∧
    (∀ entries others, ((others.map Prod.fst).Pairwise fun k l => (k == l) = false) →
      (ofForm (.map entries) = .ok (.literal (.map others)) ↔ List.Forall₂
        (fun e f => ofForm e.1 = .ok (.literal f.1) ∧ ofForm e.2 = .ok (.literal f.2))
        entries others)) := by
  have strips {form value : Value} (distinct : form.Distinct) :
      ofForm form = .ok (.literal value) ↔ Strips form value :=
    ofForm_ok_iff_constant.trans (constant_ok_iff distinct)
  refine ⟨fun form distinct => ⟨fun value => strips distinct, fun none => ?_⟩,
    fun items values => ofForm_vector_ok_iff, fun entries others => ofForm_map_ok_iff⟩
  cases analyzed : ofForm form with
  | ok expr =>
    obtain ⟨value⟩ := expr
    exact absurd ((strips distinct).mp analyzed) (none value)
  | error fault => exact ⟨fault.message, rfl⟩

/-- A quoted key, a quotation inside a quotation, and an empty list. A key that only the quote keeps
apart from another is an error. -/
theorem ofForm_strips_nested :
    let quoted (x : Value) : Value := .list [.symbol "quote", x]
    let k : Value := .atom (.keyword "k")
    let inner : Value := .vector [.atom (.int 1), quoted (quoted (.symbol "b"))]
    let form : Value := .map [(quoted (.symbol "a"), inner), (k, .list [])]
    let entries : List (Value × Value) :=
      [(.symbol "a", .vector [.atom (.int 1), quoted (.symbol "b")]), (k, .list [])]
    let clash : Value := .map [(k, .nil), (quoted k, .nil)]
    (form.Distinct ∧ clash.Distinct) ∧ Strips form (.map entries) ∧
      ofForm (quoted (.symbol "a")) = .ok (.literal (.symbol "a")) ∧
      ofForm inner = .ok (.literal (.vector [.atom (.int 1), quoted (.symbol "b")])) ∧
      ∃ message, (ofForm clash).mapError report = .error (.analysis message) := by
  intro quoted k inner form entries clash
  have distinct : form.Distinct :=
    @Source.readFirst_distinct "{(quote a) [1 (quote (quote b))] :k ()}" form (by cbv)
  have clashes : clash.Distinct :=
    @Source.readFirst_distinct "{:k nil (quote :k) nil}" clash (by cbv)
  have analyzed : ofForm form = .ok (.literal (.map entries)) := by cbv
  have failed : ofForm clash = .error (.repeatedKey k) := by cbv
  have apart : (entries.map Prod.fst).Pairwise fun k l => (k == l) = false :=
    List.pairwise_pair.mpr (by cbv)
  obtain ⟨forms, -, maps⟩ := ofForm_strips
  have strips := ((forms form distinct).1 _).mp analyzed
  obtain ⟨⟨key, value⟩, -⟩ := List.forall₂_cons.mp ((maps _ entries apart).mp analyzed)
  refine ⟨⟨distinct, clashes⟩, strips, key, value, (forms clash clashes).2 fun value left => ?_⟩
  rw [← (forms clash clashes).1, failed] at left
  contradiction

end FormCode.Expr

import FormCode.Proofs.Reader.Acceptance

/-! How deep forms may nest. A form that is written out is a tree of its tokens. A collection or a
quote is one level around what stands inside it, be it a collection, a quote or an atom, and the
limit holds for all three. -/
namespace FormCode.Reader

/-- A form as it is written, with the places of its tokens. -/
inductive Form where
  | atom (place : Location) (a : Atom)
  | quote (place : Location) (inner : Form)
  | collection (bracket : Bracket) (place there : Location) (items : List Form)

namespace Form

def isAtom : Form → Bool
  | .atom _ _ => true
  | _ => false

mutual

def tokens : Form → List (Located Token)
  | .atom place a => [⟨place, .atom a⟩]
  | .quote place inner => ⟨place, .quote⟩ :: tokens inner
  | .collection bracket place there items =>
    ⟨place, .opening bracket⟩ :: (tokensOfAll items ++ [⟨there, .closing bracket⟩])

def tokensOfAll : List Form → List (Located Token)
  | [] => []
  | f :: forms => tokens f ++ tokensOfAll forms

end

mutual

/-- The form writes the value, at whatever depth. A map has a value for each key, and its keys are
unequal. -/
inductive Writes : Form → Value → Prop
  | atom : Writes (.atom place a) (.atom a)
  | quote (inner : Writes f x) : Writes (.quote place f) (.list [.symbol "quote", x])
  | list (each : WritesAll forms items) :
      Writes (.collection .round place there forms) (.list items)
  | vector (each : WritesAll forms items) :
      Writes (.collection .square place there forms) (.vector items)
  | map (each : WritesAll forms (entries.flatMap fun e => [e.1, e.2]))
      (distinct : (entries.map Prod.fst).Pairwise fun k l => (k == l) = false) :
      Writes (.collection .curly place there forms) (.map entries)

inductive WritesAll : List Form → List Value → Prop
  | nil : WritesAll [] []
  | cons (first : Writes f x) (others : WritesAll forms items) :
      WritesAll (f :: forms) (x :: items)

end

/-- The form `x` lies inside that many collections and quotes of another form. -/
inductive Inside (x : Form) : Nat → Form → Prop
  | here : Inside x 0 x
  | quote (inner : Inside x n f) : Inside x (n + 1) (.quote place f)
  | item (member : f ∈ items) (inner : Inside x n f) :
      Inside x (n + 1) (.collection bracket place there items)

/-- There is room for every form in `f`, atoms included. -/
def Fits (f : Form) (room : Nat) : Prop := ∀ x n, Inside x n f → n < room

theorem Fits.room {f : Form} {room : Nat} (h : f.Fits room) : 0 < room := h f 0 .here

theorem fits_atom_iff {place : Location} {a : Atom} {room : Nat} :
    (atom place a).Fits room ↔ 0 < room := by
  constructor
  · exact Fits.room
  · intro least x n inside
    cases inside
    exact least

theorem fits_quote_iff {place : Location} {f : Form} {room : Nat} :
    (quote place f).Fits room ↔ f.Fits (room - 1) := by
  constructor
  · intro h x n inside
    have := h x (n + 1) (.quote inside)
    omega
  · intro h x n inside
    cases inside with
    | here =>
      have := h.room
      omega
    | quote inner =>
      have := h x _ inner
      omega

theorem fits_collection_iff {bracket : Bracket} {place there : Location} {items : List Form}
    {room : Nat} : (collection bracket place there items).Fits room ↔
      0 < room ∧ ∀ f ∈ items, f.Fits (room - 1) := by
  constructor
  · intro h
    refine ⟨h.room, fun f member x n inside => ?_⟩
    have := h x (n + 1) (.item member inside)
    omega
  · rintro ⟨least, each⟩ x n inside
    cases inside with
    | here => exact least
    | item member inner =>
      have := each _ member x _ inner
      omega

theorem Inside.outer {x f : Form} {n : Nat} (h : Inside x (n + 1) f) :
    ∃ y, y.isAtom = false ∧ Inside y n f := by
  induction n generalizing f with
  | zero =>
    cases h with
    | quote => exact ⟨_, rfl, .here⟩
    | item => exact ⟨_, rfl, .here⟩
  | succ n ih =>
    cases h with
    | quote inner =>
      obtain ⟨y, level, inside⟩ := ih inner
      exact ⟨y, level, .quote inside⟩
    | item member inner =>
      obtain ⟨y, level, inside⟩ := ih inner
      exact ⟨y, level, .item member inside⟩

/-- Beyond the limit lies a collection or a quote, or an atom lies just at it. -/
theorem not_fits_iff {f : Form} {room : Nat} : ¬ f.Fits room ↔
    (∃ x n, Inside x n f ∧ x.isAtom = false ∧ room ≤ n) ∨
      ∃ x, Inside x room f ∧ x.isAtom = true := by
  constructor
  · intro h
    simp only [Fits, not_forall, Nat.not_lt] at h
    obtain ⟨x, n, inside, beyond⟩ := h
    cases kind : x.isAtom with
    | false => exact .inl ⟨x, n, inside, kind, beyond⟩
    | true =>
      rcases Nat.eq_or_lt_of_le beyond with rfl | past
      · exact .inr ⟨x, inside, kind⟩
      · obtain ⟨n, rfl⟩ := Nat.exists_eq_add_one_of_ne_zero (Nat.ne_zero_of_lt past)
        obtain ⟨y, level, outer⟩ := inside.outer
        exact .inl ⟨y, n, outer, level, Nat.le_of_lt_succ past⟩
  · rintro (⟨x, n, inside, -, beyond⟩ | ⟨x, inside, -⟩) h
    · exact absurd (h x n inside) (Nat.not_lt.mpr beyond)
    · exact absurd (h x room inside) (Nat.lt_irrefl room)

mutual

theorem Writes.derives {f : Form} {v : Value} (h : f.Writes v) {level room : Nat}
    (fits : f.Fits room) (limit : level + room = maxDepth + 1) : Derives level f.tokens v := by
  have least := fits.room
  match h with
  | .atom => exact .atom (by omega)
  | .quote inner => exact .quote (by omega) (inner.derives (fits_quote_iff.mp fits) (by omega))
  | .list each =>
    exact .list (by omega) (each.derives (fits_collection_iff.mp fits).2 (by omega))
  | .vector each =>
    exact .vector (by omega) (each.derives (fits_collection_iff.mp fits).2 (by omega))
  | .map each distinct =>
    exact .map (by omega) (each.derives (fits_collection_iff.mp fits).2 (by omega)) distinct

theorem WritesAll.derives {forms : List Form} {items : List Value} (h : WritesAll forms items)
    {level room : Nat} (fits : ∀ f ∈ forms, f.Fits room) (limit : level + room = maxDepth + 1) :
    DerivesAll level (tokensOfAll forms) items := by
  match h with
  | .nil => exact .nil
  | .cons first others =>
    rw [List.forall_mem_cons] at fits
    exact .cons (first.derives fits.1 limit) (others.derives fits.2 limit)

end

def Stopped (outcome : Outcome) : Prop := ∃ place rest, outcome = (.error ⟨place, .tooDeep⟩, rest)

/-- Where no level is left, no token is taken but a closing bracket. -/
theorem stopped_of_full {finish : Location} {frames : List Frame} {token : Located Token}
    (full : maxDepth ≤ frames.length) (other : ∀ bracket, token.item ≠ .closing bracket)
    (rest : List (Located Token)) : Stopped (readFrom finish frames (token :: rest)) := by
  have stepped : step frames token = .tooDeep := by
    rw [step_of_unclosed (closed?_eq_none other frames)]
    exact if_pos full
  rw [readFrom, stepped]
  exact ⟨_, _, rfl⟩

/-- A collection that does not fit stops the reading, if not at its opening bracket, then inside. -/
theorem stopped_collection {finish place there : Location} {bracket : Bracket} {items : List Form}
    {frames : List Frame} {room : Nat} {rest : List (Located Token)}
    (limit : frames.length + room = maxDepth)
    (tall : ¬ (collection bracket place there items).Fits room)
    (inside : frames.length + 1 + (room - 1) = maxDepth → (¬ ∀ f ∈ items, f.Fits (room - 1)) →
      Stopped (readFrom finish (.collection bracket place [] :: frames)
        (tokensOfAll items ++ ([⟨there, .closing bracket⟩] ++ rest)))) :
    Stopped (readFrom finish frames ((collection bracket place there items).tokens ++ rest)) := by
  rw [fits_collection_iff] at tall
  rw [tokens, List.cons_append]
  by_cases full : maxDepth ≤ frames.length
  · exact stopped_of_full full (by simp) _
  · rw [readFrom_more (step_enter (by omega) (by simp)), List.append_assoc]
    exact inside (by omega) fun each => tall ⟨by omega, each⟩

mutual

theorem Writes.stopped {f : Form} {v : Value} (h : f.Writes v) {frames : List Frame} {room : Nat}
    (limit : frames.length + room = maxDepth) (tall : ¬ f.Fits room) (finish : Location)
    (rest : List (Located Token)) : Stopped (readFrom finish frames (f.tokens ++ rest)) := by
  match h with
  | .atom =>
    rw [fits_atom_iff] at tall
    have full : maxDepth ≤ frames.length := by omega
    rw [tokens, List.singleton_append]
    exact stopped_of_full full (by simp) rest
  | .quote inner =>
    rw [fits_quote_iff] at tall
    rw [tokens, List.cons_append]
    by_cases full : maxDepth ≤ frames.length
    · exact stopped_of_full full (by simp) _
    · have within : (Frame.quote :: frames).length + (room - 1) = maxDepth := by
        rw [List.length_cons]
        omega
      rw [readFrom_more (step_enter (by omega) (by simp))]
      exact inner.stopped within tall finish rest
  | .list each =>
    exact stopped_collection limit tall fun within high => each.stopped within high [] finish _
  | .vector each =>
    exact stopped_collection limit tall fun within high => each.stopped within high [] finish _
  | .map each _ =>
    exact stopped_collection limit tall fun within high => each.stopped within high [] finish _

theorem WritesAll.stopped {forms : List Form} {items : List Value} (h : WritesAll forms items)
    {bracket : Bracket} {place : Location} {frames : List Frame} {room : Nat}
    (limit : frames.length + 1 + room = maxDepth) (tall : ¬ ∀ f ∈ forms, f.Fits room)
    (found : List Value) (finish : Location) (rest : List (Located Token)) :
    Stopped (readFrom finish (.collection bracket place found :: frames)
      (tokensOfAll forms ++ rest)) := by
  match h with
  | .nil => exact absurd (fun _ member => absurd member (List.not_mem_nil)) tall
  | .cons (f := f) first others =>
    rw [List.forall_mem_cons] at tall
    rw [tokensOfAll, List.append_assoc]
    -- the first form that does not fit stops the reading; those before it only add to the frame
    by_cases fits : f.Fits room
    · have derives : Derives (frames.length + 2) f.tokens _ := first.derives fits (by omega)
      rw [readFrom_of_derives derives (by simp) finish]
      exact others.stopped limit (fun each => tall ⟨fits, each⟩) _ finish rest
    · exact first.stopped (by simpa using limit) fits finish _

end

theorem Writes.next {f : Form} {v : Value} (h : f.Writes v) (fits : f.Fits maxDepth)
    (rest : List (Located Token)) (finish : Location) :
    (Reader.mk (f.tokens ++ rest) finish).next = (.ok v, ⟨rest, finish⟩) :=
  next_ok_iff.mpr ⟨f.tokens, rfl, h.derives fits (Nat.add_comm 1 maxDepth)⟩

theorem Writes.next_stopped {f : Form} {v : Value} (h : f.Writes v) (tall : ¬ f.Fits maxDepth)
    (rest : List (Located Token)) (finish : Location) :
    ∃ place, (Reader.mk (f.tokens ++ rest) finish).next.1 = .error ⟨place, .tooDeep⟩ := by
  have none_open : ([] : List Frame).length + maxDepth = maxDepth := Nat.zero_add _
  obtain ⟨place, left, stopped⟩ := h.stopped none_open tall finish rest
  exact ⟨place, congrArg Prod.fst stopped⟩

/-- A form is read exactly if everything in it, atoms included, lies inside fewer collections and
quotes than the limit. It is too deep exactly if a collection or a quote lies inside that many or
more, or an atom inside just that many. -/
theorem next_form {f : Form} {v : Value} (h : f.Writes v) (rest : List (Located Token))
    (finish : Location) :
    let read := (Reader.mk (f.tokens ++ rest) finish).next
    (read = (.ok v, ⟨rest, finish⟩) ↔ ∀ x n, Inside x n f → n < maxDepth) ∧
    ((∃ place, read.1.mapError report = .error (.reading place "Nesting too deep")) ↔
      (∃ x n, Inside x n f ∧ x.isAtom = false ∧ maxDepth ≤ n) ∨
        ∃ x, Inside x maxDepth f ∧ x.isAtom = true) := by
  intro read
  rw [← not_fits_iff]
  by_cases fits : f.Fits maxDepth
  · have whole : read = (.ok v, ⟨rest, finish⟩) := h.next fits rest finish
    refine ⟨iff_of_true whole fits, iff_of_false ?_ (not_not_intro fits)⟩
    rintro ⟨place, failed⟩
    rw [whole] at failed
    contradiction
  · obtain ⟨place, failed⟩ := h.next_stopped fits rest finish
    have failed : read.1 = .error ⟨place, .tooDeep⟩ := failed
    refine ⟨iff_of_false ?_ fits, iff_of_true ⟨place, ?_⟩ fits⟩
    · intro whole
      rw [whole] at failed
      contradiction
    · rw [failed]
      rfl

/-- A quoted map with a closing bracket behind it. -/
theorem next_form_map :
    let items : List Form := [.atom .first (.int 1), .collection .round .first .first []]
    let f : Form := .quote .first (.collection .curly .first .first items)
    let v : Value := .list [.symbol "quote", .map [(.atom (.int 1), .list [])]]
    let rest : List (Located Token) := [⟨.first, .closing .curly⟩]
    f.Writes v ∧ (Reader.mk (f.tokens ++ rest) .first).next = (.ok v, ⟨rest, .first⟩) ∧
      ∀ x n, Inside x n f → n < maxDepth := by
  intro items f v rest
  have each : WritesAll items ([(.atom (.int 1), .list [])].flatMap fun e => [e.1, e.2]) :=
    .cons .atom (.cons (.list .nil) .nil)
  have writes : f.Writes v := .quote (.map each (by simp))
  have read : (Reader.mk (f.tokens ++ rest) .first).next = (.ok v, ⟨rest, .first⟩) := rfl
  exact ⟨writes, read, (next_form writes rest .first).1.mp read⟩

def vectors : Nat → Form
  | 0 => .atom .first (.int 1)
  | n + 1 => .collection .square .first .first [vectors n]

theorem vectors_writes (n : Nat) : ∃ v, (vectors n).Writes v := by
  induction n with
  | zero => exact ⟨_, .atom⟩
  | succ n ih =>
    obtain ⟨v, inner⟩ := ih
    exact ⟨_, .vector (.cons inner .nil)⟩

theorem inside_vectors {x : Form} {level n : Nat} (h : Inside x level (vectors n))
    (outer : x.isAtom = false) : level < n := by
  induction n generalizing level with
  | zero =>
    cases h
    contradiction
  | succ n ih =>
    cases h with
    | here => exact Nat.succ_pos n
    | item member inner =>
      cases List.mem_singleton.mp member
      exact Nat.succ_lt_succ (ih inner)

theorem atom_inside_vectors (n : Nat) : Inside (vectors 0) n (vectors n) := by
  induction n with
  | zero => exact .here
  | succ n ih => exact .item (List.mem_singleton_self _) ih

/-- Every collection lies inside fewer than the limit, and only the atom in the innermost one does
not. -/
theorem next_vectors :
    let f := vectors maxDepth
    (∃ v, f.Writes v) ∧ (∀ x n, Inside x n f → x.isAtom = false → n < maxDepth) ∧
      ∃ place, (Reader.mk f.tokens .first).next.1.mapError report =
        .error (.reading place "Nesting too deep") := by
  intro f
  obtain ⟨v, writes⟩ := vectors_writes maxDepth
  have tall : ¬ f.Fits maxDepth := fun fits =>
    Nat.lt_irrefl _ (fits _ _ (atom_inside_vectors maxDepth))
  obtain ⟨place, failed⟩ := writes.next_stopped tall [] .first
  rw [List.append_nil] at failed
  refine ⟨⟨v, writes⟩, fun x n inside outer => inside_vectors inside outer, place, ?_⟩
  rw [failed]
  rfl

end Form

end FormCode.Reader

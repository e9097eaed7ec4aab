import FormCode.Proofs.Value.Equality
import FormCode.Reader

/-! The grammar of forms. A form at some level stands inside a form at the level before it; the
outermost level is 1 and `maxDepth` is the last one. -/
namespace FormCode.Reader

mutual

/-- The tokens write the value, as a form at this level. -/
inductive Derives : Nat → List (Located Token) → Value → Prop
  | atom (room : level ≤ maxDepth) : Derives level [⟨place, .atom a⟩] (.atom a)
  | quote (room : level ≤ maxDepth) (inside : Derives (level + 1) written x) :
      Derives level (⟨place, .quote⟩ :: written) (.list [.symbol "quote", x])
  | list (room : level ≤ maxDepth) (inside : DerivesAll (level + 1) written items) :
      Derives level (⟨place, .opening .round⟩ :: (written ++ [⟨there, .closing .round⟩]))
        (.list items)
  | vector (room : level ≤ maxDepth) (inside : DerivesAll (level + 1) written items) :
      Derives level (⟨place, .opening .square⟩ :: (written ++ [⟨there, .closing .square⟩]))
        (.vector items)
  | map (room : level ≤ maxDepth)
      (inside : DerivesAll (level + 1) written (entries.flatMap fun e => [e.1, e.2]))
      (distinct : (entries.map Prod.fst).Pairwise fun k l => (k == l) = false) :
      Derives level (⟨place, .opening .curly⟩ :: (written ++ [⟨there, .closing .curly⟩]))
        (.map entries)

inductive DerivesAll : Nat → List (Located Token) → List Value → Prop
  | nil : DerivesAll level [] []
  | cons (first : Derives level written x) (others : DerivesAll level rest items) :
      DerivesAll level (written ++ rest) (x :: items)

end

theorem pairs?_flatMap (entries : List (Value × Value)) :
    pairs? (entries.flatMap fun e => [e.1, e.2]) = some entries := by
  induction entries with
  | nil => rfl
  | cons e entries ih => simp [pairs?, ih]

theorem firstRepeatAfter_eq_none {seen keys : List Value}
    (fresh : ∀ k ∈ keys, ∀ s ∈ seen, Value.alike k s = false)
    (apart : keys.Pairwise fun k l => Value.alike l k = false) :
    Value.firstRepeatAfter seen keys = none := by
  induction keys generalizing seen with
  | nil => rfl
  | cons k keys ih =>
    rw [List.forall_mem_cons] at fresh
    rw [List.pairwise_cons] at apart
    have unseen : seen.any (Value.alike k) = false := by simpa using fresh.1
    rw [Value.firstRepeatAfter, unseen, if_neg Bool.false_ne_true]
    apply ih _ apart.2
    intro l member s earlier
    rcases List.mem_cons.mp earlier with rfl | earlier
    · exact apart.1 l member
    · exact fresh.2 l member s earlier

theorem firstRepeat?_eq_none {keys : List Value}
    (distinct : keys.Pairwise fun k l => (k == l) = false) : Value.firstRepeat? keys = none := by
  apply firstRepeatAfter_eq_none (by simp)
  refine distinct.imp fun {k l} unequal => ?_
  cases like : Value.alike l k with
  | false => rfl
  | true => simp [Value.same_of_alike like] at unequal

/-- What reading comes to when `form` is complete inside `frames`. -/
def resume (finish : Location) (form : Value) : List Frame → List (Located Token) → Outcome
  | [], rest => (.ok form, rest)
  | .quote :: frames, rest => resume finish (.list [.symbol "quote", form]) frames rest
  | .collection bracket place items :: frames, rest =>
    readFrom finish (.collection bracket place (form :: items) :: frames) rest

theorem readFrom_deliver {finish : Location} {frames outer : List Frame} {token : Located Token}
    {form : Value} (h : step frames token = deliver form outer) (rest : List (Located Token)) :
    readFrom finish frames (token :: rest) = resume finish form outer rest := by
  rw [readFrom, h]
  clear h
  induction outer generalizing form with
  | nil => rfl
  | cons frame outer ih =>
    cases frame with
    | quote => exact ih
    | collection => rfl

theorem closed?_eq_none {token : Token} (other : ∀ bracket, token ≠ .closing bracket)
    (frames : List Frame) : closed? token frames = none := by
  unfold closed?
  split
  · rw [if_neg (other _)]
  · rfl

theorem step_of_unclosed {frames : List Frame} {token : Located Token}
    (unclosed : closed? token.item frames = none) : step frames token =
      if maxDepth ≤ frames.length then .tooDeep else enter frames token.place token.item := by
  rw [step, unclosed]

theorem step_enter {frames : List Frame} {token : Located Token} (room : frames.length < maxDepth)
    (open_token : ∀ bracket, token.item ≠ .closing bracket) :
    step frames token = enter frames token.place token.item := by
  rw [step_of_unclosed (closed?_eq_none open_token frames)]
  exact if_neg (Nat.not_le.mpr room)

theorem readFrom_more {finish : Location} {frames inner : List Frame} {token : Located Token}
    (h : step frames token = .more inner) (rest : List (Located Token)) :
    readFrom finish frames (token :: rest) = readFrom finish inner rest := by
  rw [readFrom, h]

/-- A collection is read once its items are. The closing bracket needs no room. -/
theorem readFrom_bracketed {finish place there : Location} {frames : List Frame}
    {bracket : Bracket} {items : List Value} {form : Value} {written rest : List (Located Token)}
    (room : frames.length < maxDepth) (made : collect bracket items = .ok form)
    (inside : readFrom finish (.collection bracket place [] :: frames)
        (written ++ ⟨there, .closing bracket⟩ :: rest) =
      readFrom finish (.collection bracket place items.reverse :: frames)
        (⟨there, .closing bracket⟩ :: rest)) :
    readFrom finish frames
        (⟨place, .opening bracket⟩ :: (written ++ [⟨there, .closing bracket⟩]) ++ rest) =
      resume finish form frames rest := by
  have closing : step (.collection bracket place items.reverse :: frames)
      ⟨there, .closing bracket⟩ = deliver form frames := by
    simp [step, closed?, made]
  rw [List.cons_append, readFrom_more (step_enter room (by simp)), List.append_assoc,
    List.singleton_append, inside]
  exact readFrom_deliver closing rest

theorem collect_curly {entries : List (Value × Value)}
    (distinct : (entries.map Prod.fst).Pairwise fun k l => (k == l) = false) :
    collect .curly (entries.flatMap fun e => [e.1, e.2]) = .ok (.map entries) := by
  simp [collect, pairs?_flatMap, firstRepeat?_eq_none distinct]

mutual

/-- What is derived at the level of the open frames is read inside them. -/
theorem readFrom_of_derives {level : Nat} {tokens : List (Located Token)} {v : Value}
    (h : Derives level tokens v) {frames : List Frame} (depth : frames.length + 1 = level)
    (finish : Location) (rest : List (Located Token)) :
    readFrom finish frames (tokens ++ rest) = resume finish v frames rest := by
  match h with
  | .atom room =>
    exact readFrom_deliver (step_enter (by omega) (by simp)) rest
  | .quote room inside =>
    rw [List.cons_append, readFrom_more (step_enter (by omega) (by simp))]
    exact readFrom_of_derives inside (by simp [depth]) finish rest
  | .list room inside =>
    refine readFrom_bracketed (by omega) rfl ?_
    rw [readFrom_of_derivesAll inside [] (by omega) finish, List.append_nil]
  | .vector room inside =>
    refine readFrom_bracketed (by omega) rfl ?_
    rw [readFrom_of_derivesAll inside [] (by omega) finish, List.append_nil]
  | .map room inside distinct =>
    refine readFrom_bracketed (by omega) (collect_curly distinct) ?_
    rw [readFrom_of_derivesAll inside [] (by omega) finish, List.append_nil]

theorem readFrom_of_derivesAll {level : Nat} {tokens : List (Located Token)} {items : List Value}
    (h : DerivesAll level tokens items) {bracket : Bracket} {place : Location}
    (found : List Value) {frames : List Frame} (depth : frames.length + 2 = level)
    (finish : Location) (rest : List (Located Token)) :
    readFrom finish (.collection bracket place found :: frames) (tokens ++ rest) =
      readFrom finish (.collection bracket place (items.reverse ++ found) :: frames) rest := by
  match h with
  | .nil => rfl
  | .cons first others =>
    rw [List.append_assoc, readFrom_of_derives first (by simpa using depth), resume,
      readFrom_of_derivesAll others _ depth, List.reverse_cons, List.append_assoc]
    rfl

end

theorem readFirst_of_derives {source : String} {tokens rest : List (Located Token)} {v : Value}
    (lexed : Token.lex source = .ok (tokens ++ rest)) (h : Derives 1 tokens v) :
    readFirst source = .ok v := by
  have read : readFrom (Text.endOf source.toList) [] (tokens ++ rest) = (.ok v, rest) :=
    readFrom_of_derives h rfl _ rest
  rw [readFirst, ofSource, lexed]
  change (readFrom (Text.endOf source.toList) [] (tokens ++ rest)).1.mapError report = _
  rw [read]
  rfl

end FormCode.Reader

import Mathlib.Logic.Function.Iterate
import FormCode.Proofs.Except
import FormCode.Proofs.Reader.Derivation
import FormCode.Reader.Descent

/-! A call that reads by descent comes to what the frames come to, wherever it ends, and leaves the
count of open forms as it was. -/
namespace FormCode.Reader

section

variable {tokens : List (Located Token)} {finish : Location}

theorem drop_of_next {p : Nat} {token : Located Token} (next : tokens[p]? = some token) :
    tokens.drop p = token :: tokens.drop (p + 1) := by
  obtain ⟨within, rfl⟩ := List.getElem?_eq_some_iff.mp next
  exact List.drop_eq_getElem_cons within

theorem drop_of_none {p : Nat} (next : tokens[p]? = none) : tokens.drop p = [] :=
  List.drop_eq_nil_of_le (List.getElem?_eq_none_iff.mp next)

def handOn {α : Type} (go : α → List (Located Token) → Outcome) (rest : List (Located Token)) :
    Except (Located Fault) α → Outcome
  | .ok a => go a rest
  | .error fault => (.error fault, rest)

/-- A call agrees with `read` when what it gives is handed on to `go`. It stays within the tokens,
and leaves as many forms open as it found. -/
structure Follows {c : Cursor} {α : Type} (call : Call c α) (read : Outcome)
    (go : α → List (Located Token) → Outcome) (tokens : List (Located Token)) : Prop where
  depth : call.after.depth = c.depth
  within : call.after.position ≤ tokens.length
  agrees : read = handOn go (tokens.drop call.after.position) call.outcome

theorem Follows.andThen {c d : Cursor} {α β : Type} {call : Call d α} {read : Outcome}
    {go : α → List (Located Token) → Outcome} {goOn : β → List (Located Token) → Outcome}
    {f : α → Except (Located Fault) β} (h : Follows call read go tokens)
    {ahead : c.position ≤ d.position} (level : d.depth = c.depth)
    (made : ∀ a rest, go a rest = handOn goOn rest (f a)) :
    Follows (call.andThen ahead f) read goOn tokens := by
  refine ⟨h.depth.trans level, h.within, h.agrees.trans ?_⟩
  change handOn go _ call.outcome = handOn goOn _ (call.outcome >>= f)
  cases call.outcome with
  | error fault => rfl
  | ok a => exact made a _

/-- The next token opens a form inside the frames: it does not end the innermost collection, nor is
it missing there. -/
def Ready (tokens : List (Located Token)) (position : Nat) : List Frame → Prop
  | .collection bracket _ _ :: _ =>
    ∃ token, tokens[position]? = some token ∧ token.item ≠ .closing bracket
  | _ => True

section

variable {p : Nat} {frames : List Frame}

theorem closed?_of_ready {token : Located Token} (ready : Ready tokens p frames)
    (next : tokens[p]? = some token) : closed? token.item frames = none := by
  unfold closed?
  split
  case h_1 =>
    obtain ⟨_, same, other⟩ := ready
    cases next.symm.trans same
    rw [if_neg other]
  case h_2 => rfl

theorem endFault_of_ready (ready : Ready tokens p frames) (next : tokens[p]? = none) :
    endFault frames = if maxDepth ≤ frames.length then .tooDeep else .endOfInput := by
  unfold endFault
  split
  case h_1 =>
    obtain ⟨_, same, -⟩ := ready
    cases next.symm.trans same
  case h_2 => rfl

theorem readFrom_full (ready : Ready tokens p frames) (full : maxDepth ≤ frames.length) :
    readFrom finish frames (tokens.drop p) =
      (.error ⟨placeAt tokens finish p, .tooDeep⟩, tokens.drop p) := by
  cases next : tokens[p]? with
  | none => simp [drop_of_none next, readFrom, endFault_of_ready ready next, full, placeAt, next]
  | some token =>
    have stepped := step_of_unclosed (closed?_of_ready ready next)
    simp [drop_of_next next, readFrom, stepped, full, placeAt, next]

end

theorem readFrom_closing {bracket : Bracket} {token : Located Token}
    (closing : token.item = .closing bracket) (place : Location) (found : List Value)
    (frames : List Frame) (rest : List (Located Token)) :
    readFrom finish (.collection bracket place found :: frames) (token :: rest) =
      handOn (resume finish · frames ·) rest
        ((collect bracket found.reverse).mapError (Located.mk place)) := by
  have closed : closed? token.item (.collection bracket place found :: frames) =
      some (bracket, place, found.reverse, frames) := if_pos closing
  cases made : collect bracket found.reverse with
  | ok whole =>
    have stepped : step (.collection bracket place found :: frames) token =
        deliver whole frames := by
      simp only [step, closed, made]
    exact readFrom_deliver stepped rest
  | error fault =>
    rw [readFrom, step, closed]
    simp only [made]
    rfl

variable (finish)

mutual

/-- A call reads what the frames read, while there is one for each form that is open. -/
theorem readForm_follows (c : Cursor) (frames : List Frame) (depth : frames.length = c.depth)
    (within : c.position ≤ tokens.length) (ready : Ready tokens c.position frames) :
    Follows (readForm tokens finish c) (readFrom finish frames (tokens.drop c.position))
      (resume finish · frames ·) tokens := by
  rw [readForm]
  by_cases full : maxDepth ≤ c.depth
  · rw [if_pos full]
    exact ⟨rfl, within, readFrom_full ready (depth ▸ full)⟩
  · rw [if_neg full]
    obtain ⟨level, inside, agrees⟩ := readInside_follows c.enter frames
      (congrArg (· + 1) depth) (depth ▸ Nat.lt_of_not_le full) within ready
    exact ⟨congrArg (· - 1) level, inside, agrees⟩
termination_by (tokens.length - c.position, 1)

theorem readInside_follows (c : Cursor) (frames : List Frame)
    (depth : frames.length + 1 = c.depth) (room : frames.length < maxDepth)
    (within : c.position ≤ tokens.length) (ready : Ready tokens c.position frames) :
    Follows (readInside tokens finish c) (readFrom finish frames (tokens.drop c.position))
      (resume finish · frames ·) tokens := by
  have entered {token : Located Token} (next : tokens[c.position]? = some token) :
      step frames token = enter frames token.place token.item := by
    rw [step_of_unclosed (closed?_of_ready ready next), if_neg (Nat.not_le.mpr room)]
  have advanced {token : Located Token} (next : tokens[c.position]? = some token) :
      c.advance.position ≤ tokens.length := (List.getElem?_eq_some_iff.mp next).1
  rw [readInside]
  split
  case h_1 next =>
    refine ⟨rfl, within, ?_⟩
    rw [drop_of_none next, readFrom, endFault_of_ready ready next, if_neg (Nat.not_le.mpr room)]
    exact Prod.ext rfl (drop_of_none next).symm
  case h_2 next =>
    refine ⟨rfl, advanced next, ?_⟩
    rw [drop_of_next next]
    exact readFrom_deliver (entered next) _
  case h_3 next =>
    have fewer := fewer_ahead next c.lt_advance
    have inner := readForm_follows c.advance (.quote :: frames) depth (advanced next) trivial
    rw [drop_of_next next, readFrom_more (entered next)]
    exact inner.andThen rfl fun _ _ => rfl
  case h_4 place bracket next =>
    have fewer := fewer_ahead next c.lt_advance
    have inner := readItems_follows c.advance frames depth (advanced next) bracket place []
    rw [drop_of_next next, readFrom_more (entered next)]
    exact inner.andThen rfl fun _ _ => rfl
  case h_5 next =>
    refine ⟨rfl, advanced next, ?_⟩
    rw [drop_of_next next, readFrom, entered next]
    rfl
termination_by (tokens.length - c.position, 0)

theorem readItems_follows (c : Cursor) (frames : List Frame)
    (depth : frames.length + 1 = c.depth) (within : c.position ≤ tokens.length)
    (bracket : Bracket) (place : Location) (found : List Value) :
    Follows (readItems tokens finish bracket place c found)
      (readFrom finish (.collection bracket place found :: frames) (tokens.drop c.position))
      (fun items rest => handOn (resume finish · frames ·) rest
        ((collect bracket items).mapError (Located.mk place))) tokens := by
  rw [readItems]
  split
  case h_1 next =>
    refine ⟨rfl, within, ?_⟩
    rw [drop_of_none next]
    exact Prod.ext rfl (drop_of_none next).symm
  case h_2 token next =>
    by_cases closing : token.item = .closing bracket
    · rw [if_pos closing]
      refine ⟨rfl, (List.getElem?_eq_some_iff.mp next).1, ?_⟩
      rw [drop_of_next next]
      exact readFrom_closing closing place found frames _
    · rw [if_neg closing]
      -- the bracket was looked for here, so the call inside does not meet it
      have first := readForm_follows c (.collection bracket place found :: frames) depth within
        ⟨token, next, closing⟩
      have agrees := first.agrees
      split
      case h_1 fault given =>
        rw [given] at agrees
        exact ⟨first.depth, first.within, agrees⟩
      case h_2 x given =>
        have fewer := fewer_ahead next ((readForm tokens finish c).taken x given)
        have others := readItems_follows (readForm tokens finish c).after frames
          (depth.trans first.depth.symm) first.within bracket place (x :: found)
        rw [given] at agrees
        rw [agrees]
        exact others.andThen first.depth fun _ _ => rfl
termination_by (tokens.length - c.position, 2)

end

theorem handOn_nil (rest : List (Located Token)) (outcome : Except (Located Fault) Value) :
    handOn (resume finish · [] ·) rest outcome = (outcome, rest) := by
  cases outcome <;> rfl

theorem next_of_readForm {c : Cursor} (closed : c.depth = 0) (within : c.position ≤ tokens.length) :
    let call := readForm tokens finish c
    (Reader.mk (tokens.drop c.position) finish).next =
      (call.outcome, ⟨tokens.drop call.after.position, finish⟩) := by
  intro call
  have agrees := (readForm_follows finish c [] closed.symm within trivial).agrees
  rw [handOn_nil] at agrees
  rw [next, agrees]

theorem readForm_goes_on {c : Cursor} (closed : c.depth = 0) (more : c.position < tokens.length) :
    c.position < (readForm tokens finish c).after.position := by
  have some_left : ¬ (Reader.mk (tokens.drop c.position) finish).atEnd = true := by
    simpa [atEnd_iff] using more
  have fewer := length_next_lt _ some_left
  rw [next_of_readForm finish closed (Nat.le_of_lt more)] at fewer
  simp only [List.length_drop] at fewer
  omega

theorem readForm_fresh {c : Cursor} (closed : c.depth = 0) (within : c.position ≤ tokens.length) :
    let call := readForm tokens finish c
    let fresh := readForm (tokens.drop c.position) finish .start
    call.outcome = fresh.outcome ∧ call.after.position = c.position + fresh.after.position := by
  intro call fresh
  have read : (Reader.mk (tokens.drop c.position) finish).next =
      (call.outcome, ⟨tokens.drop call.after.position, finish⟩) :=
    next_of_readForm finish closed within
  have first : (Reader.mk (tokens.drop c.position) finish).next =
      (fresh.outcome, ⟨(tokens.drop c.position).drop fresh.after.position, finish⟩) :=
    next_of_readForm finish (c := .start) rfl (Nat.zero_le _)
  have inside : call.after.position ≤ tokens.length :=
    (readForm_follows finish c [] closed.symm within trivial).within
  have inside_ahead : fresh.after.position ≤ (tokens.drop c.position).length :=
    (readForm_follows finish .start [] rfl (Nat.zero_le _) trivial).within
  have same := read.symm.trans first
  simp only [Prod.mk.injEq, Reader.mk.injEq, and_true] at same
  refine ⟨same.1, ?_⟩
  have lengths := congrArg List.length same.2
  simp only [List.length_drop] at lengths inside_ahead
  omega

theorem readForm_at_end {c : Cursor} (closed : c.depth = 0) (atEnd : c.position = tokens.length) :
    (readForm tokens finish c).outcome = .error ⟨finish, .endOfInput⟩ ∧
      (readForm tokens finish c).after = c := by
  have missing : tokens[c.enter.position]? = none :=
    List.getElem?_eq_none_iff.mpr (Nat.le_of_eq atEnd.symm)
  have inside : readInside tokens finish c.enter =
      .fail ⟨finish, .endOfInput⟩ c.enter (Nat.le_refl _) := by
    rw [readInside]
    split
    case h_1 => rfl
    all_goals cases missing.symm.trans ‹_›
  have room : ¬ maxDepth ≤ c.depth := by
    rw [closed]
    decide
  rw [readForm, if_neg room, inside]
  exact ⟨rfl, rfl⟩

/-- What a number of calls on one reader comes to. -/
def calls (tokens : List (Located Token)) (finish : Location) (k : Nat) : Cursor :=
  (fun c : Cursor => (readForm tokens finish c).after)^[k] .start

theorem calls_succ (k : Nat) : calls tokens finish (k + 1) =
    (readForm tokens finish (calls tokens finish k)).after :=
  Function.iterate_succ_apply' _ k _

theorem calls_progress (tokens : List (Located Token)) (k : Nat) :
    let c := calls tokens finish k
    c.depth = 0 ∧ c.position ≤ tokens.length ∧ min k tokens.length ≤ c.position ∧
      (fun r : Reader => r.next.2)^[k] ⟨tokens, finish⟩ = ⟨tokens.drop c.position, finish⟩ := by
  induction k with
  | zero => exact ⟨rfl, Nat.zero_le _, Nat.min_le_left _ _, rfl⟩
  | succ k ih =>
    obtain ⟨closed, within, progress, same⟩ := ih
    rw [calls_succ, Function.iterate_succ_apply', same, next_of_readForm finish closed within]
    obtain ⟨depth, inside, -⟩ :=
      readForm_follows finish _ [] closed.symm within trivial
    refine ⟨depth.trans closed, inside, ?_, rfl⟩
    rcases Nat.eq_or_lt_of_le within with atEnd | more
    · rw [(readForm_at_end finish closed atEnd).2]
      omega
    · have goes_on := readForm_goes_on finish closed more
      omega

/-- Whatever calls came before, no form is open, and each of them took a token up to the end. Before
the end the next call goes on, as a first call on the tokens ahead would. At the end it says so, and
changes nothing. -/
theorem calls_resume (tokens : List (Located Token)) (finish : Location) (k : Nat) :
    let c := calls tokens finish k
    let call := readForm tokens finish c
    c.depth = 0 ∧ min k tokens.length ≤ c.position ∧
    (fun r : Reader => r.next.2)^[k] ⟨tokens, finish⟩ = ⟨tokens.drop c.position, finish⟩ ∧
    (Reader.mk (tokens.drop c.position) finish).next =
      (call.outcome, ⟨tokens.drop call.after.position, finish⟩) ∧
    ((c.position < call.after.position ∧ call.after.position ≤ tokens.length ∧
        let fresh := readForm (tokens.drop c.position) finish .start
        call.outcome = fresh.outcome ∧ call.after.position = c.position + fresh.after.position) ∨
      (c.position = tokens.length ∧ call.after = c ∧
        call.outcome.mapError report = .error (.reading finish "EOF while reading"))) := by
  intro c call
  obtain ⟨closed, within, progress, same⟩ := calls_progress finish tokens k
  refine ⟨closed, progress, same, next_of_readForm finish closed within, ?_⟩
  rcases Nat.eq_or_lt_of_le within with atEnd | more
  · obtain ⟨outcome, after⟩ := readForm_at_end finish closed atEnd
    refine .inr ⟨atEnd, after, ?_⟩
    rw [show call.outcome = _ from outcome]
    rfl
  · refine .inl ⟨readForm_goes_on finish closed more, ?_, readForm_fresh finish closed within⟩
    exact (readForm_follows finish c [] closed.symm within trivial).within

end

end FormCode.Reader

import FormCode.Reader

/-! Reading by descent. A cursor counts the tokens that are taken and the forms that are open, and
one call reads one form, with calls of its own for the forms inside. A call may end early anywhere
in them. -/
namespace FormCode.Reader

/-- How many tokens are taken, and how many forms are open. -/
structure Cursor where
  position : Nat
  depth : Nat
  deriving DecidableEq, Repr

namespace Cursor

def start : Cursor := ⟨0, 0⟩

def advance (c : Cursor) : Cursor := { c with position := c.position + 1 }

theorem lt_advance (c : Cursor) : c.position < c.advance.position := Nat.lt_succ_self _

def enter (c : Cursor) : Cursor := { c with depth := c.depth + 1 }

def leave (c : Cursor) : Cursor := { c with depth := c.depth - 1 }

end Cursor

/-- What a call at `c` comes to. It never goes back, and takes a token if it gives something. -/
structure Call (c : Cursor) (α : Type) where
  outcome : Except (Located Fault) α
  after : Cursor
  forward : c.position ≤ after.position
  taken : ∀ a, outcome = .ok a → c.position < after.position

namespace Call

variable {c d : Cursor} {α β : Type}

def fail (fault : Located Fault) (after : Cursor) (forward : c.position ≤ after.position) :
    Call c α :=
  ⟨.error fault, after, forward, by simp⟩

def done (a : α) (after : Cursor) (taken : c.position < after.position) : Call c α :=
  ⟨.ok a, after, Nat.le_of_lt taken, fun _ _ => taken⟩

def andThen (call : Call d α) (ahead : c.position ≤ d.position)
    (f : α → Except (Located Fault) β) : Call c β where
  outcome := call.outcome >>= f
  after := call.after
  forward := Nat.le_trans ahead call.forward
  taken b made := by
    cases given : call.outcome with
    | error fault =>
      rw [given] at made
      contradiction
    | ok a => exact Nat.lt_of_le_of_lt ahead (call.taken a given)

def left (call : Call c.enter α) : Call c α :=
  { call with after := call.after.leave }

end Call

theorem fewer_ahead {tokens : List (Located Token)} {c after : Cursor} {token : Located Token}
    (next : tokens[c.position]? = some token) (taken : c.position < after.position) :
    tokens.length - after.position < tokens.length - c.position := by
  have within := (List.getElem?_eq_some_iff.mp next).1
  omega

section

variable (tokens : List (Located Token)) (finish : Location)

def placeAt (position : Nat) : Location := (tokens[position]?.map Located.place).getD finish

mutual

def readForm (c : Cursor) : Call c Value :=
  if maxDepth ≤ c.depth then .fail ⟨placeAt tokens finish c.position, .tooDeep⟩ c (Nat.le_refl _)
  else (readInside c.enter).left
termination_by (tokens.length - c.position, 1)

def readInside (c : Cursor) : Call c Value :=
  match next : tokens[c.position]? with
  | none => .fail ⟨finish, .endOfInput⟩ c (Nat.le_refl _)
  | some ⟨_, .atom a⟩ => .done (.atom a) c.advance c.lt_advance
  | some ⟨_, .quote⟩ =>
    have := fewer_ahead next c.lt_advance
    (readForm c.advance).andThen (Nat.le_succ _) fun x => .ok (.list [.symbol "quote", x])
  | some ⟨place, .opening bracket⟩ =>
    have := fewer_ahead next c.lt_advance
    (readItems bracket place c.advance []).andThen (Nat.le_succ _) fun items =>
      (collect bracket items).mapError (Located.mk place)
  | some ⟨place, .closing bracket⟩ => .fail ⟨place, .unmatched bracket⟩ c.advance (Nat.le_succ _)
termination_by (tokens.length - c.position, 0)

/-- The items of a collection up to its closing bracket, after the reversed list `found`. -/
def readItems (bracket : Bracket) (place : Location) (c : Cursor) (found : List Value) :
    Call c (List Value) :=
  match next : tokens[c.position]? with
  | none => .fail ⟨finish, .endInside place.line⟩ c (Nat.le_refl _)
  | some token =>
    if token.item = .closing bracket then .done found.reverse c.advance c.lt_advance
    else
      match given : (readForm c).outcome with
      | .error fault => .fail fault (readForm c).after (readForm c).forward
      | .ok x =>
        have := fewer_ahead next ((readForm c).taken x given)
        (readItems bracket place (readForm c).after (x :: found)).andThen (readForm c).forward .ok
termination_by (tokens.length - c.position, 2)

end

end

end FormCode.Reader

import FormCode.Text.Lines
import FormCode.Token.Lexer
import FormCode.Value.Equality
import FormCode.Value.Printer

/-! Reading forms from tokens. The collections and quotes that are open at a token are kept as
frames, the innermost first, so their number is the nesting depth at that token. A quote mark
before `x` reads as the list `(quote x)`. -/
namespace FormCode

namespace Reader

/-- How many frames may be open around a form. -/
def maxDepth : Nat := 256

inductive Fault where
  | endOfInput
  /-- The input ends in a collection that begins on `line`. -/
  | endInside (line : Nat)
  | unmatched (bracket : Bracket)
  | oddMap
  | repeatedKey (key : Value)
  | tooDeep
  deriving Repr

def Fault.message : Fault → String
  | .endOfInput => "EOF while reading"
  | .endInside line => s!"EOF while reading, starting at line {line}"
  | .unmatched bracket => "Unmatched delimiter: " ++ (Token.closing bracket).describe
  | .oddMap => "Map literal must contain an even number of forms"
  | .repeatedKey key => "Duplicate key: " ++ key.text
  | .tooDeep => "Nesting too deep"

/-- What is open: a quote that waits for its form, or a collection with the items read so far,
the last one first. -/
inductive Frame where
  | quote
  | collection (bracket : Bracket) (place : Location) (items : List Value)
  deriving Repr

def pairs? : List Value → Option (List (Value × Value))
  | [] => some []
  | [_] => none
  | k :: v :: items => (pairs? items).map ((k, v) :: ·)

def collect (bracket : Bracket) (items : List Value) : Except Fault Value :=
  match bracket with
  | .round => .ok (.list items)
  | .square => .ok (.vector items)
  | .curly =>
    match pairs? items with
    | none => .error .oddMap
    | some entries =>
      match Value.firstRepeat? (entries.map Prod.fst) with
      | some key => .error (.repeatedKey key)
      | none => .ok (.map entries)

inductive Step where
  /-- It is taken, and `frames` are open now. -/
  | more (frames : List Frame)
  /-- It is taken and completes a form with nothing around it. -/
  | form (form : Value)
  /-- It is taken, but the form fails. -/
  | fault (fault : Located Fault)
  /-- It is left, because no level is left for it. -/
  | tooDeep
  deriving Repr

/-- Hands a form to the frames around it: quotes are complete with it, a collection goes on. -/
def deliver (form : Value) : List Frame → Step
  | [] => .form form
  | .quote :: frames => deliver (.list [.symbol "quote", form]) frames
  | .collection bracket place items :: frames =>
    .more (.collection bracket place (form :: items) :: frames)

def enter (frames : List Frame) (place : Location) : Token → Step
  | .atom a => deliver (.atom a) frames
  | .quote => .more (.quote :: frames)
  | .opening bracket => .more (.collection bracket place [] :: frames)
  | .closing bracket => .fault ⟨place, .unmatched bracket⟩

/-- The innermost collection with its items in order, and the frames around it, if `token` is its
closing bracket. -/
def closed? (token : Token) : List Frame → Option (Bracket × Location × List Value × List Frame)
  | .collection bracket place items :: frames =>
    if token = .closing bracket then some (bracket, place, items.reverse, frames) else none
  | _ => none

/-- A token that closes the innermost collection does so at any depth; every other token needs
room for one more level. -/
def step (frames : List Frame) (token : Located Token) : Step :=
  match closed? token.item frames with
  | some (bracket, place, items, outer) =>
    match collect bracket items with
    | .ok form => deliver form outer
    | .error fault => .fault ⟨place, fault⟩
  | none => if maxDepth ≤ frames.length then .tooDeep else enter frames token.place token.item

def endFault : List Frame → Fault
  | .collection _ place _ :: _ => .endInside place.line
  | frames => if maxDepth ≤ frames.length then .tooDeep else .endOfInput

/-- The outcome of reading, and the tokens that are left. -/
abbrev Outcome := Except (Located Fault) Value × List (Located Token)

/-- Reads on while `frames` are open, up to the end of the outermost form. -/
def readFrom (finish : Location) (frames : List Frame) : List (Located Token) → Outcome
  | [] => (.error ⟨finish, endFault frames⟩, [])
  | token :: tokens =>
    match step frames token with
    | .more frames => readFrom finish frames tokens
    | .form form => (.ok form, tokens)
    | .fault fault => (.error fault, tokens)
    | .tooDeep => (.error ⟨token.place, .tooDeep⟩, token :: tokens)

end Reader

/-- Tokens still to be read, and the place where the input ends. -/
structure Reader where
  tokens : List (Located Token)
  finish : Location
  deriving Repr

namespace Reader

/-- A reader of a whole source text, which must consist of tokens to its end. -/
def ofSource (source : String) : Except Error Reader :=
  (Token.lex source).map fun tokens => ⟨tokens, Text.endOf source.toList⟩

def atEnd (r : Reader) : Bool := r.tokens.isEmpty

theorem atEnd_iff {r : Reader} : r.atEnd = true ↔ r.tokens = [] := List.isEmpty_iff

/-- Reads one form. After a fault, reading goes on with the tokens that are left. -/
def next (r : Reader) : Except (Located Fault) Value × Reader :=
  let (outcome, rest) := readFrom r.finish [] r.tokens
  (outcome, { r with tokens := rest })

theorem length_readFrom_le (finish : Location) (frames : List Frame)
    (tokens : List (Located Token)) : (readFrom finish frames tokens).2.length ≤ tokens.length := by
  induction tokens generalizing frames with
  | nil => simp [readFrom]
  | cons token tokens ih =>
    simp only [readFrom]
    split
    · exact Nat.le_succ_of_le (ih _)
    all_goals simp

theorem deliver_ne_tooDeep (form : Value) (frames : List Frame) :
    deliver form frames ≠ .tooDeep := by
  fun_induction deliver form frames <;> simp_all

theorem step_nil_ne_tooDeep (token : Located Token) : step [] token ≠ .tooDeep := by
  obtain ⟨place, token⟩ := token
  cases token <;> simp [step, closed?, maxDepth, enter, deliver_ne_tooDeep]

theorem length_next_lt (r : Reader) (more : ¬ r.atEnd = true) :
    r.next.2.tokens.length < r.tokens.length := by
  obtain ⟨_ | ⟨token, tokens⟩, finish⟩ := r
  · exact absurd rfl more
  · simp only [next, readFrom]
    split
    · exact Nat.lt_succ_of_le (length_readFrom_le ..)
    · simp
    · simp
    · exact absurd ‹_› (step_nil_ne_tooDeep token)

/-- All forms up to the end, after the reversed list `found`. -/
def allFrom (r : Reader) (found : List Value) : Except (Located Fault) (List Value) :=
  if more : r.atEnd then .ok found.reverse
  else
    have := r.length_next_lt more
    let next := r.next
    match next.1 with
    | .ok form => next.2.allFrom (form :: found)
    | .error fault => .error fault
termination_by r.tokens.length

def all (r : Reader) : Except (Located Fault) (List Value) := r.allFrom []

def report (fault : Located Fault) : Error := .reading fault.place fault.item.message

/-- The first form of a source text. What follows it must be tokens, but need not be forms. -/
def readFirst (source : String) : Except Error Value :=
  ofSource source >>= fun r => r.next.1.mapError report

def readAll (source : String) : Except Error (List Value) :=
  ofSource source >>= fun r => r.all.mapError report

end Reader

end FormCode

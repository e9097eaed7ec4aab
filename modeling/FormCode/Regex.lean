/-! Regular expressions over characters. `Matches` says which texts an expression describes;
`longest` finds the longest described beginning of a text by taking derivatives. -/
namespace FormCode

inductive Regex where
  | never
  | empty
  | one (allowed : Char → Bool)
  | seq (first second : Regex)
  | alt (left right : Regex)
  | star (each : Regex)

namespace Regex

inductive Matches : Regex → List Char → Prop
  | empty : Matches .empty []
  | one (h : allowed c = true) : Matches (.one allowed) [c]
  | seq (hr : Matches r s) (ht : Matches r' t) : Matches (.seq r r') (s ++ t)
  | left (h : Matches r s) : Matches (.alt r r') s
  | right (h : Matches r' s) : Matches (.alt r r') s
  | done : Matches (.star r) []
  | more (hr : Matches r s) (ht : Matches (.star r) t) : Matches (.star r) (s ++ t)

def just (c : Char) : Regex := .one (· == c)

def word : List Char → Regex
  | [] => .empty
  | [c] => just c
  | c :: text => .seq (just c) (word text)

def plus (r : Regex) : Regex := .seq r (.star r)

def opt (r : Regex) : Regex := .alt r .empty

def times : Nat → Regex → Regex
  | 0, _ => .empty
  | n + 1, r => .seq r (times n r)

def nullable : Regex → Bool
  | .never => false
  | .empty => true
  | .one _ => false
  | .seq r s => r.nullable && s.nullable
  | .alt r s => r.nullable || s.nullable
  | .star _ => true

/-- As `seq`, kept small: what cannot match, or matches only the empty text, leaves no trace. -/
def seqOf : Regex → Regex → Regex
  | .never, _ => .never
  | .empty, s => s
  | r, s => .seq r s

def altOf : Regex → Regex → Regex
  | .never, s => s
  | r, .never => r
  | r, s => .alt r s

/-- What must follow `c` for the whole to match. -/
def deriv (c : Char) : Regex → Regex
  | .never => .never
  | .empty => .never
  | .one allowed => if allowed c then .empty else .never
  | .seq r s =>
    if r.nullable then altOf (seqOf (deriv c r) s) (deriv c s) else seqOf (deriv c r) s
  | .alt r s => altOf (deriv c r) (deriv c s)
  | .star r => seqOf (deriv c r) (.star r)

/-- Reads on after `n` characters, of which at best the first `best` have matched. -/
def longestFrom (r : Regex) (n : Nat) (best : Option Nat) (text : List Char) : Option Nat :=
  match r, text with
  | .never, _ => best
  | r, [] => if r.nullable then some n else best
  | r, c :: text => longestFrom (r.deriv c) (n + 1) (if r.nullable then some n else best) text

/-- The length of the longest beginning of `text` that matches. -/
def longest (r : Regex) (text : List Char) : Option Nat := longestFrom r 0 none text

end Regex

end FormCode

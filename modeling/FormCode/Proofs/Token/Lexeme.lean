import FormCode.Proofs.Binary64.Text
import FormCode.Proofs.Text.Literals
import FormCode.Proofs.Token.Scan
import FormCode.Value.Printer

/-! The lexemes that values are written with, each in front of the text that may follow it. -/
namespace FormCode.Token

open Regex

theorem Rule.meaning_eq_atom_iff {rule : Rule} {text : List Char} {a : Atom} :
    rule.meaning text = some (.token (.atom a)) ↔ rule.atom? text = some a := by
  cases rule with
  | blanks | comment | opening bracket | closing bracket | quote =>
    simp [Rule.meaning, Rule.atom?]
  | _ => simp [Rule.meaning]

def ruleOf : Atom → Rule
  | .nil => .nil
  | .bool b => .bool b
  | .int _ => .integer
  | .float _ => .float
  | .string _ => .string
  | .char _ => .char
  | .keyword _ => .keyword
  | .symbol _ => .symbol

theorem eq_ruleOf {rule : Rule} {text : List Char} {a : Atom} (stands : rule.atom? text = some a) :
    rule = ruleOf a := by
  cases rule with
  | blanks | comment | opening bracket | closing bracket | quote => contradiction
  | nil | bool b | float | keyword | symbol =>
    cases stands
    rfl
  | integer | string | char =>
    obtain ⟨_, -, rfl⟩ := Option.map_eq_some_iff.mp stands
    rfl

theorem begins_of_isSkipped {c : Char} (skipped : isSkipped c = true) :
    ∀ r ∈ rules, r ≠ .blanks → begins c r.shape = false := by
  simp only [isSkipped, Bool.or_eq_true, beq_iff_eq] at skipped
  rcases skipped with ((((rfl | rfl) | rfl) | rfl) | rfl) | rfl
  all_goals decide

theorem dropWhile_isSkipped (text : List Char) :
    ∀ d ∈ (text.dropWhile isSkipped).head?, isSkipped d = false := by
  intro d next
  have := List.head?_dropWhile_not isSkipped text
  simpa [Option.mem_def.mp next] using this

theorem piece_blanks {c : Char} {t rest : List Char} (blank : (c :: t).all isSkipped = true)
    (stop : ∀ d ∈ rest.head?, isSkipped d = false) :
    piece (c :: t ++ rest) = .blank (c :: t).length := by
  rw [List.all_eq_true] at blank
  have own : Shape.blanks.Matches (c :: t) := matches_plus_one (by simp) blank
  have ends : Shape.blanks.Ends (c :: t) rest := by
    cases rest with
    | nil => exact .nil _ _
    | cons d rest => exact .of_holds _ _ (by simp [Shape.blanks, plus, holds, stop d rfl])
  have others := begins_of_isSkipped (blank c (by simp))
  have chosen : longestOf rules (c :: t ++ rest) = some ((c :: t).length, .blanks) :=
    longestOf_only (by decide) others own ends
  exact piece_eq_blank_iff.mpr ⟨_, chosen, rfl⟩

theorem piece_fixed {rule : Rule} {c : Char} {token : Token} (member : rule ∈ rules)
    (others : ∀ r ∈ rules, r ≠ rule → begins c r.shape = false) (shape : rule.shape = just c)
    (meant : rule.meaning [c] = some (.token token)) (free : token.needsDelimiter = false)
    (rest : List Char) : piece (c :: rest) = .token 1 token := by
  have own : rule.shape.Matches [c] := by
    rw [shape]
    exact .one (beq_self_eq_true c)
  have ended : rule.shape.derivAll [c] = .empty := by
    simp [shape, just, derivAll, Regex.deriv]
  have chosen : longestOf rules ([c] ++ rest) = some (1, rule) :=
    longestOf_only member others own (.of_derivAll rest ended)
  exact piece_of_chosen chosen meant (by simp [free])

theorem piece_opening (bracket : Bracket) (rest : List Char) :
    piece (bracket.left :: rest) = .token 1 (.opening bracket) := by
  have member : .opening bracket ∈ rules := by cases bracket <;> decide
  have others : ∀ r ∈ rules, r ≠ .opening bracket → begins bracket.left r.shape = false := by
    cases bracket <;> decide
  exact piece_fixed member others rfl rfl rfl rest

theorem piece_closing (bracket : Bracket) (rest : List Char) :
    piece (bracket.right :: rest) = .token 1 (.closing bracket) := by
  have member : .closing bracket ∈ rules := by cases bracket <;> decide
  have others : ∀ r ∈ rules, r ≠ .closing bracket → begins bracket.right r.shape = false := by
    cases bracket <;> decide
  exact piece_fixed member others rfl rfl rfl rest

/-- What may still follow inside a string. -/
def stringRest : Regex := .seq (.star Shape.stringUnit) (just '"')

theorem deriv_stringRest {c : Char} (quote : c ≠ '"') (backslash : c ≠ '\\') :
    stringRest.deriv c = stringRest := by
  simp [stringRest, Shape.stringUnit, just, Regex.deriv, nullable, seqOf, altOf, quote, backslash]

theorem derivAll_stringRest_escaped {c : Char} (feed : c ≠ '\n') :
    stringRest.derivAll ['\\', c] = stringRest := by
  simp [stringRest, Shape.stringUnit, just, derivAll, Regex.deriv, nullable, seqOf, altOf, feed]

theorem derivAll_stringRest (s : List Char) :
    stringRest.derivAll (s.flatMap Text.Quoted.escape) = stringRest := by
  induction s with
  | nil => rfl
  | cons c s ih =>
    have one : stringRest.derivAll (Text.Quoted.escape c) = stringRest := by
      unfold Text.Quoted.escape
      split
      · exact derivAll_stringRest_escaped (by decide)
      · exact derivAll_stringRest_escaped (by decide)
      · exact derivAll_stringRest_escaped (by decide)
      · exact derivAll_stringRest_escaped (by decide)
      · rename_i backslash quote _ _
        exact deriv_stringRest quote backslash
    rw [List.flatMap_cons, derivAll_append, one, ih]

theorem derivAll_string (s : List Char) :
    Shape.string.derivAll (Text.Quoted.encode s) = .empty := by
  have first : Shape.string.deriv '"' = stringRest := rfl
  rw [Text.Quoted.encode, derivAll_cons, first, derivAll_append, derivAll_stringRest]
  rfl

theorem piece_string (s rest : List Char) :
    piece (Text.Quoted.encode s ++ rest) =
      .token (Text.Quoted.encode s).length (.atom (.string (.ofList s))) := by
  have ended := derivAll_string s
  have own : Shape.string.Matches (Text.Quoted.encode s) := by
    rw [matches_iff_nullable, ended]
    rfl
  have chosen : longestOf rules (Text.Quoted.encode s ++ rest) =
      some ((Text.Quoted.encode s).length, .string) :=
    longestOf_only (by decide) (by decide) own (.of_derivAll rest ended)
  have body : ((Text.Quoted.encode s).drop 1).dropLast = s.flatMap Text.Quoted.escape := by
    simp [Text.Quoted.encode]
  have stands : Rule.string.atom? (Text.Quoted.encode s) = some (.string (.ofList s)) := by
    rw [Rule.atom?, body, Text.Quoted.decode_flatMap]
    rfl
  exact piece_of_chosen chosen (Rule.meaning_eq_atom_iff.mpr stands) (by simp [needsDelimiter])

/-- What may follow an atom inside a collection. -/
def isStop (c : Char) : Bool := c == ' ' || c == ',' || c == ')' || c == ']' || c == '\x7d'

def Stops (rest : List Char) : Prop := ∀ c ∈ rest.head?, isStop c = true

theorem Stops.isDelimited {rest : List Char} (h : Stops rest) : isDelimited rest = true := by
  cases rest with
  | nil => rfl
  | cons c rest =>
    have stop := h c rfl
    simp only [isStop, Bool.or_eq_true, beq_iff_eq] at stop
    rcases stop with (((rfl | rfl) | rfl) | rfl) | rfl
    all_goals rfl

/-- The characters that begin blanks, comments, brackets and strings. -/
def breaks : List Char :=
  [' ', '\t', '\r', '\n', '\x0c', ',', '(', ')', '[', ']', '\x7b', '\x7d', ';', '"']

theorem not_mem_of_class {p : Char → Bool} {c : Char} {others : List Char} (h : p c = true)
    (apart : others.any p = false) : c ∉ others := by
  intro member
  rw [List.any_eq_false] at apart
  exact apart c member h

theorem isSkipped_of_not_mem_breaks {c : Char} (plain : c ∉ breaks) : isSkipped c = false := by
  simp only [breaks, List.mem_cons, not_or] at plain
  simp [isSkipped, plain]

def Rule.opensWithBreak : Rule → Bool
  | .blanks | .comment | .opening _ | .closing _ | .string => true
  | _ => false

theorem begins_of_opensWithBreak {c : Char} (plain : c ∉ breaks) {rule : Rule}
    (h : rule.opensWithBreak = true) : begins c rule.shape = false := by
  have unskipped := isSkipped_of_not_mem_breaks plain
  simp only [breaks, List.mem_cons, not_or] at plain
  cases rule with
  | blanks => simp [Rule.shape, Shape.blanks, plus, begins, nullable, unskipped]
  | comment => simp [Rule.shape, Shape.comment, just, begins, nullable, plain]
  | opening bracket | closing bracket =>
    cases bracket <;> simp [Rule.shape, Bracket.left, Bracket.right, just, begins, plain]
  | string => simp [Rule.shape, Shape.string, Shape.openString, just, begins, nullable, plain]
  | _ => contradiction

/-- No rule that begins as an atom does goes on past the end of the atom. Strings are left out. -/
theorem ends_of_not_mem_breaks {c : Char} {t rest : List Char} (plain : c ∉ breaks)
    (stop : Stops rest) : ∀ rule ∈ rules, rule.shape.Ends (c :: t) rest := by
  have inside : ∀ d, isStop d = true →
      ∀ r ∈ rules, r.opensWithBreak = false → holds d r.shape = false := by
    intro d stop
    simp only [isStop, Bool.or_eq_true, beq_iff_eq] at stop
    rcases stop with (((rfl | rfl) | rfl) | rfl) | rfl
    all_goals decide
  intro rule member
  cases rest with
  | nil => exact .nil _ _
  | cons d rest =>
    cases opens : rule.opensWithBreak with
    | true => exact .of_begins _ _ (begins_of_opensWithBreak plain opens)
    | false => exact .of_holds _ _ (inside d (stop d rfl) rule member opens)

/-- A lexeme that is chosen on its own is chosen in front of what may follow an atom. -/
theorem piece_plain {c : Char} {t rest : List Char} {rule : Rule} {token : Token}
    (plain : c ∉ breaks) (stop : Stops rest)
    (chosen : longestOf rules (c :: t) = some ((c :: t).length, rule))
    (meant : rule.meaning (c :: t) = some (.token token)) :
    piece (c :: t ++ rest) = .token (c :: t).length token := by
  rw [← longestOf_append (ends_of_not_mem_breaks plain stop)] at chosen
  exact piece_of_chosen chosen meant fun _ => stop.isDelimited

end FormCode.Token

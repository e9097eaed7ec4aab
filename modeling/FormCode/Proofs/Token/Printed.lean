import Mathlib
import FormCode.Proofs.Token.AtomText

/-! Atoms that were scanned once, printed and scanned again. Each comes back as the same token, but
for the characters that no literal spells directly or by a name that the printer knows, and for
numbers that are not finite. -/
namespace FormCode

/-- The atoms that are printed as the scanner takes them. -/
def Atom.isSpelled : Atom → Bool
  | .float x => x.isFinite
  | .char c => c ∉ ['\r', '\x0c', ',', '(', ')', '[', ']', '\x7b', '\x7d']
  | _ => true

namespace Token

open Regex

theorem readable_of_spelled {a : Atom} (yielded : Yielded a) (spelled : a.isSpelled = true) :
    a.Readable := by
  cases a with
  | float x => exact spelled
  | char c => simpa [Atom.isSpelled, Atom.Readable] using spelled
  | keyword name => exact yielded
  | symbol name => exact yielded
  | _ => trivial

theorem scan_of_piece {text : List Char} {t : Token} (h : piece text = .token text.length t) :
    scan text = .ok [⟨.first, t⟩] := by
  rw [scan, scanFrom_token h, List.drop_length, scanFrom]
  rfl

theorem scan_of_fault {c : Char} {text : List Char} {fault : Fault}
    (h : piece (c :: text) = .fault fault) : scan (c :: text) = .error ⟨.first, fault⟩ := by
  rw [scan, scanFrom, h]

/-- A character that begins no piece at all is to blame alone. -/
theorem piece_of_quiet {c : Char} (quiet : ∀ r ∈ rules, begins c r.shape = false)
    (unquoted : c ≠ '"') (text : List Char) : piece (c :: text) = .fault (.of [c]) := by
  have apart {r : Regex} (other : begins c r = false) (inhabited : r.nullable = false) :
      r.longest (c :: text) = none := by
    rw [longest_eq_none_iff]
    intro m _ matched
    cases m with
    | zero => simp [nullable_iff.mpr matched] at inhabited
    | succ m => simp [begins_of_matches matched] at other
  have chosen : longestOf rules (c :: text) = none :=
    longestOf_eq_none_iff.mpr fun r member => apart (quiet r member) (not_nullable_of_mem member)
  have unopened : Shape.openString.longest (c :: text) = none :=
    apart (by simp [Shape.openString, just, begins, nullable, unquoted]) rfl
  have alone : unmatched (c :: text) = [c] := by
    rw [unmatched, unopened]
    rfl
  rw [piece, chosen, ← alone]

theorem piece_unspelled_char {c : Char} (unspelled : (Atom.char c).isSpelled = false) :
    piece (Text.CharLiteral.encode c) = .fault (.of ['\\']) := by
  simp only [Atom.isSpelled, decide_eq_false_iff_not, not_not, List.mem_cons, List.not_mem_nil,
    or_false] at unspelled
  rcases unspelled with rfl | rfl | rfl | rfl | rfl | rfl | rfl | rfl | rfl
  all_goals rfl

theorem literal_of_infinite {x : Binary64} (infinite : x.isFinite = false) :
    ∃ rest, x.literal = '#' :: rest := by
  have large : Binary64.infinity ≤ x.magnitude := by
    simpa [Binary64.isFinite] using infinite
  unfold Binary64.literal
  split
  · exact ⟨_, rfl⟩
  case isFalse number =>
    have bound : x.magnitude ≤ Binary64.infinity := by simpa [Binary64.isNaN] using number
    rw [if_pos (Nat.le_antisymm bound large)]
    exact ⟨_, rfl⟩

theorem piece_unspelled {a : Atom} (unspelled : a.isSpelled = false) :
    ∃ c text, a.render = c :: text ∧ piece (c :: text) = .fault (.of [c]) := by
  cases a with
  | float x =>
    obtain ⟨rest, written⟩ := literal_of_infinite unspelled
    exact ⟨'#', rest, written, piece_of_quiet (by decide) (by decide) rest⟩
  | char c => exact ⟨'\\', _, rfl, piece_unspelled_char unspelled⟩
  | _ => contradiction

theorem lex_text (a : Atom) : lex (Value.atom a).text =
    (scan a.render).mapError fun fault => .lexing fault.place fault.item.message := by
  rw [lex, Value.text, String.toList_ofList]
  rfl

theorem lex_text_of_unspelled {a : Atom} (unspelled : a.isSpelled = false) :
    lex (Value.atom a).text = .error (.lexing .first (Fault.of (a.render.take 1)).message) := by
  obtain ⟨c, text, written, wrong⟩ := piece_unspelled unspelled
  rw [lex_text, written, scan_of_fault wrong]
  rfl

theorem lex_text_of_readable {a : Atom} (readable : a.Readable) :
    lex (Value.atom a).text = .ok [⟨.first, .atom a⟩] := by
  have taken : piece (a.render ++ []) = .token _ _ := piece_render readable (by simp [Stops])
  rw [List.append_nil] at taken
  rw [lex_text, scan_of_piece taken]
  rfl

/-- An atom that a source consists of is scanned again from its text exactly if it is spelled, and
into the same token. Otherwise the first character of the text is a fault. -/
theorem lex_text_iff_spelled {source : String} {place : Location} {a : Atom}
    (h : lex source = .ok [⟨place, .atom a⟩]) :
    (lex (Value.atom a).text = .ok [⟨.first, .atom a⟩] ↔ a.isSpelled = true) ∧
      (a.isSpelled = false → lex (Value.atom a).text =
        .error (.lexing .first (Fault.of (a.render.take 1)).message)) := by
  refine ⟨⟨fun again => ?_, fun spelled => ?_⟩, lex_text_of_unspelled⟩
  · by_contra unspelled
    rw [lex_text_of_unspelled (Bool.eq_false_of_not_eq_true unspelled)] at again
    contradiction
  · exact lex_text_of_readable (readable_of_spelled ⟨source, place, h⟩ spelled)

/-- A line feed that is written by its code point is printed by its name. -/
theorem lex_text_line_feed :
    lex " \\u000A" = .ok [⟨⟨1, 2⟩, .atom (.char '\n')⟩] ∧
      (Value.atom (.char '\n')).text = "\\newline" ∧
      lex "\\newline" = .ok [⟨.first, .atom (.char '\n')⟩] := by
  have lexed : lex " \\u000A" = .ok [⟨⟨1, 2⟩, .atom (.char '\n')⟩] := by cbv
  have text : (Value.atom (.char '\n')).text = "\\newline" := by decide
  have again := (lex_text_iff_spelled lexed).1.mpr (by decide)
  rw [text] at again
  exact ⟨lexed, text, again⟩

/-- The carriage return has a name that is scanned but never printed; infinity is printed in a way
that is never scanned. -/
theorem lex_text_return_infinity :
    let feed : Atom := .char '\r'
    let large : Atom := .float ⟨0x7FF0000000000000⟩
    (lex "\\return" = .ok [⟨.first, .atom feed⟩] ∧
      lex (Value.atom feed).text ≠ .ok [⟨.first, .atom feed⟩]) ∧
    (lex "1e999" = .ok [⟨.first, .atom large⟩] ∧
      lex (Value.atom large).text ≠ .ok [⟨.first, .atom large⟩]) := by
  intro feed large
  have unnamed : feed.isSpelled = false := by decide
  have infinite : large.isSpelled = false := by decide
  refine ⟨⟨by cbv, ?_⟩, ⟨by cbv, ?_⟩⟩
  · rw [lex_text_of_unspelled unnamed]
    simp
  · rw [lex_text_of_unspelled infinite]
    simp

end Token

end FormCode

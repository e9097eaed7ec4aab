import FormCode.Proofs.Numeral.Digits
import FormCode.Text.CharQuote

/-! Quoted characters can be told apart, and no quote breaks its line. -/
namespace FormCode.Text.CharQuote

open Numeral

def ofLetter : Char → Char
  | '0' => '\x00'
  | 't' => '\t'
  | 'r' => '\r'
  | 'n' => '\n'
  | c => c

/-- The character that an escape stands for. Its length tells which kind of escape it is. -/
def unescape : List Char → Char
  | [c] => c
  | [_, letter] => ofLetter letter
  | text => .ofNat (ofHexDigits (text.drop 3).dropLast)

theorem unescape_codePoint (c : Char) : unescape (codePoint c) = c := by
  have digits : unescape (codePoint c) =
      .ofNat (ofHexDigits (Nat.toDigits 16 c.toNat ++ ['\x7d']).dropLast) := rfl
  rw [digits, List.dropLast_concat, ofHexDigits_toDigits, Char.ofNat_toNat]

theorem unescape_escape (c : Char) : unescape (escape c) = c := by
  unfold escape
  split
  · rfl
  · rfl
  · rfl
  · rfl
  · rfl
  · rfl
  · split
    · exact unescape_codePoint _
    · rfl

theorem encode_injective {c d : Char} (same : encode c = encode d) : c = d := by
  have bodies : escape c = escape d := List.append_cancel_right (List.cons.inj same).2
  rw [← unescape_escape c, bodies, unescape_escape]

theorem not_mem_codePoint (c : Char) : '\n' ∉ codePoint c := by
  intro member
  have digit : '\n' ∈ Nat.toDigits 16 c.toNat := by simpa [codePoint] using member
  have := isHexDigit_of_mem_toDigits digit
  contradiction

theorem not_mem_escape (c : Char) : '\n' ∉ escape c := by
  unfold escape
  split
  case h_7 plain _ _ =>
    split
    · exact not_mem_codePoint _
    · exact fun member => plain (List.mem_singleton.mp member).symm
  all_goals decide

theorem not_mem_encode (c : Char) : '\n' ∉ encode c := by
  simp [encode, not_mem_escape c]

end FormCode.Text.CharQuote

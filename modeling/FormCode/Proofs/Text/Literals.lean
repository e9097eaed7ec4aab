import FormCode.Text.CharLiteral
import FormCode.Text.Quoted

/-! String and character literals read back. -/
namespace FormCode.Text

namespace Quoted

theorem decodeOnto_plain (done : List Char) {c : Char} (plain : c ≠ '\\') (body : List Char) :
    decodeOnto done (c :: body) = decodeOnto (c :: done) body := by
  rw [decodeOnto]
  · intro same
    exact absurd same plain
  · intro _ _ same
    exact absurd same plain

theorem decodeOnto_escape (done : List Char) (c : Char) (body : List Char) :
    decodeOnto done (escape c ++ body) = decodeOnto (c :: done) body := by
  unfold escape
  split
  · rfl
  · rfl
  · rfl
  · rfl
  · rename_i plain _ _ _
    exact decodeOnto_plain done plain body

theorem decodeOnto_flatMap (done s : List Char) :
    decodeOnto done (s.flatMap escape) = some (done.reverse ++ s) := by
  induction s generalizing done with
  | nil => simp [decodeOnto]
  | cons c s ih => rw [List.flatMap_cons, decodeOnto_escape, ih]; simp

theorem decode_flatMap (s : List Char) : decode (s.flatMap escape) = some s :=
  decodeOnto_flatMap [] s

end Quoted

namespace CharLiteral

theorem decode_single (c : Char) : decode [c] = some c := by
  have unnamed : names.lookup [c] = none := List.lookup_eq_none_iff.mpr (by simp [names])
  simp [decode, unnamed]

theorem decode_encode (c : Char) : decode ((encode c).drop 1) = some c := by
  unfold encode
  split
  · rfl
  · rfl
  · rfl
  · exact decode_single _

end CharLiteral

end FormCode.Text

import Mathlib
import FormCode.Command.Report
import FormCode.Proofs.Reader.Closure
import FormCode.Proofs.Token.Places

/-! Where errors stand. A fault of the reader stands at a token or at the end of the input, because
the frames hold the places of opening brackets and nothing else. So every error in a source that is
not empty stands on a line of it, and is shown there. -/
namespace FormCode

namespace Reader

variable {P : Location → Prop}

def Frame.Placed (P : Location → Prop) : Frame → Prop
  | .quote => True
  | .collection _ place _ => P place

def Step.Placed (P : Location → Prop) : Step → Prop
  | .more frames => ∀ frame ∈ frames, frame.Placed P
  | .form _ => True
  | .fault wrong => P wrong.place
  | .tooDeep => True

theorem deliver_placed (form : Value) {frames : List Frame}
    (placed : ∀ frame ∈ frames, frame.Placed P) : (deliver form frames).Placed P := by
  fun_induction deliver form frames with
  | case1 => trivial
  | case2 form frames ih => exact ih (List.forall_mem_cons.mp placed).2
  | case3 form bracket place items frames =>
    rw [List.forall_mem_cons] at placed
    exact List.forall_mem_cons.mpr placed

theorem step_placed {frames : List Frame} {token : Located Token}
    (placed : ∀ frame ∈ frames, frame.Placed P) (stands : P token.place) :
    (step frames token).Placed P := by
  unfold step
  split
  case h_1 bracket place items outer isClosed =>
    obtain ⟨found, rfl, -, -⟩ := closed?_eq_some isClosed
    rw [List.forall_mem_cons] at placed
    split
    case h_1 form made => exact deliver_placed form placed.2
    case h_2 => exact placed.1
  case h_2 =>
    split
    case isTrue => trivial
    case isFalse =>
      unfold enter
      split
      case h_1 => exact deliver_placed _ placed
      case h_2 => exact List.forall_mem_cons.mpr ⟨trivial, placed⟩
      case h_3 => exact List.forall_mem_cons.mpr ⟨stands, placed⟩
      case h_4 => exact stands

theorem readFrom_fault_place {finish : Location} {frames : List Frame}
    {tokens : List (Located Token)} {fault : Located Fault} (ends : P finish)
    (placed : ∀ frame ∈ frames, frame.Placed P) (stand : ∀ token ∈ tokens, P token.place)
    (h : (readFrom finish frames tokens).1 = .error fault) : P fault.place := by
  induction tokens generalizing frames with
  | nil =>
    cases h
    exact ends
  | cons token tokens ih =>
    rw [List.forall_mem_cons] at stand
    have stepped := step_placed placed stand.1
    rw [readFrom] at h
    split at h
    case h_1 frames more =>
      rw [more] at stepped
      exact ih stepped stand.2 h
    case h_2 => contradiction
    case h_3 wrong failed =>
      rw [failed] at stepped
      cases h
      exact stepped
    case h_4 =>
      cases h
      exact stand.1

theorem readFrom_rest_suffix (finish : Location) (frames : List Frame)
    (tokens : List (Located Token)) : (readFrom finish frames tokens).2 <:+ tokens := by
  induction tokens generalizing frames with
  | nil => exact List.suffix_refl _
  | cons token tokens ih =>
    rw [readFrom]
    split
    case h_1 => exact (ih _).trans (List.suffix_cons ..)
    case h_2 => exact List.suffix_cons ..
    case h_3 => exact List.suffix_cons ..
    case h_4 => exact List.suffix_refl _

theorem next_fault_place {r : Reader} {fault : Located Fault} (ends : P r.finish)
    (stand : ∀ token ∈ r.tokens, P token.place) (h : r.next.1 = .error fault) : P fault.place :=
  readFrom_fault_place ends (by simp) stand h

theorem allFrom_fault_place {r : Reader} {found : List Value} {fault : Located Fault}
    (ends : P r.finish) (stand : ∀ token ∈ r.tokens, P token.place)
    (h : r.allFrom found = .error fault) : P fault.place := by
  fun_induction allFrom r found with
  | case1 => contradiction
  | case2 r found notEnd _ next form read ih =>
    refine ih ends (fun token member => stand token ?_) h
    exact (readFrom_rest_suffix r.finish [] r.tokens).subset member
  | case3 r found notEnd _ next wrong failed =>
    cases h
    exact next_fault_place ends stand failed

end Reader

namespace Command

/-- A line beside its number, with a caret under the column. -/
def marked (place : Location) (line : List Char) : String :=
  let number := toString place.line
  let gutter := String.ofList (List.replicate number.length ' ')
  let indent := String.ofList (List.replicate (place.column - 1) ' ')
  gutter ++ " |\n" ++ number ++ " | " ++ .ofList line ++ "\n" ++ gutter ++ " | " ++ indent ++ "^\n"

/-- The error stands on that line of the source, and its report shows the line with a caret under
one of its characters or right behind the last. -/
structure Shows (error : Error) (source : String) (place : Location) (line : List Char) :
    Prop where
  stands : error.place? = some place
  on : Text.OnLine source.toList place line
  report : ∀ shown, explain error source shown =
    s!"error: {error.text}\n  --> {shown}:{place.text}\n" ++ marked place line

theorem shows_of_onLine {error : Error} {source : String} {place : Location} {line : List Char}
    (stands : error.place? = some place) (on : Text.OnLine source.toList place line) :
    Shows error source place line := by
  refine ⟨stands, on, fun shown => ?_⟩
  simp only [explain, stands, excerpt, on.found]
  rfl

end Command

namespace Reader

open Token (lex Reaches piece Scans)

theorem token_onLine {source : String} {tokens : List (Located Token)}
    (lexed : lex source = .ok tokens) {token : Located Token} (member : token ∈ tokens) :
    (∃ line, Text.OnLine source.toList token.place line) ∧
      token.place.Before (Text.endOf source.toList) := by
  obtain ⟨i, at_i⟩ := List.mem_iff_getElem?.mp member
  obtain ⟨before, rest, n, reaches, taken, stands⟩ := (Token.lex_places lexed).1 i token at_i
  obtain ⟨c, text, rfl⟩ := Token.exists_cons_of_piece taken
  rw [stands]
  exact reaches.onLine fun m blank => by cases taken.symm.trans blank

theorem error_cases {source : String} {error : Error}
    (failed : readFirst source = .error error ∨ readAll source = .error error) :
    lex source = .error error ∨ ∃ tokens fault, lex source = .ok tokens ∧ error = report fault ∧
      ∀ P : Location → Prop, P (Text.endOf source.toList) → (∀ token ∈ tokens, P token.place) →
        P fault.place := by
  cases lexed : lex source with
  | error e =>
    simp only [readFirst, readAll, ofSource, lexed] at failed
    rcases failed with failed | failed
    · cases failed
      exact .inl rfl
    · cases failed
      exact .inl rfl
  | ok tokens =>
    simp only [readFirst, readAll, ofSource, lexed] at failed
    rcases failed with failed | failed
    · obtain ⟨fault, wrong, rfl⟩ := mapError_eq_error.mp failed
      exact .inr ⟨tokens, fault, rfl, rfl, fun P ends stand => next_fault_place ends stand wrong⟩
    · obtain ⟨fault, wrong, rfl⟩ := mapError_eq_error.mp failed
      exact .inr ⟨tokens, fault, rfl, rfl, fun P ends stand => allFrom_fault_place ends stand wrong⟩

theorem error_shown {source : String} (some_text : source ≠ "") {error : Error}
    (failed : readFirst source = .error error ∨ readAll source = .error error) :
    ∃ place line, Command.Shows error source place line := by
  have some_chars : source.toList ≠ [] := by simpa using some_text
  rcases error_cases failed with unlexed | ⟨tokens, fault, lexed, rfl, stands⟩
  · obtain ⟨tokens, before, c, rest, fault, reaches, wrong, rfl⟩ := Token.lex_error_place unlexed
    obtain ⟨⟨line, on⟩, -⟩ := reaches.onLine fun n blank => by
      cases wrong.symm.trans blank
    exact ⟨_, line, Command.shows_of_onLine rfl on⟩
  · obtain ⟨last, ends, -⟩ := Text.endOf_onLine some_chars
    obtain ⟨line, on⟩ := stands (fun place => ∃ line, Text.OnLine source.toList place line)
      ⟨last, ends⟩ fun token member => (token_onLine lexed member).1
    exact ⟨_, line, Command.shows_of_onLine rfl on⟩

/-- Places are exact and inside the source. Tokens and lexing errors have the places that are
counted from the text before them, tokens in strictly increasing order, and the end of the source
comes after all of them. Every error in a source that is not empty is shown on a line of it. -/
theorem places_exact (source : String) :
    (∀ tokens, lex source = .ok tokens →
      (∀ (i : Nat) (token : Located Token), tokens[i]? = some token → ∃ before rest n,
        Reaches source.toList ((tokens.take i).map Located.item) before rest ∧
          piece rest = .token n token.item ∧ token.place = .behind before) ∧
      tokens.Pairwise fun t u => t.place.Before u.place) ∧
    (∀ error, lex source = .error error → ∃ tokens before c rest fault,
      Reaches source.toList tokens before (c :: rest) ∧ piece (c :: rest) = .fault fault ∧
        error = .lexing (.behind before) fault.message) ∧
    (∀ r, ofSource source = .ok r → ∀ token ∈ r.tokens, token.place.Before r.finish) ∧
    (source ≠ "" → ∀ error, readFirst source = .error error ∨ readAll source = .error error →
      ∃ place line, Command.Shows error source place line) := by
  refine ⟨fun tokens lexed => Token.lex_places lexed, fun error => Token.lex_error_place, ?_,
    fun some_text error failed => error_shown some_text failed⟩
  intro r opened
  obtain ⟨tokens, lexed, rfl⟩ := map_eq_ok.mp opened
  exact fun token member => (token_onLine lexed member).2

/-- A carriage return, and a string over two lines. The input ends behind the last character, not
behind the last line end. -/
theorem places_exact_lines :
    let source := "[b\r\n \"λ\nλ\" c\r\n"
    let tokens : List (Located Token) := [⟨⟨1, 1⟩, .opening .square⟩,
      ⟨⟨1, 2⟩, .atom (.symbol "b")⟩, ⟨⟨2, 2⟩, .atom (.string "λ\nλ")⟩,
      ⟨⟨3, 4⟩, .atom (.symbol "c")⟩]
    let error := report ⟨⟨3, 5⟩, .endInside 1⟩
    lex source = .ok tokens ∧ (tokens.Pairwise fun t u => t.place.Before u.place) ∧
      readFirst source = .error error ∧ ∃ place line, Command.Shows error source place line := by
  intro source tokens error
  have lexed : lex source = .ok tokens := by cbv
  have ends : Text.endOf source.toList = ⟨3, 5⟩ := by cbv
  have failed : readFirst source = .error error := by
    rw [readFirst, ofSource, lexed, ends]
    rfl
  obtain ⟨places, -, -, shown⟩ := places_exact source
  exact ⟨lexed, (places tokens lexed).2, failed, shown (by decide) error (.inl failed)⟩

end Reader

end FormCode

import FormCode.Proofs.Except
import FormCode.Reader

/-! Properties of every form that can be read. A property that atoms have, and that collections
have once their items do, holds of all values that come out of a reader. -/
namespace FormCode.Reader

/-- Forms are built with the property: from atoms, and from items that have it. -/
structure Closed (P : Value → Prop) : Prop where
  atom : ∀ a, P (.atom a)
  list : ∀ items, (∀ x ∈ items, P x) → P (.list items)
  vector : ∀ items, (∀ x ∈ items, P x) → P (.vector items)
  map : ∀ entries, (∀ e ∈ entries, P e.1 ∧ P e.2) →
    Value.firstRepeat? (entries.map Prod.fst) = none → P (.map entries)

def Frame.Holds (P : Value → Prop) : Frame → Prop
  | .quote => True
  | .collection _ _ items => ∀ x ∈ items, P x

def Step.Holds (P : Value → Prop) : Step → Prop
  | .more frames => ∀ frame ∈ frames, frame.Holds P
  | .form read => P read
  | .fault _ => True
  | .tooDeep => True

theorem closed?_eq_some {token : Token} {frames outer : List Frame} {bracket : Bracket}
    {place : Location} {items : List Value}
    (h : closed? token frames = some (bracket, place, items, outer)) :
    ∃ found, frames = .collection bracket place found :: outer ∧ items = found.reverse ∧
      token = .closing bracket := by
  unfold closed? at h
  split at h
  case h_1 =>
    split at h
    case isTrue closing =>
      cases h
      exact ⟨_, rfl, rfl, closing⟩
    case isFalse => contradiction
  case h_2 => contradiction

variable {P : Value → Prop} (closed : Closed P)

theorem pairs?_mem {items : List Value} {entries : List (Value × Value)}
    (h : pairs? items = some entries) : ∀ e ∈ entries, e.1 ∈ items ∧ e.2 ∈ items := by
  fun_induction pairs? items generalizing entries with
  | case1 => cases h; simp
  | case2 => contradiction
  | case3 k v items ih =>
    obtain ⟨others, paired, rfl⟩ := Option.map_eq_some_iff.mp h
    intro e member
    rcases List.mem_cons.mp member with rfl | member
    · simp
    · obtain ⟨key, value⟩ := ih paired e member
      simp [key, value]

include closed

theorem collect_holds {bracket : Bracket} {items : List Value} {form : Value}
    (items_hold : ∀ x ∈ items, P x) (h : collect bracket items = .ok form) : P form := by
  unfold collect at h
  split at h
  · cases h; exact closed.list items items_hold
  · cases h; exact closed.vector items items_hold
  · split at h
    case h_1 => contradiction
    case h_2 entries paired =>
      split at h
      case h_1 => contradiction
      case h_2 distinct =>
        cases h
        refine closed.map entries (fun e member => ?_) distinct
        obtain ⟨key, value⟩ := pairs?_mem paired e member
        exact ⟨items_hold e.1 key, items_hold e.2 value⟩

theorem deliver_holds {form : Value} {frames : List Frame} (form_holds : P form)
    (frames_hold : ∀ frame ∈ frames, frame.Holds P) : (deliver form frames).Holds P := by
  fun_induction deliver form frames with
  | case1 form => exact form_holds
  | case2 form frames ih =>
    refine ih (closed.list _ ?_) fun frame member => frames_hold frame (List.mem_cons_of_mem _ member)
    simpa using ⟨closed.atom _, form_holds⟩
  | case3 form bracket place items frames =>
    intro frame member
    rcases List.mem_cons.mp member with rfl | member
    · have items_hold := frames_hold _ (List.mem_cons_self ..)
      intro x inside
      rcases List.mem_cons.mp inside with rfl | inside
      · exact form_holds
      · exact items_hold x inside
    · exact frames_hold frame (List.mem_cons_of_mem _ member)

theorem enter_holds {frames : List Frame} {place : Location} {token : Token}
    (frames_hold : ∀ frame ∈ frames, frame.Holds P) : (enter frames place token).Holds P := by
  cases token with
  | atom a => exact deliver_holds closed (closed.atom a) frames_hold
  | quote => simpa [enter, Step.Holds, Frame.Holds] using frames_hold
  | opening bracket => simpa [enter, Step.Holds, Frame.Holds] using frames_hold
  | closing bracket => trivial

theorem step_holds {frames : List Frame} (token : Located Token)
    (frames_hold : ∀ frame ∈ frames, frame.Holds P) : (step frames token).Holds P := by
  unfold step
  split
  case h_1 bracket place items outer isClosed =>
    obtain ⟨found, rfl, rfl, -⟩ := closed?_eq_some isClosed
    split
    case h_1 form collected =>
      have items_hold := frames_hold _ (List.mem_cons_self ..)
      refine deliver_holds closed (collect_holds closed (fun x inside => ?_) collected) ?_
      · exact items_hold x (List.mem_reverse.mp inside)
      · exact fun frame member => frames_hold frame (List.mem_cons_of_mem _ member)
    case h_2 => trivial
  case h_2 =>
    split
    · trivial
    · exact enter_holds closed frames_hold

theorem readFrom_holds {finish : Location} {frames : List Frame} {tokens : List (Located Token)}
    {form : Value} (frames_hold : ∀ frame ∈ frames, frame.Holds P)
    (h : (readFrom finish frames tokens).1 = .ok form) : P form := by
  induction tokens generalizing frames with
  | nil => cases h
  | cons token tokens ih =>
    have holds := step_holds closed token frames_hold
    unfold readFrom at h
    split at h
    case h_1 next stepped =>
      rw [stepped] at holds
      exact ih holds h
    case h_2 read stepped =>
      rw [stepped] at holds
      cases h
      exact holds
    case h_3 => cases h
    case h_4 => cases h

theorem next_holds {r : Reader} {form : Value} (h : r.next.1 = .ok form) : P form :=
  readFrom_holds closed (by simp) h

theorem allFrom_holds {r : Reader} {found forms : List Value} (found_hold : ∀ x ∈ found, P x)
    (h : r.allFrom found = .ok forms) : ∀ x ∈ forms, P x := by
  fun_induction allFrom r found with
  | case1 r found atEnd =>
    cases h
    exact fun x inside => found_hold x (List.mem_reverse.mp inside)
  | case2 r found notEnd _ next form read ih =>
    refine ih (fun x inside => ?_) h
    rcases List.mem_cons.mp inside with rfl | inside
    · exact next_holds closed read
    · exact found_hold x inside
  | case3 => cases h

theorem readAll_holds {source : String} {forms : List Value} (h : readAll source = .ok forms) :
    ∀ x ∈ forms, P x := by
  obtain ⟨r, _, read⟩ := bind_eq_ok.mp h
  exact allFrom_holds closed (by simp) (mapError_eq_ok.mp read)

omit closed

theorem reverse_prefix_allFrom {r : Reader} {found forms : List Value}
    (h : r.allFrom found = .ok forms) : found.reverse <+: forms := by
  fun_induction allFrom r found with
  | case1 => cases h; exact List.prefix_refl _
  | case2 r found notEnd _ next form read ih =>
    rw [List.reverse_cons] at ih
    exact (List.prefix_append ..).trans (ih h)
  | case3 => cases h

theorem readFirst_of_readAll {source : String} {form : Value}
    (h : readAll source = .ok [form]) : readFirst source = .ok form := by
  obtain ⟨r, opened, read⟩ := bind_eq_ok.mp h
  have all := mapError_eq_ok.mp read
  refine bind_eq_ok.mpr ⟨r, opened, mapError_eq_ok.mpr ?_⟩
  rw [Reader.all, allFrom] at all
  split at all
  · cases all
  · dsimp only at all
    split at all
    case h_1 first firstRead =>
      have begins := reverse_prefix_allFrom all
      obtain rfl : first = form := by simpa using begins
      exact firstRead
    case h_2 => cases all

end FormCode.Reader

import FormCode.Proofs.Except
import FormCode.Storage.Files

/-! What storage may promise, and that files keep it. A write that succeeds replaces what its path
leads to and nothing else, and the path leads there still, because directories stay directories. -/
namespace FormCode

section Promises

variable {σ : Type} {storage : Storage (StateM σ)}

/-- Reading changes nothing, and a write that fails changes nothing. -/
structure Storage.AllOrNothing (storage : Storage (StateM σ)) : Prop where
  read : ∀ path s, (storage.read path s).2 = s
  write : ∀ path content s fault, (storage.write path content s).1 = .error fault →
    (storage.write path content s).2 = s

def Storage.ReadsBack (storage : Storage (StateM σ)) : Prop :=
  ∀ path content s after, storage.write path content s = (.ok (), after) →
    (storage.read path after).1 = .ok content

theorem Storage.AllOrNothing.readText (safe : storage.AllOrNothing) (path : String) (s : σ) :
    (storage.readText path s).2 = s := by
  have same := safe.read path s
  cases read : storage.read path s with
  | mk result after =>
    rw [read] at same
    simp only [Storage.readText, bind, StateT.bind, read]
    cases result with
    | error fault => exact same
    | ok bytes =>
      cases decoded : String.fromUTF8? bytes
      all_goals
        simp only [decoded]
        exact same

end Promises

namespace Files

variable {files after : Files} {here place : List String} {path : String} {content : ByteArray}

theorem lookup_filter {α β : Type} [BEq α] [LawfulBEq α] {key other : α} (h : key ≠ other)
    (entries : List (α × β)) :
    (entries.filter (·.1 != other)).lookup key = entries.lookup key := by
  induction entries with
  | nil => rfl
  | cons entry entries ih =>
    obtain ⟨k, v⟩ := entry
    by_cases dropped : k = other
    · subst dropped
      have apart : (key == k) = false := beq_eq_false_iff_ne.mpr h
      simp [List.lookup_cons, apart, ih]
    · simp [List.lookup_cons, dropped, ih]

theorem find?_put (files : Files) (place : List String) (content : ByteArray) :
    (files.put place content).find? place = some content := by
  simp [find?, put]

theorem find?_put_of_ne (files : Files) {other : List String} (content : ByteArray)
    (h : other ≠ place) : (files.put place content).find? other = files.find? other := by
  have unequal : (other == place) = false := beq_eq_false_iff_ne.mpr h
  simp only [find?, put, List.lookup_cons, unequal]
  exact lookup_filter h files.entries

/-- If the file that is replaced was what made a directory, the new one makes it again. -/
theorem isDirectory_put {directory : List String} (place : List String) (content : ByteArray)
    (h : files.isDirectory here directory = true) :
    (files.put place content).isDirectory here directory = true := by
  simp only [isDirectory, Bool.or_eq_true, List.any_eq_true] at h ⊢
  refine h.imp_right ?_
  rintro ⟨entry, member, below⟩
  by_cases replaced : entry.1 = place
  · exact ⟨(place, content), List.mem_cons_self .., replaced ▸ below⟩
  · refine ⟨entry, List.mem_cons_of_mem _ (List.mem_filter.mpr ⟨member, ?_⟩), below⟩
    exact bne_iff_ne.mpr replaced

theorem enter_eq_ok :
    files.enter here place = .ok () ↔ files.isDirectory here place = true := by
  unfold enter
  split
  case isTrue directory => simp [directory]
  case isFalse other =>
    refine iff_of_false ?_ other
    split <;> simp

theorem step_put {start next : List String} {name : String} (place : List String)
    (content : ByteArray) (h : files.step here start name = .ok next) :
    (files.put place content).step here start name = .ok next := by
  obtain ⟨_, entered, rest⟩ := bind_eq_ok.mp h
  have directory := isDirectory_put place content (enter_eq_ok.mp entered)
  exact bind_eq_ok.mpr ⟨(), enter_eq_ok.mpr directory, rest⟩

theorem foldlM_step_put {names start last : List String} (place : List String)
    (content : ByteArray) (h : names.foldlM (files.step here) start = .ok last) :
    names.foldlM ((files.put place content).step here) start = .ok last := by
  induction names generalizing start with
  | nil => exact h
  | cons name names ih =>
    rw [List.foldlM_cons] at h ⊢
    obtain ⟨next, stepped, rest⟩ := bind_eq_ok.mp h
    exact bind_eq_ok.mpr ⟨next, step_put place content stepped, ih rest⟩

/-- After a file has been put somewhere every path leads where it led before. -/
theorem locate_put {leads : List String} (place : List String) (content : ByteArray)
    (h : files.locate here path = .ok leads) :
    (files.put place content).locate here path = .ok leads := by
  obtain ⟨start, begins, followed⟩ := bind_eq_ok.mp h
  exact bind_eq_ok.mpr ⟨start, begins, foldlM_step_put place content followed⟩

theorem write_eq_ok (h : files.write here path content = .ok after) :
    ∃ place, Path.endsInSlash path = false ∧ files.locate here path = .ok place ∧
      after = files.put place content := by
  unfold write at h
  cases slash : Path.endsInSlash path with
  | true =>
    simp only [slash, if_true] at h
    obtain ⟨_, _, h⟩ := bind_eq_ok.mp h
    obtain ⟨_, _, h⟩ := bind_eq_ok.mp h
    obtain ⟨_, _, h⟩ := bind_eq_ok.mp h
    contradiction
  | false =>
    simp only [slash, Bool.false_eq_true, if_false] at h
    obtain ⟨place, leads, h⟩ := bind_eq_ok.mp h
    split at h
    case isTrue => contradiction
    case isFalse =>
      cases h
      exact ⟨place, rfl, leads, rfl⟩

theorem read_of_write (h : files.write here path content = .ok after) :
    after.read here path = .ok content := by
  obtain ⟨place, plain, leads, rfl⟩ := write_eq_ok h
  refine bind_eq_ok.mpr ⟨place, locate_put place content leads, ?_⟩
  simp only [plain, Bool.false_eq_true, if_false, find?_put]
  rfl

theorem write_of_storage
    (h : (storage here).write path content files = (.ok (), after)) :
    files.write here path content = .ok after := by
  simp only [storage] at h
  split at h
  case h_1 written =>
    cases h
    exact written
  case h_2 => cases h

theorem storage_allOrNothing (here : List String) : (storage here).AllOrNothing where
  read _ _ := rfl
  write path content files fault failed := by
    simp only [storage] at failed ⊢
    split at failed
    case h_1 => contradiction
    case h_2 => rfl

theorem storage_readsBack (here : List String) : (storage here).ReadsBack :=
  fun _ _ _ _ written => read_of_write (write_of_storage written)

end Files

end FormCode

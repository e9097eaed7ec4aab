import FormCode.Proofs.Code.Interning
import FormCode.Proofs.Value.Distinct

/-! A table of constants that is filled by one call after the other holds the first occurrences of
the values, and the slots number them in the order in which they came. Equality is no equivalence
on values whose maps repeat a key, so the values here have none. -/
namespace FormCode.Code

section FirstOccurrences

variable {α : Type}

theorem getElem?_of_begins {xs ys : List α} (begins : xs <+: ys) {i : Nat} {x : α}
    (h : xs[i]? = some x) : ys[i]? = some x := by
  obtain ⟨bound, rfl⟩ := List.getElem?_eq_some_iff.mp h
  exact List.prefix_iff_getElem?.mp begins i bound

theorem eraseDupsBy_loop_concat (r : α → α → Bool) (xs seen : List α) (x : α) :
    List.eraseDupsBy.loop r (xs ++ [x]) seen =
      if (List.eraseDupsBy.loop r xs seen).any (r x) then List.eraseDupsBy.loop r xs seen
      else List.eraseDupsBy.loop r xs seen ++ [x] := by
  induction xs generalizing seen with
  | nil => cases known : seen.any (r x) <;> simp [List.eraseDupsBy.loop, known]
  | cons y xs ih =>
    cases known : seen.any (r y) with
    | true =>
      simp only [List.cons_append, List.eraseDupsBy.loop, known]
      exact ih seen
    | false =>
      simp only [List.cons_append, List.eraseDupsBy.loop, known]
      exact ih (y :: seen)

variable [BEq α]

theorem eraseDups_concat (xs : List α) (x : α) : (xs ++ [x]).eraseDups =
    if xs.eraseDups.any (x == ·) then xs.eraseDups else xs.eraseDups ++ [x] :=
  eraseDupsBy_loop_concat ..

theorem eraseDups_begins (xs ys : List α) : xs.eraseDups <+: (xs ++ ys).eraseDups := by
  induction ys generalizing xs with
  | nil => simp
  | cons y ys ih =>
    have first : xs.eraseDups <+: (xs ++ [y]).eraseDups := by
      rw [eraseDups_concat]
      split
      · exact List.prefix_refl _
      · exact List.prefix_append ..
    have others := ih (xs ++ [y])
    rw [List.append_assoc] at others
    exact first.trans others

theorem mem_of_mem_eraseDups {xs : List α} {x : α} (member : x ∈ xs.eraseDups) : x ∈ xs := by
  induction xs using List.reverseRecOn with
  | nil => simp at member
  | append_singleton xs y ih =>
    rw [eraseDups_concat] at member
    split at member
    · exact List.mem_append_left _ (ih member)
    · exact List.mem_append.mpr ((List.mem_append.mp member).imp_left ih)

theorem pairwise_eraseDups (xs : List α) :
    xs.eraseDups.Pairwise fun x y => (y == x) = false := by
  induction xs using List.reverseRecOn with
  | nil => simp
  | append_singleton xs y ih =>
    rw [eraseDups_concat]
    split
    case isTrue => exact ih
    case isFalse unknown =>
      rw [List.any_eq_true, not_exists] at unknown
      refine List.pairwise_append.mpr ⟨ih, List.pairwise_singleton .., fun x member z last => ?_⟩
      rw [List.mem_singleton.mp last]
      simpa [member] using unknown x

end FirstOccurrences

/-- What each step returns and leaves behind, if none of them fails. -/
def history {α β σ : Type} (step : σ → α → Option (β × σ)) (s : σ) :
    List α → Option (List (β × σ))
  | [] => some []
  | x :: xs => (step s x).bind fun call => (history step call.2 xs).map (call :: ·)

namespace Constants

theorem intern?_known (table : Constants) {value : Value}
    (known : table.values.any value.alike = true) :
    table.intern? value = (Slot.ofNat? (table.indexOf value)).map (·, table) := by
  have inside : table.indexOf value < table.size :=
    List.findIdx_lt_length.mpr (List.any_eq_true.mp known)
  simp only [intern?, if_pos inside]

theorem intern?_unknown (table : Constants) {value : Value}
    (unknown : table.values.any value.alike = false) :
    table.intern? value = (Slot.ofNat? table.size).map (·, ⟨table.values ++ [value]⟩) := by
  have outside : table.indexOf value = table.size :=
    List.findIdx_eq_length.mpr (by simpa using unknown)
  rw [intern?, outside]
  simp only [if_neg (Nat.lt_irrefl _)]

theorem any_alike {values : List Value} {value : Value} (distinct : value.Distinct)
    (each : ∀ v ∈ values, v.Distinct) : values.any value.alike = values.any (value == ·) := by
  rw [Bool.eq_iff_iff, List.any_eq_true, List.any_eq_true]
  exact exists_congr fun v => and_congr_right fun member =>
    (Value.same_iff_alike distinct (each v member)).symm

theorem exists_intern?_eraseDups {seen : List Value} {value : Value}
    (each : ∀ v ∈ seen ++ [value], v.Distinct)
    (room : (seen ++ [value]).eraseDups.length ≤ UInt32.size) :
    ∃ slot, intern? ⟨seen.eraseDups⟩ value = some (slot, ⟨(seen ++ [value]).eraseDups⟩) := by
  have distinct : value.Distinct := each value (by simp)
  have earlier : ∀ v ∈ seen.eraseDups, v.Distinct := fun v member =>
    each v (List.mem_append_left _ (mem_of_mem_eraseDups member))
  have alike := any_alike distinct earlier
  have fits {n : Nat} (bound : n < UInt32.size) : ∃ slot, Slot.ofNat? n = some slot :=
    ⟨_, if_pos bound⟩
  rw [eraseDups_concat] at room ⊢
  by_cases known : seen.eraseDups.any (value == ·) = true
  · rw [if_pos known] at room ⊢
    rw [← alike] at known
    have inside : indexOf ⟨seen.eraseDups⟩ value < seen.eraseDups.length :=
      List.findIdx_lt_length.mpr (List.any_eq_true.mp known)
    obtain ⟨slot, given⟩ := fits (Nat.lt_of_lt_of_le inside room)
    exact ⟨slot, by rw [intern?_known ⟨seen.eraseDups⟩ known, given, Option.map_some]⟩
  · rw [if_neg known] at room ⊢
    rw [← alike, Bool.not_eq_true] at known
    rw [List.length_append, List.length_singleton] at room
    obtain ⟨slot, given⟩ := fits room
    exact ⟨slot, by rw [intern?_unknown ⟨seen.eraseDups⟩ known, size, given, Option.map_some]⟩

/-- After the values `seen`, each call finds the first occurrences of all that came before it and
leaves them with its own value behind. -/
structure Fills (seen values : List Value) (calls : List (Slot × Constants)) : Prop where
  length : calls.length = values.length
  call (i : Nat) (v : Value) (value : values[i]? = some v) : ∃ slot,
    intern? ⟨(seen ++ values.take i).eraseDups⟩ v =
      some (slot, ⟨(seen ++ values.take (i + 1)).eraseDups⟩) ∧
    calls[i]? = some (slot, ⟨(seen ++ values.take (i + 1)).eraseDups⟩)

theorem Fills.cons {seen values : List Value} {value : Value} {slot : Slot}
    {calls : List (Slot × Constants)}
    (first : intern? ⟨seen.eraseDups⟩ value = some (slot, ⟨(seen ++ [value]).eraseDups⟩))
    (others : Fills (seen ++ [value]) values calls) :
    Fills seen (value :: values) ((slot, ⟨(seen ++ [value]).eraseDups⟩) :: calls) := by
  refine ⟨by simp [others.length], fun i v at_i => ?_⟩
  cases i with
  | zero =>
    cases at_i
    exact ⟨slot, by simpa using first, by simp⟩
  | succ i =>
    rw [List.take_succ_cons, List.take_succ_cons, List.append_cons seen value (values.take i),
      List.append_cons seen value (values.take (i + 1))]
    exact others.call i v at_i

/-- A table of first occurrences takes any values, as long as there are slots for the different
ones among all of them. -/
theorem exists_history_intern? (seen : List Value) {values : List Value}
    (each : ∀ v ∈ seen ++ values, v.Distinct)
    (room : (seen ++ values).eraseDups.length ≤ UInt32.size) :
    ∃ calls, history intern? ⟨seen.eraseDups⟩ values = some calls ∧ Fills seen values calls := by
  induction values generalizing seen with
  | nil => exact ⟨[], rfl, rfl, by simp⟩
  | cons value values ih =>
    rw [List.append_cons] at each room
    have grown := eraseDups_begins (seen ++ [value]) values
    obtain ⟨slot, first⟩ := exists_intern?_eraseDups
      (fun v member => each v (List.mem_append_left _ member))
      (Nat.le_trans grown.length_le room)
    obtain ⟨calls, ran, others⟩ := ih (seen ++ [value]) each room
    refine ⟨_, ?_, .cons first others⟩
    rw [history, first, Option.bind_some, ran, Option.map_some]

/-- The calls number the values in the order in which they first occur. The call with number `i`
hands out `slot` for the value there and leaves `table` behind. -/
structure Numbers (values : List Value) (calls : List (Slot × Constants)) : Prop where
  length : calls.length = values.length
  entries {i : Nat} {slot : Slot} {table : Constants} (call : calls[i]? = some (slot, table)) :
    table.values = (values.take (i + 1)).eraseDups
  apart {i : Nat} {slot : Slot} {table : Constants} (call : calls[i]? = some (slot, table)) :
    table.values.Pairwise fun v w => (v == w) = false
  /-- A value that equals an earlier one gets the number of that one, any other value the next
  number. -/
  number {i : Nat} {v : Value} {slot : Slot} {table : Constants} (value : values[i]? = some v)
    (call : calls[i]? = some (slot, table)) (n : Nat) : slot.index.toNat = n ↔
      (∃ w, (values.take i).eraseDups[n]? = some w ∧ (v == w) = true) ∨
      (∀ w ∈ (values.take i).eraseDups, (v == w) = false) ∧
        n = (values.take i).eraseDups.length
  shared {i j : Nat} {v w : Value} {slot slot' : Slot} {table table' : Constants}
    (value : values[i]? = some v) (call : calls[i]? = some (slot, table))
    (value' : values[j]? = some w) (call' : calls[j]? = some (slot', table')) :
    slot = slot' ↔ (v == w) = true
  /-- A slot keeps its constant, which equals the value that it was handed out for. -/
  kept {i j : Nat} {v : Value} {slot slot' : Slot} {table table' : Constants} (later : i ≤ j)
    (value : values[i]? = some v) (call : calls[i]? = some (slot, table))
    (call' : calls[j]? = some (slot', table')) :
    ∃ w, table.get? slot = some w ∧ table'.get? slot = some w ∧ (v == w) = true
  outside {i : Nat} {slot other : Slot} {table : Constants}
    (call : calls[i]? = some (slot, table)) (beyond : table.size ≤ other.index.toNat) :
    table.get? other = none

theorem pairwise_firsts {values : List Value} (each : ∀ v ∈ values, v.Distinct) :
    values.eraseDups.Pairwise fun v w => (v == w) = false := by
  refine (pairwise_eraseDups values).imp_of_mem fun {v w} left right unequal => ?_
  rwa [Value.same_comm (each v (mem_of_mem_eraseDups left)) (each w (mem_of_mem_eraseDups right))]

/-- Of unequal values, only one equals a given value. -/
theorem index_unique {values : List Value} {v w x : Value} {m n : Nat}
    (each : ∀ v ∈ values, v.Distinct) (apart : values.Pairwise fun v w => (v == w) = false)
    (distinct : x.Distinct) (left : values[m]? = some v) (equal : (x == v) = true)
    (right : values[n]? = some w) (equal' : (x == w) = true) : m = n := by
  rw [List.pairwise_iff_getElem] at apart
  obtain ⟨inside, rfl⟩ := List.getElem?_eq_some_iff.mp left
  obtain ⟨inside', rfl⟩ := List.getElem?_eq_some_iff.mp right
  have member {i : Nat} (bound : i < values.length) : values[i].Distinct :=
    each _ (List.getElem_mem bound)
  rcases Nat.lt_trichotomy m n with before | same | after
  · have same := Value.same_of_common distinct (member inside) (member inside') equal equal'
    simp [apart m n inside inside' before] at same
  · exact same
  · have same := Value.same_of_common distinct (member inside') (member inside) equal' equal
    simp [apart n m inside' inside after] at same

theorem first_unique {values : List Value} {v w x : Value} {m n : Nat}
    (each : ∀ v ∈ values, v.Distinct) (distinct : x.Distinct)
    (left : values.eraseDups[m]? = some v) (equal : (x == v) = true)
    (right : values.eraseDups[n]? = some w) (equal' : (x == w) = true) : m = n :=
  index_unique (fun v member => each v (mem_of_mem_eraseDups member)) (pairwise_firsts each)
    distinct left equal right equal'

section Fills

variable {values : List Value} {calls : List (Slot × Constants)} {i : Nat} {v : Value}
  {slot : Slot} {table : Constants}

theorem Fills.value (h : Fills [] values calls) (call : calls[i]? = some (slot, table)) :
    ∃ v, values[i]? = some v := by
  have bound := (List.getElem?_eq_some_iff.mp call).1
  rw [h.length] at bound
  exact ⟨values[i], List.getElem?_eq_getElem bound⟩

theorem Fills.interned (h : Fills [] values calls) (value : values[i]? = some v)
    (call : calls[i]? = some (slot, table)) :
    intern? ⟨(values.take i).eraseDups⟩ v = some (slot, table) ∧
      table = ⟨(values.take (i + 1)).eraseDups⟩ := by
  obtain ⟨given, interned, call'⟩ := h.call i v value
  rw [call] at call'
  cases call'
  exact ⟨interned, rfl⟩

theorem Fills.leaves (h : Fills [] values calls) (call : calls[i]? = some (slot, table)) :
    table = ⟨(values.take (i + 1)).eraseDups⟩ := by
  obtain ⟨v, value⟩ := h.value call
  exact (h.interned value call).2

theorem Fills.extends (h : Fills [] values calls) {j : Nat} {slot' : Slot} {table' : Constants}
    (later : i ≤ j) (call : calls[i]? = some (slot, table))
    (call' : calls[j]? = some (slot', table')) : table'.Extends table := by
  rw [h.leaves call, h.leaves call', Extends]
  have begins : values.take (i + 1) <+: values.take (j + 1) :=
    List.take_prefix_take_left (by omega)
  obtain ⟨rest, whole⟩ := begins
  rw [← whole]
  exact eraseDups_begins ..

theorem Fills.entry (h : Fills [] values calls) (each : ∀ v ∈ values, v.Distinct)
    (value : values[i]? = some v) (call : calls[i]? = some (slot, table)) :
    ∃ w, table.get? slot = some w ∧ (v == w) = true := by
  obtain ⟨interned, rfl⟩ := h.interned value call
  obtain ⟨w, found, equal⟩ := intern?_get? interned
  have member : w ∈ values.take (i + 1) := mem_of_mem_eraseDups (List.mem_of_getElem? found)
  refine ⟨w, found, ?_⟩
  rwa [Value.same_comm (each v (List.mem_of_getElem? value))
    (each w (List.mem_of_mem_take member))]

theorem Fills.first (h : Fills [] values calls) (each : ∀ v ∈ values, v.Distinct)
    (value : values[i]? = some v) (call : calls[i]? = some (slot, table)) :
    ∃ w, values.eraseDups[slot.index.toNat]? = some w ∧ (v == w) = true := by
  obtain ⟨w, found, equal⟩ := h.entry each value call
  have begins := eraseDups_begins (values.take (i + 1)) (values.drop (i + 1))
  rw [List.take_append_drop] at begins
  rw [get?, h.leaves call] at found
  exact ⟨w, getElem?_of_begins begins found, equal⟩

theorem Fills.shared (h : Fills [] values calls) (each : ∀ v ∈ values, v.Distinct)
    (value : values[i]? = some v) (call : calls[i]? = some (slot, table)) {j : Nat} {w : Value}
    {slot' : Slot} {table' : Constants} (value' : values[j]? = some w)
    (call' : calls[j]? = some (slot', table')) : slot = slot' ↔ (v == w) = true := by
  have distinct : v.Distinct := each v (List.mem_of_getElem? value)
  have distinct' : w.Distinct := each w (List.mem_of_getElem? value')
  obtain ⟨x, found, equal⟩ := h.first each value call
  obtain ⟨y, found', equal'⟩ := h.first each value' call'
  have distinct'' : x.Distinct := each x (mem_of_mem_eraseDups (List.mem_of_getElem? found))
  constructor
  · rintro rfl
    rw [found, Option.some.injEq] at found'
    subst found'
    rw [Value.same_comm distinct distinct''] at equal
    rw [Value.same_comm distinct' distinct''] at equal'
    exact Value.same_of_common distinct'' distinct distinct' equal equal'
  · intro same
    have equal'' : (w == x) = true := Value.same_of_common distinct distinct' distinct'' same equal
    have index := first_unique each distinct' found equal'' found' equal'
    cases slot
    cases slot'
    exact congrArg Slot.mk (UInt32.toNat_inj.mp index)

theorem Fills.place (h : Fills [] values calls) (each : ∀ v ∈ values, v.Distinct)
    (value : values[i]? = some v) (call : calls[i]? = some (slot, table)) {w : Value} {n : Nat}
    (entry : (values.take i ++ [v]).eraseDups[n]? = some w) (equal : (v == w) = true) :
    slot.index.toNat = n := by
  obtain ⟨x, found, equal'⟩ := h.entry each value call
  have grown : values.take (i + 1) = values.take i ++ [v] := by
    rw [List.take_add_one, value, Option.toList_some]
  rw [get?, h.leaves call] at found
  rw [← grown] at entry
  exact first_unique (fun x member => each x (List.mem_of_mem_take member))
    (each v (List.mem_of_getElem? value)) found equal' entry equal

theorem Fills.number (h : Fills [] values calls) (each : ∀ v ∈ values, v.Distinct)
    (value : values[i]? = some v) (call : calls[i]? = some (slot, table)) (n : Nat) :
    slot.index.toNat = n ↔
      (∃ w, (values.take i).eraseDups[n]? = some w ∧ (v == w) = true) ∨
      (∀ w ∈ (values.take i).eraseDups, (v == w) = false) ∧
        n = (values.take i).eraseDups.length := by
  have known {n : Nat} {w : Value} (earlier : (values.take i).eraseDups[n]? = some w)
      (equal : (v == w) = true) : slot.index.toNat = n :=
    h.place each value call (getElem?_of_begins (eraseDups_begins ..) earlier) equal
  have unknown (fresh : ∀ w ∈ (values.take i).eraseDups, (v == w) = false) :
      slot.index.toNat = (values.take i).eraseDups.length := by
    apply h.place each value call ?_ (Value.same_refl v)
    rw [eraseDups_concat, if_neg (by simpa using fresh)]
    exact List.getElem?_concat_length
  constructor
  · rintro rfl
    by_cases occurred : ∃ w ∈ (values.take i).eraseDups, (v == w) = true
    · obtain ⟨w, member, equal⟩ := occurred
      obtain ⟨m, earlier⟩ := List.mem_iff_getElem?.mp member
      exact .inl ⟨w, known earlier equal ▸ earlier, equal⟩
    · simp only [not_exists, not_and, Bool.not_eq_true] at occurred
      exact .inr ⟨occurred, unknown occurred⟩
  · rintro (⟨w, earlier, equal⟩ | ⟨fresh, rfl⟩)
    · exact known earlier equal
    · exact unknown fresh

end Fills

theorem Fills.numbers {values : List Value} {calls : List (Slot × Constants)}
    (h : Fills [] values calls) (each : ∀ v ∈ values, v.Distinct) : Numbers values calls where
  length := h.length
  entries call := by rw [h.leaves call]
  apart call := by
    rw [h.leaves call]
    exact pairwise_firsts fun v member => each v (List.mem_of_mem_take member)
  number value call n := h.number each value call n
  shared value call value' call' := h.shared each value call value' call'
  kept := by
    intro i j v slot slot' table table' later value call call'
    obtain ⟨w, found, equal⟩ := h.entry each value call
    exact ⟨w, found, (h.extends later call call').get? found, equal⟩
  outside _ beyond := List.getElem?_eq_none beyond

end Constants

end FormCode.Code

import FormCode.Proofs.Value.Equality
import Mathlib.Data.List.Perm.Basic
import Mathlib.Logic.Relation

/-! Values up to the order of map entries. Taking out entries one by one, as `alike` does, decides
whether one value comes from the other by moving entries, because any two candidates for an entry
come from each other and so can change places. -/
namespace FormCode.Value

open scoped List

/-- Entries of one map change places; the map may stand at any depth. -/
inductive Reorders : Value → Value → Prop
  | entries (perm : es.Perm fs) : Reorders (.map es) (.map fs)
  | item (inside : Reorders x y) :
      Reorders (.list (before ++ x :: after)) (.list (before ++ y :: after))
  | element (inside : Reorders x y) :
      Reorders (.vector (before ++ x :: after)) (.vector (before ++ y :: after))
  | key (inside : Reorders k l) :
      Reorders (.map (before ++ (k, v) :: after)) (.map (before ++ (l, v) :: after))
  | value (inside : Reorders v w) :
      Reorders (.map (before ++ (k, v) :: after)) (.map (before ++ (k, w) :: after))

/-- Any number of maps have been reordered, one after the other. -/
def Reordered : Value → Value → Prop := Relation.ReflTransGen Reorders

theorem Reorders.symm (h : Reorders v w) : Reorders w v := by
  induction h with
  | entries perm => exact .entries perm.symm
  | item _ ih => exact .item ih
  | element _ ih => exact .element ih
  | key _ ih => exact .key ih
  | value _ ih => exact .value ih

namespace Reordered

theorem refl (v : Value) : Reordered v v := Relation.ReflTransGen.refl

theorem trans (h : Reordered u v) (h' : Reordered v w) : Reordered u w :=
  Relation.ReflTransGen.trans h h'

theorem symm (h : Reordered v w) : Reordered w v := by
  induction h with
  | refl => exact refl _
  | tail _ step ih => exact Relation.ReflTransGen.head step.symm ih

theorem congr (context : Value → Value)
    (step : ∀ x y, Reorders x y → Reorders (context x) (context y)) (h : Reordered v w) :
    Reordered (context v) (context w) := Relation.ReflTransGen.lift context step _ _ h

theorem of_forall₂ {α : Type} {r : α → α → Prop} (collection : List α → Value)
    (one : ∀ before x y after, r x y →
      Reordered (collection (before ++ x :: after)) (collection (before ++ y :: after)))
    {xs ys : List α} (matched : List.Forall₂ r xs ys) :
    Reordered (collection xs) (collection ys) := by
  suffices behind : ∀ before, Reordered (collection (before ++ xs)) (collection (before ++ ys)) from
    behind []
  induction matched with
  | nil => exact fun before => refl _
  | @cons x y xs ys related _ ih =>
    intro before
    have rest := ih (before ++ [y])
    rw [List.append_assoc, List.append_assoc] at rest
    exact (one before x y xs related).trans rest

theorem list (items : List.Forall₂ Reordered xs ys) : Reordered (.list xs) (.list ys) :=
  of_forall₂ .list (fun before _ _ after =>
    congr (fun x => .list (before ++ x :: after)) fun _ _ => .item) items

theorem vector (items : List.Forall₂ Reordered xs ys) : Reordered (.vector xs) (.vector ys) :=
  of_forall₂ .vector (fun before _ _ after =>
    congr (fun x => .vector (before ++ x :: after)) fun _ _ => .element) items

def Parts (e f : Value × Value) : Prop := Reordered e.1 f.1 ∧ Reordered e.2 f.2

theorem map (entries : List.Forall₂ Parts es gs) (perm : gs.Perm fs) :
    Reordered (.map es) (.map fs) := by
  have matched : Reordered (.map es) (.map gs) := by
    refine of_forall₂ .map (fun before e f after related => ?_) entries
    have key : Reordered (.map (before ++ e :: after)) (.map (before ++ (f.1, e.2) :: after)) :=
      congr (fun k => .map (before ++ (k, e.2) :: after)) (fun _ _ => .key) related.1
    have value : Reordered (.map (before ++ (f.1, e.2) :: after)) (.map (before ++ f :: after)) :=
      congr (fun v => .map (before ++ (f.1, v) :: after)) (fun _ _ => .value) related.2
    exact key.trans value
  exact Relation.ReflTransGen.tail matched (.entries perm)

theorem Parts.trans (h : Parts e f) (h' : Parts f g) : Parts e g :=
  ⟨h.1.trans h'.1, h.2.trans h'.2⟩

theorem Parts.symm (h : Parts e f) : Parts f e := ⟨h.1.symm, h.2.symm⟩

end Reordered

open Reordered (Parts)

/-- A reordered value layer by layer: its parts are reordered, and then the entries of the map
itself have changed places. -/
inductive Rebuilt : Value → Value → Prop
  | atom : Rebuilt (.atom a) (.atom a)
  | object : Rebuilt (.object handle) (.object handle)
  | list (items : List.Forall₂ Reordered xs ys) : Rebuilt (.list xs) (.list ys)
  | vector (items : List.Forall₂ Reordered xs ys) : Rebuilt (.vector xs) (.vector ys)
  | map (entries : List.Forall₂ Parts es gs) (perm : gs.Perm fs) : Rebuilt (.map es) (.map fs)

theorem Rebuilt.refl (v : Value) : Rebuilt v v := by
  cases v with
  | atom => exact .atom
  | object => exact .object
  | list items => exact .list (List.forall₂_same.mpr fun x _ => Reordered.refl x)
  | vector items => exact .vector (List.forall₂_same.mpr fun x _ => Reordered.refl x)
  | map entries =>
    exact .map (List.forall₂_same.mpr fun e _ => ⟨Reordered.refl e.1, Reordered.refl e.2⟩) (.refl _)

theorem forall₂_exchange {α β : Type} {r : α → β → Prop} {xs : List α} {before after : List β}
    {y z : β} (matched : List.Forall₂ r xs (before ++ y :: after)) (step : ∀ x, r x y → r x z) :
    List.Forall₂ r xs (before ++ z :: after) := by
  induction before generalizing xs with
  | nil =>
    cases matched with
    | cons related others => exact .cons (step _ related) others
  | cons b before ih =>
    cases matched with
    | cons related others => exact .cons related (ih others)

theorem perm_exchange {α : Type} {before after before' after' : List α} {x : α} (y : α)
    (perm : (before ++ x :: after).Perm (before' ++ x :: after')) :
    (before ++ y :: after).Perm (before' ++ y :: after') := by
  have others : (before ++ after).Perm (before' ++ after') :=
    (List.perm_middle.symm.trans (perm.trans List.perm_middle)).cons_inv
  exact List.perm_middle.trans ((others.cons y).trans List.perm_middle.symm)

/-- An entry is exchanged wherever it has moved to. -/
theorem rebuilt_exchange {es gs before after : List (Value × Value)} {e f : Value × Value}
    (matched : List.Forall₂ Parts es gs) (perm : gs.Perm (before ++ e :: after))
    (related : Parts e f) : Rebuilt (.map es) (.map (before ++ f :: after)) := by
  have member : e ∈ gs := perm.mem_iff.mpr (by simp)
  obtain ⟨left, right, rfl⟩ := List.append_of_mem member
  exact .map (forall₂_exchange matched fun _ earlier => earlier.trans related)
    (perm_exchange f perm)

theorem Rebuilt.step (h : Rebuilt u v) (reorders : Reorders v w) : Rebuilt u w := by
  have last {x y : Value} (inside : Reorders x y) : ∀ z, Reordered z x → Reordered z y :=
    fun _ earlier => Relation.ReflTransGen.tail earlier inside
  cases reorders with
  | entries perm =>
    cases h with
    | map entries earlier => exact .map entries (earlier.trans perm)
  | item inside =>
    cases h with
    | list items => exact .list (forall₂_exchange items (last inside))
  | element inside =>
    cases h with
    | vector items => exact .vector (forall₂_exchange items (last inside))
  | key inside =>
    cases h with
    | map entries earlier =>
      exact rebuilt_exchange entries earlier ⟨last inside _ (Reordered.refl _), Reordered.refl _⟩
  | value inside =>
    cases h with
    | map entries earlier =>
      exact rebuilt_exchange entries earlier ⟨Reordered.refl _, last inside _ (Reordered.refl _)⟩

theorem reordered_iff_rebuilt : Reordered v w ↔ Rebuilt v w := by
  constructor
  · intro h
    induction h with
    | refl => exact .refl v
    | tail _ reorders ih => exact ih.step reorders
  · intro h
    cases h with
    | atom => exact .refl _
    | object => exact .refl _
    | list items => exact .list items
    | vector items => exact .vector items
    | map entries perm => exact .map entries perm

theorem reordered_atom_iff : Reordered (.atom a) w ↔ .atom a = w := by
  rw [reordered_iff_rebuilt]
  constructor
  · intro h
    cases h
    rfl
  · rintro rfl
    exact .atom

theorem reordered_object_iff : Reordered (.object handle) w ↔ .object handle = w := by
  rw [reordered_iff_rebuilt]
  constructor
  · intro h
    cases h
    rfl
  · rintro rfl
    exact .object

theorem reordered_list_iff :
    Reordered (.list xs) w ↔ ∃ ys, w = .list ys ∧ List.Forall₂ Reordered xs ys := by
  rw [reordered_iff_rebuilt]
  constructor
  · intro h
    cases h with
    | list items => exact ⟨_, rfl, items⟩
  · rintro ⟨ys, rfl, items⟩
    exact .list items

theorem reordered_vector_iff :
    Reordered (.vector xs) w ↔ ∃ ys, w = .vector ys ∧ List.Forall₂ Reordered xs ys := by
  rw [reordered_iff_rebuilt]
  constructor
  · intro h
    cases h with
    | vector items => exact ⟨_, rfl, items⟩
  · rintro ⟨ys, rfl, items⟩
    exact .vector items

theorem reordered_map_iff :
    Reordered (.map es) w ↔ ∃ fs, w = .map fs ∧ ∃ gs, List.Forall₂ Parts es gs ∧ gs.Perm fs := by
  rw [reordered_iff_rebuilt]
  constructor
  · intro h
    cases h with
    | map entries perm => exact ⟨_, rfl, _, entries, perm⟩
  · rintro ⟨fs, rfl, gs, entries, perm⟩
    exact .map entries perm

theorem exists_removeFirst? {α : Type} {p : α → Bool} {x : α} {xs : List α} (member : x ∈ xs)
    (found : p x = true) : ∃ ys, removeFirst? p xs = some ys := by
  induction xs with
  | nil => contradiction
  | cons y xs ih =>
    by_cases here : p y = true
    · exact ⟨xs, by simp [removeFirst?, here]⟩
    · rcases List.mem_cons.mp member with rfl | member
      · contradiction
      · obtain ⟨ys, removed⟩ := ih member
        exact ⟨y :: ys, by simp [removeFirst?, here, removed]⟩

/-- If another candidate than the partner of the first entry is taken out, the partner is left for
the entry that the candidate belonged to. -/
theorem exists_rematch {es gs rest : List (Value × Value)} {g x : Value × Value}
    (matched : List.Forall₂ Parts es gs) (perm : (g :: gs).Perm (x :: rest)) (related : Parts x g) :
    ∃ hs, List.Forall₂ Parts es hs ∧ hs.Perm rest := by
  rcases List.mem_cons.mp (perm.mem_iff.mpr (List.mem_cons_self ..)) with rfl | member
  · exact ⟨gs, matched, perm.cons_inv⟩
  · obtain ⟨before, after, rfl⟩ := List.append_of_mem member
    have partner : List.Forall₂ Parts es (before ++ g :: after) :=
      forall₂_exchange matched fun _ earlier => earlier.trans related
    have swapped : (x :: (before ++ g :: after)).Perm (g :: (before ++ x :: after)) :=
      calc x :: (before ++ g :: after)
        _ ~ x :: g :: (before ++ after) := List.perm_middle.cons x
        _ ~ g :: x :: (before ++ after) := .swap g x _
        _ ~ g :: (before ++ x :: after) := List.perm_middle.symm.cons g
    exact ⟨_, partner, (swapped.trans perm).cons_inv⟩

theorem alikeEntries_of_forall₂ {es gs fs : List (Value × Value)}
    (each : ∀ e ∈ es, ∀ f, (alike e.1 f.1 = true ∧ alike e.2 f.2 = true) ↔ Parts e f)
    (matched : List.Forall₂ Parts es gs) (perm : gs.Perm fs) : alikeEntries es fs = true := by
  induction es generalizing gs fs with
  | nil =>
    cases matched
    simp [alikeEntries, perm.nil_eq]
  | cons e es ih =>
    rw [List.forall_mem_cons] at each
    obtain ⟨here, others⟩ := each
    cases matched with
    | @cons _ g _ gs related matched =>
      have candidate : g ∈ fs := perm.mem_iff.mp (List.mem_cons_self ..)
      have suits : (alike e.1 g.1 && alike e.2 g.2) = true := by
        simpa using (here g).mpr related
      obtain ⟨rest, removed⟩ :=
        exists_removeFirst? (p := fun f => alike e.1 f.1 && alike e.2 f.2) candidate suits
      obtain ⟨x, found, split⟩ := removeFirst?_perm removed
      have taken : Parts x g := ((here x).mp (by simpa using found)).symm.trans related
      obtain ⟨hs, rematched, left⟩ := exists_rematch matched (perm.trans split) taken
      simp only [alikeEntries, removed]
      exact ih others rematched left

theorem alikeItems_iff_reordered {xs ys : List Value}
    (each : ∀ x ∈ xs, ∀ y, alike x y = true ↔ Reordered x y) :
    alikeItems xs ys = true ↔ List.Forall₂ Reordered xs ys := by
  rw [alikeItems_iff]
  constructor
  · exact fun h => forall₂_of_mem h fun x member y => (each x member y).mp
  · exact fun h => forall₂_of_mem h fun x member y => (each x member y).mpr

theorem alikeEntries_iff_reordered {es fs : List (Value × Value)}
    (each : ∀ e ∈ es, ∀ f, (alike e.1 f.1 = true ∧ alike e.2 f.2 = true) ↔ Parts e f) :
    alikeEntries es fs = true ↔ ∃ gs, List.Forall₂ Parts es gs ∧ gs.Perm fs := by
  constructor
  · intro h
    obtain ⟨gs, perm, matched⟩ := alikeEntries_perm h
    exact ⟨gs, forall₂_of_mem matched fun e member f => (each e member f).mp, perm⟩
  · rintro ⟨gs, matched, perm⟩
    exact alikeEntries_of_forall₂ each matched perm

/-- Likeness is equality up to the order of entries, whether keys repeat or not. -/
theorem alike_iff_reordered (v w : Value) : alike v w = true ↔ Reordered v w := by
  induction v generalizing w with
  | atom a => cases w <;> simp [alike, reordered_atom_iff]
  | object handle => cases w <;> simp [alike, reordered_object_iff]
  | list items ih =>
    rw [reordered_list_iff]
    cases w <;> simp [alike, alikeItems_iff_reordered ih]
  | vector items ih =>
    rw [reordered_vector_iff]
    cases w <;> simp [alike, alikeItems_iff_reordered ih]
  | map es ih =>
    have each : ∀ e ∈ es, ∀ f, (alike e.1 f.1 = true ∧ alike e.2 f.2 = true) ↔ Parts e f :=
      fun e member f => and_congr ((ih e member).1 f.1) ((ih e member).2 f.2)
    rw [reordered_map_iff]
    cases w <;> simp [alike, alikeEntries_iff_reordered each]

end FormCode.Value

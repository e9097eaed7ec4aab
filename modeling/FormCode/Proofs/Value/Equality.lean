import FormCode.Proofs.Value.Induction
import FormCode.Value.Equality
import Mathlib.Data.List.Forall2

/-! Alike values are equal, whichever way the comparison of nested entries goes. The converse needs
maps without repeated keys and is not part of this file. -/
namespace FormCode.Value

theorem within_iff (es fs : List (Value × Value)) : within es fs = true ↔
    ∀ e ∈ es, ∃ f ∈ fs, sameWay true e.1 f.1 = true ∧ sameWay true e.2 f.2 = true := by
  induction es with
  | nil => simp [within]
  | cons e es ih =>
    obtain ⟨k, v⟩ := e
    simp [within, ih]

theorem occurs_iff (es : List (Value × Value)) (f : Value × Value) : occurs es f = true ↔
    ∃ e ∈ es, sameWay false e.1 f.1 = true ∧ sameWay false e.2 f.2 = true := by
  induction es with
  | nil => simp [occurs]
  | cons e es ih =>
    obtain ⟨k, v⟩ := e
    simp [occurs, ih]

/-- Both ways of comparing maps ask that each entry of one equal some entry of the other. -/
theorem sameWay_map_iff (back : Bool) (es fs : List (Value × Value)) :
    sameWay back (.map es) (.map fs) = true ↔ es.length = fs.length ∧
      if back then ∀ f ∈ fs, ∃ e ∈ es, sameWay false e.1 f.1 = true ∧ sameWay false e.2 f.2 = true
      else ∀ e ∈ es, ∃ f ∈ fs, sameWay true e.1 f.1 = true ∧ sameWay true e.2 f.2 = true := by
  cases back <;> simp only [sameWay, Bool.and_eq_true, beq_iff_eq, List.all_eq_true, within_iff,
    occurs_iff, if_true, if_false, Bool.false_eq_true]

theorem sameItems_iff (back : Bool) (xs ys : List Value) :
    sameItems back xs ys = true ↔ List.Forall₂ (fun x y => sameWay back x y = true) xs ys := by
  induction xs generalizing ys with
  | nil => cases ys <;> simp [sameItems]
  | cons x xs ih => cases ys <;> simp [sameItems, ih]

theorem sameItems_swap (xs ys : List Value) (back : Bool)
    (each : ∀ x ∈ xs, ∀ back y, sameWay (!back) x y = sameWay back y x) :
    sameItems (!back) xs ys = sameItems back ys xs := by
  induction xs generalizing ys with
  | nil => cases ys <;> simp [sameItems]
  | cons x xs ih =>
    cases ys with
    | nil => simp [sameItems]
    | cons y ys =>
      simp only [sameItems]
      rw [each x (by simp), ih ys fun x member => each x (List.mem_cons_of_mem _ member)]

theorem sameWay_swap (v w : Value) (back : Bool) : sameWay (!back) v w = sameWay back w v := by
  induction v generalizing w back with
  | atom a => cases w <;> simp [sameWay, Bool.beq_comm]
  | object handle => cases w <;> simp [sameWay, Bool.beq_comm]
  | list items ih =>
    cases w with
    | list others =>
      have swap := sameItems_swap items others back fun x member back y => ih x member y back
      simpa [sameWay] using swap
    | _ => simp [sameWay]
  | vector items ih =>
    cases w with
    | vector others =>
      have swap := sameItems_swap items others back fun x member back y => ih x member y back
      simpa [sameWay] using swap
    | _ => simp [sameWay]
  | map es ih =>
    cases w with
    | map fs =>
      have swap (e f : Value × Value) (member : e ∈ es) (back : Bool) :
          (sameWay (!back) e.1 f.1 = true ∧ sameWay (!back) e.2 f.2 = true) ↔
          (sameWay back f.1 e.1 = true ∧ sameWay back f.2 e.2 = true) := by
        rw [(ih e member).1 f.1 back, (ih e member).2 f.2 back]
      rw [Bool.eq_iff_iff, sameWay_map_iff, sameWay_map_iff, eq_comm]
      refine and_congr_right fun _ => ?_
      cases back with
      | false =>
        refine forall₂_congr fun f _ => exists_congr fun e => and_congr_right fun member => ?_
        exact (swap e f member true)
      | true =>
        refine forall₂_congr fun e member => exists_congr fun f => and_congr_right fun _ => ?_
        exact (swap e f member false)
    | _ => simp [sameWay]

theorem sameWay_true (v w : Value) : sameWay true v w = same w v := sameWay_swap v w false

theorem removeFirst?_perm {α : Type} {p : α → Bool} {xs ys : List α}
    (removed : removeFirst? p xs = some ys) : ∃ x, p x = true ∧ xs.Perm (x :: ys) := by
  induction xs generalizing ys with
  | nil => simp [removeFirst?] at removed
  | cons x xs ih =>
    by_cases found : p x = true
    · simp only [removeFirst?, if_pos found, Option.some.injEq] at removed
      exact ⟨x, found, by rw [removed]⟩
    · simp only [removeFirst?, if_neg found, Option.map_eq_some_iff] at removed
      obtain ⟨rest, removed, rfl⟩ := removed
      obtain ⟨y, holds, perm⟩ := ih removed
      exact ⟨y, holds, (perm.cons x).trans (.swap y x rest)⟩

theorem alikeItems_iff (xs ys : List Value) :
    alikeItems xs ys = true ↔ List.Forall₂ (fun x y => alike x y = true) xs ys := by
  induction xs generalizing ys with
  | nil => cases ys <;> simp [alikeItems]
  | cons x xs ih => cases ys <;> simp [alikeItems, ih]

/-- Alike maps have the same entries up to their order and to likeness of their parts. -/
theorem alikeEntries_perm {es fs : List (Value × Value)} (h : alikeEntries es fs = true) :
    ∃ gs, gs.Perm fs ∧
      List.Forall₂ (fun e g => alike e.1 g.1 = true ∧ alike e.2 g.2 = true) es gs := by
  induction es generalizing fs with
  | nil =>
    have empty : fs = [] := by simpa [alikeEntries] using h
    exact ⟨[], by rw [empty], .nil⟩
  | cons e es ih =>
    obtain ⟨k, v⟩ := e
    simp only [alikeEntries] at h
    split at h
    case h_1 rest removed =>
      obtain ⟨g, found, perm⟩ := removeFirst?_perm removed
      obtain ⟨gs, same, matched⟩ := ih h
      exact ⟨g :: gs, (same.cons g).trans perm.symm, .cons (by simpa using found) matched⟩
    case h_2 => contradiction

theorem exists_right_of_forall₂ {α β : Type} {r : α → β → Prop} {xs : List α} {ys : List β}
    (matched : List.Forall₂ r xs ys) {x : α} (member : x ∈ xs) : ∃ y ∈ ys, r x y := by
  induction matched with
  | nil => simp at member
  | cons related _ ih =>
    rcases List.mem_cons.mp member with rfl | member
    · exact ⟨_, by simp, related⟩
    · obtain ⟨y, inside, related⟩ := ih member
      exact ⟨y, List.mem_cons_of_mem _ inside, related⟩

theorem forall₂_of_mem {α β : Type} {r s : α → β → Prop} {xs : List α} {ys : List β}
    (matched : List.Forall₂ r xs ys) (each : ∀ x ∈ xs, ∀ y, r x y → s x y) :
    List.Forall₂ s xs ys :=
  ((List.forall₂_and_left xs ys).mpr ⟨each, matched⟩).imp fun _ y both => both.1 y both.2

theorem sameWay_of_alike {v w : Value} (h : alike v w = true) (back : Bool) :
    sameWay back v w = true := by
  induction v generalizing w back with
  | atom a => cases w <;> simp_all [alike, sameWay]
  | object handle => cases w <;> simp_all [alike, sameWay]
  | list items ih =>
    cases w with
    | list others =>
      simp only [alike, alikeItems_iff, sameWay, sameItems_iff] at h ⊢
      exact forall₂_of_mem h fun x member y related => ih x member related back
    | _ => simp [alike] at h
  | vector items ih =>
    cases w with
    | vector others =>
      simp only [alike, alikeItems_iff, sameWay, sameItems_iff] at h ⊢
      exact forall₂_of_mem h fun x member y related => ih x member related back
    | _ => simp [alike] at h
  | map es ih =>
    cases w with
    | map fs =>
      obtain ⟨gs, perm, matched⟩ := alikeEntries_perm (by simpa [alike] using h)
      rw [sameWay_map_iff]
      refine ⟨matched.length_eq.trans perm.length_eq, ?_⟩
      cases back with
      | false =>
        intro e member
        obtain ⟨g, inside, key, value⟩ := exists_right_of_forall₂ matched member
        exact ⟨g, perm.mem_iff.mp inside, (ih e member).1 key true, (ih e member).2 value true⟩
      | true =>
        intro f member
        obtain ⟨e, inside, key, value⟩ :=
          exists_right_of_forall₂ matched.flip (perm.mem_iff.mpr member)
        exact ⟨e, inside, (ih e inside).1 key false, (ih e inside).2 value false⟩
    | _ => simp [alike] at h

theorem same_of_alike {v w : Value} (h : alike v w = true) : (w == v) = true :=
  (sameWay_true v w).symm.trans (sameWay_of_alike h true)

theorem sameWay_refl (v : Value) (back : Bool) : sameWay back v v = true := by
  induction v generalizing back with
  | atom a => simp [sameWay]
  | object handle => simp [sameWay]
  | list items ih =>
    rw [sameWay, sameItems_iff]
    exact List.forall₂_same.mpr fun x member => ih x member back
  | vector items ih =>
    rw [sameWay, sameItems_iff]
    exact List.forall₂_same.mpr fun x member => ih x member back
  | map entries ih =>
    rw [sameWay_map_iff]
    refine ⟨rfl, ?_⟩
    cases back with
    | false => exact fun e member => ⟨e, member, (ih e member).1 true, (ih e member).2 true⟩
    | true => exact fun e member => ⟨e, member, (ih e member).1 false, (ih e member).2 false⟩

theorem same_refl (v : Value) : (v == v) = true := sameWay_refl v false

end FormCode.Value

import FormCode.Proofs.Value.Reordering
import Mathlib

/-! Values whose maps repeat no key. On them the one-sided comparison of maps pairs the entries off:
two entries of one map cannot equal the same entry of another, because their keys would be equal. So
equality is equality up to the order of map entries. -/
namespace FormCode.Value

open Reordered (Parts)

/-- No map in the value, at any depth and also inside keys, has two equal keys. -/
inductive Distinct : Value → Prop
  | atom : Distinct (.atom a)
  | object : Distinct (.object handle)
  | list (each : ∀ x ∈ items, Distinct x) : Distinct (.list items)
  | vector (each : ∀ x ∈ items, Distinct x) : Distinct (.vector items)
  | map (keys : ∀ e ∈ entries, Distinct e.1) (values : ∀ e ∈ entries, Distinct e.2)
      (apart : (entries.map Prod.fst).Pairwise fun k l => (k == l) = false) :
      Distinct (.map entries)

/-- As many elements as candidates, none of which suits two elements: then they pair off. -/
theorem exists_pairing {α β : Type} {r : α → β → Prop} {xs : List α} {ys : List β}
    (size : xs.length = ys.length) (each : ∀ x ∈ xs, ∃ y ∈ ys, r x y)
    (apart : xs.Pairwise fun x x' => ∀ y ∈ ys, r x y → ¬ r x' y) :
    ∃ zs, List.Forall₂ r xs zs ∧ zs.Perm ys := by
  induction xs generalizing ys with
  | nil =>
    obtain rfl := List.length_eq_zero_iff.mp size.symm
    exact ⟨[], .nil, .refl []⟩
  | cons x xs ih =>
    rw [List.forall_mem_cons] at each
    rw [List.pairwise_cons] at apart
    obtain ⟨y, member, related⟩ := each.1
    obtain ⟨before, after, rfl⟩ := List.append_of_mem member
    have others : ∀ x' ∈ xs, ∃ z ∈ before ++ after, r x' z := by
      intro x' inside
      obtain ⟨z, found, suits⟩ := each.2 x' inside
      rcases List.mem_cons.mp (List.perm_middle.mem_iff.mp found) with rfl | found
      · exact absurd suits (apart.1 x' inside z member related)
      · exact ⟨z, found, suits⟩
    have smaller : xs.length = (before ++ after).length := by
      simp only [List.length_cons, List.length_append] at size ⊢
      omega
    have kept {z : β} (found : z ∈ before ++ after) : z ∈ before ++ y :: after :=
      List.perm_middle.mem_iff.mpr (List.mem_cons_of_mem y found)
    obtain ⟨zs, matched, perm⟩ := ih smaller others
      (apart.2.imp fun none z found => none z (kept found))
    exact ⟨y :: zs, .cons related matched, (perm.cons y).trans List.perm_middle.symm⟩

theorem same_of_reordered {v w : Value} (h : Reordered v w) : (v == w) = true :=
  sameWay_of_alike ((alike_iff_reordered v w).mpr h) false

/-- Two entries of a map without repeated keys do not come from one and the same entry. -/
theorem pairwise_not_parts {entries : List (Value × Value)}
    (apart : (entries.map Prod.fst).Pairwise fun k l => (k == l) = false)
    (others : List (Value × Value)) :
    entries.Pairwise fun e e' => ∀ f ∈ others, Parts e f → ¬ Parts e' f := by
  refine (List.pairwise_map.mp apart).imp fun {e e'} unequal f _ related related' => ?_
  have equal := same_of_reordered (related.1.trans related'.1.symm)
  exact absurd equal (by simp [unequal])

theorem forall₂_of_mem_mem {α β : Type} {r s : α → β → Prop} {xs : List α} {ys : List β}
    (matched : List.Forall₂ r xs ys) (each : ∀ x ∈ xs, ∀ y ∈ ys, r x y → s x y) :
    List.Forall₂ s xs ys := by
  induction matched with
  | nil => exact .nil
  | @cons x y xs ys related _ ih =>
    refine .cons (each x (by simp) y (by simp) related) (ih fun x' inside y' inside' => ?_)
    exact each x' (List.mem_cons_of_mem x inside) y' (List.mem_cons_of_mem y inside')

/-- The entries of two equal maps pair off. When the comparison goes back, it is the entries of the
second map for which partners are found. -/
theorem exists_parts {es fs : List (Value × Value)} {back : Bool}
    (apart : (es.map Prod.fst).Pairwise fun k l => (k == l) = false)
    (apart' : (fs.map Prod.fst).Pairwise fun k l => (k == l) = false)
    (parts : ∀ e ∈ es, ∀ f ∈ fs, ∀ way, sameWay way e.1 f.1 = true → sameWay way e.2 f.2 = true →
      Parts e f)
    (h : sameWay back (.map es) (.map fs) = true) :
    ∃ gs, List.Forall₂ Parts es gs ∧ gs.Perm fs := by
  rw [sameWay_map_iff] at h
  obtain ⟨size, each⟩ := h
  cases back with
  | false =>
    refine exists_pairing size (fun e member => ?_) (pairwise_not_parts apart fs)
    obtain ⟨f, inside, key, value⟩ := each e member
    exact ⟨f, inside, parts e member f inside true key value⟩
  | true =>
    have partners : ∀ f ∈ fs, ∃ e ∈ es, Parts f e := by
      intro f member
      obtain ⟨e, inside, key, value⟩ := each f member
      exact ⟨e, inside, (parts e inside f member false key value).symm⟩
    obtain ⟨gs, matched, perm⟩ := exists_pairing size.symm partners (pairwise_not_parts apart' es)
    have matched' : List.Forall₂ Parts gs fs := matched.flip.imp fun _ _ => Reordered.Parts.symm
    exact List.perm_comp_forall₂ perm.symm matched'

theorem reordered_of_sameWay {v w : Value} (left : v.Distinct) (right : w.Distinct) {back : Bool}
    (h : sameWay back v w = true) : Reordered v w := by
  induction v generalizing w back with
  | atom a =>
    cases w <;> simp only [sameWay, beq_iff_eq, Bool.false_eq_true] at h
    exact h ▸ .refl _
  | object handle =>
    cases w <;> simp only [sameWay, beq_iff_eq, Bool.false_eq_true] at h
    exact h ▸ .refl _
  | list items ih =>
    cases w <;> simp only [sameWay, sameItems_iff, Bool.false_eq_true] at h
    cases left with
    | list each =>
    cases right with
    | list each' =>
    exact .list (forall₂_of_mem_mem h fun x inside y inside' related =>
      ih x inside (each x inside) (each' y inside') related)
  | vector items ih =>
    cases w <;> simp only [sameWay, sameItems_iff, Bool.false_eq_true] at h
    cases left with
    | vector each =>
    cases right with
    | vector each' =>
    exact .vector (forall₂_of_mem_mem h fun x inside y inside' related =>
      ih x inside (each x inside) (each' y inside') related)
  | map es ih =>
    cases w with
    | map fs =>
      cases left with
      | map keys values apart =>
      cases right with
      | map keys' values' apart' =>
      have parts : ∀ e ∈ es, ∀ f ∈ fs, ∀ way, sameWay way e.1 f.1 = true →
          sameWay way e.2 f.2 = true → Parts e f :=
        fun e inside f inside' _ key value =>
          ⟨(ih e inside).1 (keys e inside) (keys' f inside') key,
            (ih e inside).2 (values e inside) (values' f inside') value⟩
      obtain ⟨gs, matched, perm⟩ := exists_parts apart apart' parts h
      exact .map matched perm
    | _ => simp [sameWay] at h

theorem same_iff_reordered {v w : Value} (left : v.Distinct) (right : w.Distinct) :
    (v == w) = true ↔ Reordered v w :=
  ⟨reordered_of_sameWay left right, same_of_reordered⟩

/-- Where no key repeats, the two notions of equality agree. -/
theorem same_iff_alike {v w : Value} (left : v.Distinct) (right : w.Distinct) :
    (v == w) = true ↔ alike v w = true := by
  rw [same_iff_reordered left right, alike_iff_reordered]

theorem same_comm {v w : Value} (left : v.Distinct) (right : w.Distinct) :
    (v == w) = (w == v) := by
  rw [Bool.eq_iff_iff, same_iff_reordered left right, same_iff_reordered right left]
  exact ⟨Reordered.symm, Reordered.symm⟩

theorem same_of_common {u v w : Value} (common : u.Distinct) (left : v.Distinct)
    (right : w.Distinct) (h : (u == v) = true) (h' : (u == w) = true) : (v == w) = true := by
  rw [same_iff_reordered common left] at h
  rw [same_iff_reordered common right] at h'
  exact same_of_reordered (h.symm.trans h')

theorem pairwise_of_firstRepeatAfter {seen keys : List Value}
    (h : firstRepeatAfter seen keys = none) :
    (∀ k ∈ keys, ∀ s ∈ seen, alike k s = false) ∧
      keys.Pairwise fun k l => alike l k = false := by
  induction keys generalizing seen with
  | nil => simp
  | cons k keys ih =>
    rw [firstRepeatAfter] at h
    split at h
    case isTrue => contradiction
    case isFalse unseen =>
      obtain ⟨fresh, apart⟩ := ih h
      simp only [List.forall_mem_cons, forall_and] at fresh
      simp only [List.any_eq_true, not_exists, not_and, Bool.not_eq_true] at unseen
      exact ⟨List.forall_mem_cons.mpr ⟨unseen, fresh.2⟩, List.pairwise_cons.mpr ⟨fresh.1, apart⟩⟩

theorem pairwise_of_firstRepeat? {keys : List Value} (each : ∀ k ∈ keys, k.Distinct)
    (h : firstRepeat? keys = none) : keys.Pairwise fun k l => (k == l) = false := by
  refine (pairwise_of_firstRepeatAfter h).2.imp_of_mem fun {k l} left right unlike => ?_
  cases equal : k == l with
  | false => rfl
  | true =>
    have moved := ((same_iff_reordered (each k left) (each l right)).mp equal).symm
    simp [(alike_iff_reordered l k).mpr moved] at unlike

/-- Equality of values without repeated keys is equality up to the order of map entries, and so it
is an equivalence. -/
theorem same_is_reordering :
    (∀ v w : Value, v.Distinct → w.Distinct → ((v == w) = true ↔ Reordered v w)) ∧
    Equivalence fun v w : { v : Value // v.Distinct } => (v.val == w.val) = true := by
  refine ⟨fun v w left right => same_iff_reordered left right, ?_, ?_, ?_⟩
  · intro v
    exact same_refl v.val
  · intro v w h
    rw [same_iff_reordered v.property w.property] at h
    exact same_of_reordered h.symm
  · intro u v w h h'
    rw [same_iff_reordered u.property v.property] at h
    rw [same_iff_reordered v.property w.property] at h'
    exact same_of_reordered (h.trans h')

/-- A map that is a key of another map, with the entries of both in two orders. -/
theorem same_is_reordering_nested :
    let key : Value := .map [(.atom (.int 1), .nil), (.atom (.int 2), .list [])]
    let key' : Value := .map [(.atom (.int 2), .list []), (.atom (.int 1), .nil)]
    let v : Value := .map [(key, .atom (.float ⟨0⟩)), (.nil, .vector [])]
    let w : Value := .map [(.nil, .vector []), (key', .atom (.float ⟨0⟩))]
    v.Distinct ∧ w.Distinct ∧ Reordered v w := by
  intro key key' v w
  have entry {k l m n : Value} (keys : k.Distinct ∧ m.Distinct) (values : l.Distinct ∧ n.Distinct)
      (unequal : same k m = false) : (Value.map [(k, l), (m, n)]).Distinct := by
    refine .map ?_ ?_ (List.pairwise_pair.mpr unequal)
    · simpa using keys
    · simpa using values
  have empty : (Value.list []).Distinct := .list (by simp)
  have key_distinct : key.Distinct := entry ⟨.atom, .atom⟩ ⟨.atom, empty⟩ (by cbv)
  have key'_distinct : key'.Distinct := entry ⟨.atom, .atom⟩ ⟨empty, .atom⟩ (by cbv)
  have left : v.Distinct := entry ⟨key_distinct, .atom⟩ ⟨.atom, .vector (by simp)⟩ (by cbv)
  have right : w.Distinct := entry ⟨.atom, key'_distinct⟩ ⟨.vector (by simp), .atom⟩ (by cbv)
  have equal : same v w = true := by cbv
  exact ⟨left, right, (same_is_reordering.1 v w left right).mp equal⟩

/-- Where a key repeats, equality need not go both ways. -/
example :
    let v : Value := .map [(.atom (.int 1), .nil), (.atom (.int 1), .nil)]
    let w : Value := .map [(.atom (.int 1), .nil), (.atom (.int 2), .nil)]
    same v w = true ∧ same w v = false := by
  intro v w
  exact ⟨by cbv, by cbv⟩

end FormCode.Value

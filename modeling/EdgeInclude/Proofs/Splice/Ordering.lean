import EdgeInclude.Replacement
import Mathlib.Data.List.Sort

/-!
# Replacements in order

* `Replacement.perm_sorted`, `Replacement.pairwise_sorted` — ordering keeps what is ordered.
* `Replacements.ofList_of_pairwise` — replacements that are in order already are taken as they are.
* `Replacements.forall_stop_le_iff` — the last replacement ends behind all others.
-/

namespace EdgeInclude

variable {r a : Replacement} {rs : List Replacement}

/-! ## 1. Ordering -/

namespace Replacement

/-- Whether a replacement starts no later than another one. -/
def NoLater (a b : Replacement) : Prop := a.start ≤ b.start

instance : DecidableRel NoLater := fun a b => inferInstanceAs (Decidable (a.start ≤ b.start))

instance : Std.Total NoLater := ⟨fun a b => Nat.le_total a.start b.start⟩

instance : IsTrans Replacement NoLater := ⟨fun _ _ _ => Nat.le_trans⟩

theorem place_eq_orderedInsert (r : Replacement) (rs : List Replacement) :
    r.place rs = rs.orderedInsert NoLater r := by
  induction rs with
  | nil => rfl
  | cons a rest ih =>
    unfold place
    rw [List.orderedInsert_cons, ih]
    rfl

theorem sorted_eq_insertionSort (rs : List Replacement) :
    sorted rs = rs.insertionSort NoLater := by
  induction rs with
  | nil => rfl
  | cons r rest ih =>
    unfold sorted
    rw [List.insertionSort_cons, ih, place_eq_orderedInsert]

theorem perm_sorted (rs : List Replacement) : (sorted rs).Perm rs := by
  rw [sorted_eq_insertionSort]
  exact List.perm_insertionSort NoLater rs

theorem pairwise_sorted (rs : List Replacement) : (sorted rs).Pairwise NoLater := by
  rw [sorted_eq_insertionSort]
  exact List.pairwise_insertionSort NoLater rs

theorem Before.start_lt (h : r.Before a) : r.start < a.start :=
  Nat.lt_of_lt_of_le r.start_lt_stop h

theorem sorted_of_pairwise (h : rs.Pairwise Before) : sorted rs = rs := by
  have hs : rs.Pairwise NoLater := h.imp fun hb => Nat.le_of_lt (Before.start_lt hb)
  rw [sorted_eq_insertionSort]
  exact hs.insertionSort_eq

theorem clash?_of_pairwise (h : rs.Pairwise Before) : clash? rs = none := by
  induction rs with
  | nil => rfl
  | cons a rest ih =>
    obtain ⟨ha, h⟩ := List.pairwise_cons.1 h
    cases rest with
    | nil => rfl
    | cons b rest =>
      have hb : a.stop ≤ b.start := ha b (by simp)
      unfold clash?
      rw [if_neg (Nat.not_lt.2 hb)]
      exact ih h

end Replacement

/-! ## 2. Taking them -/

namespace Replacements

theorem ofList_of_clash? (h : Replacement.clash? (Replacement.sorted rs) = none) :
    ofList rs = .ok ⟨Replacement.sorted rs, Replacement.pairwise_of_clash? h⟩ := by
  unfold ofList
  split
  · rfl
  · rename_i a b hc
    rw [h] at hc
    cases hc

/-- Replacements that are taken come out in their order. -/
theorem items_of_ofList {tags : Replacements} (h : ofList rs = .ok tags) :
    tags.items = Replacement.sorted rs := by
  unfold ofList at h
  split at h
  · cases h
    rfl
  · cases h

theorem ofList_of_pairwise (h : rs.Pairwise Replacement.Before) :
    ofList rs = .ok ⟨rs, h⟩ := by
  have hs := Replacement.sorted_of_pairwise h
  have hc : Replacement.clash? (Replacement.sorted rs) = none := by
    rw [hs]
    exact Replacement.clash?_of_pairwise h
  rw [ofList_of_clash? hc]
  simp only [hs]

/-- The last replacement ends behind all others. -/
theorem stop_le_last {tags : Replacements} {last : Replacement}
    (h : tags.items.getLast? = some last) : ∀ r ∈ tags.items, r.stop ≤ last.stop := by
  obtain ⟨front, hf⟩ := List.getLast?_eq_some_iff.1 h
  have ho := tags.ordered
  rw [hf] at ho ⊢
  intro r hr
  rcases List.mem_append.1 hr with hr | hr
  · have hb : r.stop ≤ last.start :=
      (List.pairwise_append.1 ho).2.2 r hr last (List.mem_singleton.2 rfl)
    have hw := last.start_lt_stop
    omega
  · rw [List.mem_singleton.1 hr]

/-- A length that covers the last replacement covers them all. -/
theorem forall_stop_le_iff (tags : Replacements) (n : Nat) : (∀ r ∈ tags.items, r.stop ≤ n) ↔
    ∀ last, tags.items.getLast? = some last → last.stop ≤ n := by
  constructor
  · intro h last hlast
    exact h last (List.mem_of_getLast? hlast)
  · intro h r hr
    have hlast := List.getLast?_eq_some_getLast (List.ne_nil_of_mem hr)
    exact (stop_le_last hlast r hr).trans (h _ hlast)

end Replacements

end EdgeInclude

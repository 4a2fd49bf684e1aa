import Mathlib.Algebra.BigOperators.Group.Finset.Piecewise
import Mathlib.Algebra.Order.Ring.Nat
import Mathlib.Data.List.Induction

/-!
# Counting along a list

What happens is written into a list, entry by entry. Counters go up along it, and what it has of
several parties is counted party by party.

* `counter_foldl` — a counter that goes up with entries of a kind counts the entries of this kind.
* `countP_eq_sum`, `countP_range`, `sum_map_eq` — entries that belong to places, counted place by
  place.
-/

namespace EdgeInclude.Tally

variable {α γ : Type}

/-- A counter that goes up by one with the entries of a kind counts the entries of this kind. -/
theorem counter_foldl (count : α → γ → γ) (counter : γ → UInt64) (p : α → Bool)
    (h : ∀ a c, counter (count a c) = counter c + if p a then 1 else 0) (as : List α) (c : γ) :
    counter (as.foldl (fun c a => count a c) c) = counter c + .ofNat (as.countP p) := by
  induction as generalizing c with
  | nil => simp
  | cons a as ih =>
    rw [List.foldl_cons, ih, h, List.countP_cons, UInt64.add_assoc, UInt64.ofNat_add]
    cases p a
    · simp
    · simp [UInt64.add_comm]

/-- What is counted in a list is counted place by place. -/
theorem countP_eq_sum (place : α → Nat) (q : α → Bool) (m : Nat) {as : List α}
    (h : ∀ a ∈ as, place a < m) :
    as.countP q = ∑ i ∈ Finset.range m, (as.filter (place · == i)).countP q := by
  induction as with
  | nil => simp
  | cons a as ih =>
    obtain ⟨ha, hrest⟩ := List.forall_mem_cons.1 h
    have hone : ∀ i, ((a :: as).filter (place · == i)).countP q =
        (as.filter (place · == i)).countP q +
          if i = place a then (if q a then 1 else 0) else 0 := by
      intro i
      rw [List.filter_cons]
      by_cases hi : i = place a
      · rw [if_pos (beq_iff_eq.2 hi.symm), List.countP_cons, if_pos hi]
      · rw [if_neg (by simpa using Ne.symm hi), if_neg hi]
        rfl
    rw [List.countP_cons, ih hrest, Finset.sum_congr rfl fun i _ => hone i,
      Finset.sum_add_distrib, Finset.sum_ite_eq', if_pos (Finset.mem_range.2 ha)]

/-- Places that hold something are counted one by one. -/
theorem countP_range (p : Nat → Bool) (m : Nat) :
    (List.range m).countP p = ∑ i ∈ Finset.range m, if p i then 1 else 0 := by
  induction m with
  | zero => rfl
  | succ m ih =>
    rw [List.range_succ, List.countP_append, ih, Finset.sum_range_succ]
    simp [List.countP_cons]

/-- A sum over a list is a sum over its places. -/
theorem sum_map_eq (l : List α) (g : α → Nat) (k : Nat → Nat)
    (h : ∀ i a, l[i]? = some a → g a = k i) : (l.map g).sum = ∑ i ∈ Finset.range l.length, k i := by
  induction l using List.reverseRecOn with
  | nil => rfl
  | append_singleton l a ih =>
    have hlast : (l ++ [a])[l.length]? = some a := by simp
    have hinit : ∀ i b, l[i]? = some b → g b = k i := by
      intro i b hi
      have hlt := (List.getElem?_eq_some_iff.1 hi).1
      exact h i b (by rw [List.getElem?_append_left hlt, hi])
    rw [List.map_append, List.sum_append, ih hinit, List.length_append, List.length_singleton,
      Finset.sum_range_succ, ← h l.length a hlast]
    simp

end EdgeInclude.Tally

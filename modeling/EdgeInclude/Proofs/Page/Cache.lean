import EdgeInclude.Page.Cache

/-!
# What a cache answers

Looking a page up may merge the overlay of a cache into its table, and storing and removing do so as
well; what is found under a fingerprint does not depend on it.

* `Table.get?_insert`, `Table.get?_remove`, `Table.get?_merge` — tables.
* `PageCache.get_get` — looking again finds the same.
* `PageCache.get_insert`, `PageCache.get_remove` — what is stored is found, what is removed is not.
-/

namespace EdgeInclude

variable {α : Type} {fp fp' : Fingerprint} {a : α}

/-! ## 1. Tables -/

namespace Table

variable {t more : Table α}

theorem get?_cons (fp' : Fingerprint) (a : α) (t : Table α) (fp : Fingerprint) :
    get? ((fp', a) :: t) fp = if fp' = fp then some a else get? t fp := by
  unfold get?
  rw [List.find?_cons]
  by_cases h : fp' = fp
  · rw [if_pos h, beq_iff_eq.2 h]
    rfl
  · rw [if_neg h, beq_eq_false_iff_ne.2 h]

theorem get?_remove (t : Table α) (fp' fp : Fingerprint) :
    get? (remove t fp') fp = if fp' = fp then none else get? t fp := by
  induction t with
  | nil => exact (ite_self _).symm
  | cons e rest ih =>
    obtain ⟨k, a⟩ := e
    unfold remove at ih ⊢
    rw [List.filter_cons]
    by_cases hk : k = fp'
    · rw [if_neg (by simpa using hk), ih, get?_cons]
      subst hk
      split <;> rfl
    · rw [if_pos (by simpa using hk), get?_cons, ih, get?_cons]
      by_cases hf : fp' = fp
      · subst hf
        rw [if_neg hk, if_pos rfl, if_pos rfl]
      · rw [if_neg hf, if_neg hf]

theorem get?_insert (t : Table α) (fp' : Fingerprint) (a : α) (fp : Fingerprint) :
    get? (insert t fp' a) fp = if fp' = fp then some a else get? t fp := by
  unfold insert
  rw [get?_cons, get?_remove]
  split <;> rfl

/-- Where both tables have an entry, that of `more` is found. -/
theorem get?_merge (t more : Table α) (fp : Fingerprint) :
    get? (merge t more) fp = (get? more fp).or (get? t fp) := by
  induction more with
  | nil => rfl
  | cons e rest ih =>
    obtain ⟨k, a⟩ := e
    show get? (insert (merge t rest) k a) fp = _
    rw [get?_insert, get?_cons, ih]
    split <;> rfl

theorem contains_eq_false_iff : contains t fp = false ↔ get? t fp = none := by
  unfold contains
  rw [Option.isSome_eq_false_iff, Option.isNone_iff_eq_none]

end Table

/-! ## 2. Read-mostly caches -/

namespace ReadMostly

variable {c : ReadMostly α}

/-- What has been found is found again, whether the overlay has been merged meanwhile or not. -/
theorem get_get (c : ReadMostly α) (fp : Fingerprint) :
    ((c.get fp).1.get fp).2 = (c.get fp).2 := by
  cases hc : c.clean.get? fp with
  | some a =>
    have hg : c.get fp = (c, some a) := by
      unfold get
      rw [hc]
    rw [hg, hg]
  | none =>
    cases ha : c.amended with
    | false =>
      have hg : c.get fp = (c, none) := by
        unfold get
        rw [hc, ha]
        rfl
      rw [hg, hg]
    | true =>
      have hg : c.get fp =
          if c.overlay.length ≤ c.misses + 1 then (c.promote id, c.overlay.get? fp)
          else ({ c with misses := c.misses + 1 }, c.overlay.get? fp) := by
        unfold get
        rw [hc, ha]
        rfl
      rw [hg]
      split
      · have hm : (c.promote id).clean.get? fp = c.overlay.get? fp := by
          show Table.get? (c.clean.merge c.overlay) fp = _
          rw [Table.get?_merge, hc, Option.or_none]
        unfold get
        rw [hm]
        cases c.overlay.get? fp <;> rfl
      · unfold get
        dsimp only
        rw [hc, ha]
        dsimp only
        rw [Bool.not_true, if_neg Bool.false_ne_true]
        split <;> rfl

theorem get_insert (c : ReadMostly α) (fp : Fingerprint) (a : α) :
    ((c.insert fp a).get fp).2 = some a := by
  cases hc : c.clean.contains fp with
  | true =>
    have hi : (c.insert fp a).clean.get? fp = some a := by
      unfold insert
      rw [if_pos hc]
      show Table.get? (Table.insert (c.clean.merge c.overlay) fp a) fp = some a
      rw [Table.get?_insert, if_pos rfl]
    unfold get
    rw [hi]
  | false =>
    have hi : c.insert fp a = { c with overlay := c.overlay.insert fp a, amended := true } := by
      unfold insert
      rw [if_neg (by rw [hc]; exact Bool.false_ne_true)]
    have hf : Table.get? (c.overlay.insert fp a) fp = some a := by
      rw [Table.get?_insert, if_pos rfl]
    rw [hi]
    unfold get
    dsimp only
    rw [Table.contains_eq_false_iff.1 hc, hf]
    dsimp only
    rw [Bool.not_true, if_neg Bool.false_ne_true]
    split <;> rfl

theorem get_remove (c : ReadMostly α) (fp : Fingerprint) :
    ((c.remove fp).1.get fp).2 = none := by
  cases h : c.overlay.contains fp || c.clean.contains fp with
  | true =>
    have hr : (c.remove fp).1 = c.promote fun t => t.remove fp := by
      unfold remove
      rw [if_pos h]
    have hn : (c.promote fun t => t.remove fp).clean.get? fp = none := by
      show Table.get? (Table.remove (c.clean.merge c.overlay) fp) fp = none
      rw [Table.get?_remove, if_pos rfl]
    rw [hr]
    unfold get
    rw [hn]
    rfl
  | false =>
    have hr : (c.remove fp).1 = c := by
      unfold remove
      rw [if_neg (by rw [h]; exact Bool.false_ne_true)]
    obtain ⟨ho, hc⟩ := Bool.or_eq_false_iff.1 h
    rw [hr]
    unfold get
    rw [Table.contains_eq_false_iff.1 hc]
    dsimp only
    split
    · rfl
    · rw [Table.contains_eq_false_iff.1 ho]
      split <;> rfl

end ReadMostly

/-! ## 3. Caches of either kind -/

namespace PageCache

/-- **Looking again finds the same.** -/
theorem get_get (c : PageCache α) (fp : Fingerprint) :
    ((c.get fp).1.get fp).2 = (c.get fp).2 := by
  cases c with
  | locked t => rfl
  | readMostly c => exact c.get_get fp

/-- What is stored is found. -/
theorem get_insert (c : PageCache α) (fp : Fingerprint) (a : α) :
    ((c.insert fp a).get fp).2 = some a := by
  cases c with
  | locked t => exact (Table.get?_insert t fp a fp).trans (if_pos rfl)
  | readMostly c => exact c.get_insert fp a

/-- What is removed is not found. -/
theorem get_remove (c : PageCache α) (fp : Fingerprint) :
    ((c.remove fp).1.get fp).2 = none := by
  cases c with
  | locked t => exact (Table.get?_remove t fp fp).trans (if_pos rfl)
  | readMostly c => exact c.get_remove fp

end PageCache

end EdgeInclude

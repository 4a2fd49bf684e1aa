import EdgeInclude.Proofs.Splice.Ordering
import Mathlib.Order.CompletePartialOrder
import Mathlib.Order.Interval.Set.Disjoint

/-!
# Spans that are disjoint

Fetches end in any order, and so the replacements of a page come in any order. They are put in the
order of their starts, and then each is compared with its neighbour only. This is enough: where the
starts ascend, a span that overlaps any other one overlaps its neighbour too.

* `Replacement.span`, `Replacement.before_iff` — the positions of a span; of two disjoint spans the
  one that starts first is behind the other's back.
* `Replacements.exists_ofList` — spans that are disjoint are taken.
* `Replacements.overlap_of_ofList` — a failure tells two that are not.
* `Replacements.ofList_of_perm` — in another order the outcome is the same.
* `Replacements.ofList_law` — which replacements are taken, and what becomes of them.
-/

namespace EdgeInclude

/-! ## 1. Two spans -/

namespace Replacement

variable {a b : Replacement} {rs rs' : List Replacement}

/-- The positions of the bytes that a replacement takes the place of. -/
def span (r : Replacement) : Set Nat := Set.Ico r.start r.stop

/-- Whether no byte is in both spans. -/
def Apart (a b : Replacement) : Prop := Disjoint a.span b.span

theorem apart_iff : a.Apart b ↔ a.Before b ∨ b.Before a := by
  have ha := a.start_lt_stop
  have hb := b.start_lt_stop
  unfold Apart span Before
  rw [Set.Ico_disjoint_Ico]
  omega

theorem Apart.symm (h : a.Apart b) : b.Apart a := Disjoint.symm h

/-- Of two spans in order, only the first one can reach into the other. -/
theorem before_iff : a.Before b ↔ a.NoLater b ∧ a.Apart b := by
  have hb := b.start_lt_stop
  rw [apart_iff]
  constructor
  · intro h
    exact ⟨Nat.le_of_lt h.start_lt, .inl h⟩
  · rintro ⟨hle, h | h⟩
    · exact h
    · unfold Before NoLater at *
      omega

/-! ## 2. All of them -/

theorem pairwise_before_sorted_iff :
    (sorted rs).Pairwise Before ↔ rs.Pairwise Apart := by
  rw [← (perm_sorted rs).pairwise_iff Apart.symm]
  constructor
  · intro h
    exact h.imp fun hb => (before_iff.1 hb).2
  · intro h
    exact ((pairwise_sorted rs).and h).imp before_iff.2

/-- What is put in order without an overlap is in the same order, however it has come. -/
theorem sorted_eq_of_perm (hp : rs.Perm rs') (h : rs.Pairwise Apart) : sorted rs = sorted rs' := by
  have h' : rs'.Pairwise Apart := (hp.pairwise_iff Apart.symm).1 h
  have hs : (sorted rs).Perm (sorted rs') :=
    ((perm_sorted rs).trans hp).trans (perm_sorted rs').symm
  refine List.Perm.eq_of_pairwise (fun a b _ _ hab hba => ?_) (pairwise_before_sorted_iff.2 h)
    (pairwise_before_sorted_iff.2 h') hs
  exact absurd (Nat.lt_trans hab.start_lt hba.start_lt) (Nat.lt_irrefl _)

/-- A clash is one of two neighbours. -/
theorem clash?_eq_some (h : clash? rs = some (a, b)) : [a, b].Sublist rs ∧ b.start < a.stop := by
  fun_induction clash? rs with
  | case1 x y rest hlt =>
    cases h
    exact ⟨.cons_cons _ (.cons_cons _ (List.nil_sublist _)), hlt⟩
  | case2 x y rest hle ih =>
    obtain ⟨hsub, hlt⟩ := ih h
    exact ⟨hsub.cons _, hlt⟩
  | case3 => cases h

end Replacement

namespace Replacements

open Replacement (Apart NoLater)

variable {rs rs' : List Replacement} {tags : Replacements} {e : Failure}

theorem apart_of_ofList (h : ofList rs = .ok tags) : rs.Pairwise Apart := by
  have ho := tags.ordered
  rw [items_of_ofList h] at ho
  exact Replacement.pairwise_before_sorted_iff.1 ho

/-- **Spans that are disjoint are taken.** -/
theorem exists_ofList (h : rs.Pairwise Apart) : ∃ tags, ofList rs = .ok tags :=
  ⟨_, ofList_of_clash?
    (Replacement.clash?_of_pairwise (Replacement.pairwise_before_sorted_iff.2 h))⟩

/-- **A failure tells two members that overlap.** -/
theorem overlap_of_ofList (h : ofList rs = .error e) :
    ∃ a b, [a, b].Subperm rs ∧ ¬ a.Apart b ∧ e = .notValid (overlap a b) := by
  unfold ofList at h
  split at h
  · cases h
  · rename_i a b hc
    cases h
    obtain ⟨hsub, hlt⟩ := Replacement.clash?_eq_some hc
    have hle : a.NoLater b := by
      simpa using (Replacement.pairwise_sorted rs).sublist hsub
    refine ⟨a, b, hsub.subperm.trans (Replacement.perm_sorted rs).subperm, fun hap => ?_, rfl⟩
    exact Nat.not_lt.2 (Replacement.before_iff.2 ⟨hle, hap⟩) hlt

/-- In another order, the same is taken. -/
theorem ofList_of_perm (hp : rs.Perm rs') (h : ofList rs = .ok tags) : ofList rs' = .ok tags := by
  have ha := apart_of_ofList h
  obtain ⟨tags', h'⟩ := exists_ofList ((hp.pairwise_iff Apart.symm).1 ha)
  have hitems : tags'.items = tags.items := by
    rw [items_of_ofList h, items_of_ofList h', Replacement.sorted_eq_of_perm hp ha]
  obtain ⟨items, ordered⟩ := tags
  obtain ⟨items', ordered'⟩ := tags'
  cases hitems
  exact h'

/-- **Replacements are taken if and only if their spans are disjoint**, each two of them and not
only neighbours. They come out unchanged, in the order of their starts, and in whatever order they
have come in; what is refused in one order is refused in every other, with two that overlap. -/
theorem ofList_law (rs : List Replacement) :
    ((∃ tags, ofList rs = .ok tags) ↔ rs.Pairwise fun a b => Disjoint a.span b.span) ∧
    (∀ tags, ofList rs = .ok tags →
      tags.items.Perm rs ∧ tags.items.Pairwise fun a b => a.start < b.start) ∧
    (∀ e, ofList rs = .error e →
      ∃ a b, [a, b].Subperm rs ∧ ¬ Disjoint a.span b.span ∧ e = .notValid (overlap a b)) ∧
    ∀ rs', rs.Perm rs' →
      (∀ tags, ofList rs = .ok tags → ofList rs' = .ok tags) ∧
      ((∃ e, ofList rs = .error e) → ∃ e, ofList rs' = .error e) := by
  refine ⟨⟨fun ⟨tags, h⟩ => apart_of_ofList h, exists_ofList⟩, fun tags h => ⟨?_, ?_⟩,
    fun e h => overlap_of_ofList h, fun rs' hp => ⟨fun tags h => ofList_of_perm hp h, ?_⟩⟩
  · rw [items_of_ofList h]
    exact Replacement.perm_sorted rs
  · exact tags.ordered.imp Replacement.Before.start_lt
  · rintro ⟨e, he⟩
    cases h' : ofList rs' with
    | error e' => exact ⟨e', rfl⟩
    | ok tags =>
      -- else the first order would have been taken as well
      rw [ofList_of_perm hp.symm h'] at he
      cases he

end Replacements

end EdgeInclude

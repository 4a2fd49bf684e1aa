import EdgeInclude.Eligibility
import EdgeInclude.Proofs.Occurrence

/-!
# What a pattern stands for

A text fits a pattern if it is made of the pieces of the pattern in their order, with any gap in the
place of each star. Matching does not try all gaps: it takes each piece at its leftmost place. This
is enough, because whatever follows a later place of a piece also follows the leftmost one, with
more in front of it, and the next gap takes that up.

* `Text.pieces_eq_splitOn` — the pieces between the occurrences of a character.
* `exists_splitFirst?_of_eq` — the leftmost cut leaves at least what any other cut leaves.
* `Glob.weave` — the text that pieces and gaps make.
* `Glob.fitsPieces_iff` — matching finds gaps whenever there are some.
* `Glob.fits_iff_exists_gaps` — which texts fit a pattern.
-/

namespace EdgeInclude

theorem Text.pieces_eq_splitOn (c : Char) (s : Text) : pieces c s = s.splitOn c := by
  unfold List.splitOn
  induction s with
  | nil => rfl
  | cons a s ih =>
    rw [List.splitOnP_cons_eq_if_modifyHead, ← ih]
    show (if a == c then [] :: pieces c s else _) = _
    split
    · rfl
    · cases h : pieces c s with
      | nil => exact absurd h (pieces_ne_nil c s)
      | cons p ps => rfl

/-- **The leftmost cut leaves the longest rest.** -/
theorem exists_splitFirst?_of_eq {α : Type} [BEq α] [LawfulBEq α] {pat s x t : List α}
    (h : s = x ++ pat ++ t) :
    ∃ before rest, splitFirst? pat s = some (before, rest) ∧ t <:+ rest := by
  have hdrop : s.drop x.length = pat ++ t := by rw [h, List.append_assoc, List.drop_left]
  have hs : StandsAt pat s x.length := ⟨t, hdrop.symm⟩
  rcases firstAt_or_nowhereFrom pat s 0 with ⟨i, hi⟩ | hn
  · have hcut := splitFirst?_drop_of_firstAt hi
    rw [List.drop_zero] at hcut
    refine ⟨_, _, hcut, ?_⟩
    have hle : i ≤ x.length := Nat.le_of_not_lt fun hlt => hi.least _ (Nat.zero_le _) hlt hs
    have ht : t = s.drop (x.length + pat.length) := by
      rw [← List.drop_drop, hdrop, List.drop_left]
    rw [ht]
    exact List.drop_suffix_drop_left s (by omega)
  · exact absurd hs (hn _ (Nat.zero_le _))

namespace Glob

variable {ps : List Text} {p s t : Text}

/-! ## 1. Pieces and gaps -/

/-- Pieces, each behind a gap. -/
def behindGaps (gaps ps : List Text) : Text := (List.zipWith (· ++ ·) gaps ps).flatten

/-- The text that the pieces of a pattern make with a gap in the place of each star. -/
def weave (gaps : List Text) : List Text → Text
  | [] => []
  | first :: ps => first ++ behindGaps gaps ps

/-- Whether there are gaps with which the pieces make a text. -/
def Fills (ps : List Text) (s : Text) : Prop :=
  ∃ gaps : List Text, gaps.length = ps.length ∧ s = behindGaps gaps ps

theorem fills_nil : Fills [] s ↔ s = [] := by
  constructor
  · rintro ⟨gaps, -, rfl⟩
    simp [behindGaps]
  · rintro rfl
    exact ⟨[], rfl, rfl⟩

theorem fills_cons : Fills (p :: ps) s ↔ ∃ x t, s = x ++ p ++ t ∧ Fills ps t := by
  constructor
  · rintro ⟨gaps, hl, rfl⟩
    obtain ⟨x, gaps, rfl⟩ := List.exists_cons_of_length_eq_add_one hl
    exact ⟨x, behindGaps gaps ps, rfl, gaps, Nat.succ.inj hl, rfl⟩
  · rintro ⟨x, t, rfl, gaps, hl, rfl⟩
    exact ⟨x :: gaps, congrArg Nat.succ hl, rfl⟩

/-- What is put in front of a text goes into its first gap. -/
theorem Fills.of_suffix (h : Fills (p :: ps) t) (ht : t <:+ s) : Fills (p :: ps) s := by
  obtain ⟨x, u, rfl, hu⟩ := fills_cons.1 h
  obtain ⟨front, rfl⟩ := ht
  exact fills_cons.2 ⟨front ++ x, u, by simp only [List.append_assoc], hu⟩

/-! ## 2. Matching -/

/-- **Taking each piece at its leftmost place misses no way to fill the gaps.** -/
theorem fitsPieces_iff (ps : List Text) (s : Text) : fitsPieces ps s = true ↔ Fills ps s := by
  fun_induction fitsPieces ps s with
  | case1 s => rw [List.isEmpty_iff, fills_nil]
  | case2 last s =>
    rw [List.isSuffixOf_iff_suffix, fills_cons]
    constructor
    · rintro ⟨x, rfl⟩
      exact ⟨x, [], (List.append_nil _).symm, fills_nil.2 rfl⟩
    · rintro ⟨x, t, rfl, ht⟩
      rw [fills_nil.1 ht, List.append_nil]
      exact List.suffix_append x last
  | case3 p q rest s before s' hcut ih =>
    rw [ih, fills_cons (p := p)]
    constructor
    · intro h
      exact ⟨before, s', splitFirst?_eq_append hcut, h⟩
    · rintro ⟨x, t, hs, ht⟩
      obtain ⟨before', rest', hcut', hsuf⟩ := exists_splitFirst?_of_eq hs
      cases hcut.symm.trans hcut'
      exact ht.of_suffix hsuf
  | case4 p q rest s hnone =>
    rw [fills_cons]
    refine ⟨nofun, ?_⟩
    rintro ⟨x, t, hs, -⟩
    obtain ⟨_, _, hcut, -⟩ := exists_splitFirst?_of_eq hs
    cases hnone.symm.trans hcut

/-! ## 3. Patterns -/

theorem exists_splitOn_of_mem (h : '*' ∈ s) :
    ∃ first p rest, s.splitOn '*' = first :: p :: rest := by
  obtain ⟨a, b, rfl⟩ := List.append_of_mem h
  have hsplit : (a ++ '*' :: b).splitOn '*' = a.splitOn '*' ++ b.splitOn '*' :=
    List.splitOnP_append_cons a b (beq_self_eq_true '*')
  rw [hsplit]
  cases ha : a.splitOn '*' with
  | nil => exact absurd ha (List.splitOnP_ne_nil _ a)
  | cons first ps =>
    cases hb : b.splitOn '*' with
    | nil => exact absurd hb (List.splitOnP_ne_nil _ b)
    | cons q qs =>
      cases ps with
      | nil => exact ⟨first, q, qs, rfl⟩
      | cons p ps => exact ⟨first, p, ps ++ q :: qs, rfl⟩

theorem splitOn_of_not_mem (h : '*' ∉ s) : s.splitOn '*' = [s] :=
  List.splitOnP_eq_singleton fun _ hc => beq_eq_false_iff_ne.2 fun he => h (he ▸ hc)

/-- **Which texts fit a pattern.** With stars in it, those that its pieces make with one gap for
each star, in order and side by side; without a star, those that begin with it. -/
theorem fits_iff_exists_gaps (pattern path : Text) :
    fits pattern path = true ↔
      if '*' ∈ pattern then
        ∃ gaps : List Text, gaps.length + 1 = (pattern.splitOn '*').length ∧
          path = weave gaps (pattern.splitOn '*')
      else pattern <+: path := by
  unfold fits
  rw [Text.pieces_eq_splitOn]
  by_cases hstar : '*' ∈ pattern
  · rw [if_pos hstar]
    obtain ⟨first, p, rest, hsplit⟩ := exists_splitOn_of_mem hstar
    rw [hsplit]
    dsimp only
    constructor
    · intro h
      split at h
      · rename_i s' hs'
        obtain ⟨gaps, hl, rfl⟩ := (fitsPieces_iff (p :: rest) s').1 h
        exact ⟨gaps, congrArg Nat.succ hl, isPrefixOf?_eq_append hs'⟩
      · cases h
    · rintro ⟨gaps, hl, rfl⟩
      rw [weave, isPrefixOf?_append]
      exact (fitsPieces_iff (p :: rest) _).2 ⟨gaps, Nat.succ.inj hl, rfl⟩
  · rw [if_neg hstar, splitOn_of_not_mem hstar]
    exact List.isPrefixOf_iff_prefix

/-- No byte of a path serves two pieces. -/
example : fits "/ab*ba".toList "/aba".toList = false := by decide

end Glob

end EdgeInclude

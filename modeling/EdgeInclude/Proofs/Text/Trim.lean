import EdgeInclude.Text.Basic
import Mathlib.Data.List.TakeWhile

/-!
# Blanks around a text

Trimming takes the blanks away that stand around a text, and nothing else.

* `Text.AllBlank`, `Text.IsTrimmed` — texts of blanks, and texts without blanks at their ends.
* `Text.trim_surrounded` — what stands between blanks is left.
* `Text.exists_trim` — a text is what is left of it, between blanks.
* `Text.trim_eq_nil_iff` — nothing is left of blanks, and of nothing else.
* `Text.dropLast_eq_some_iff`, `Text.unquote?_eq_some_iff` — a mark taken from the end of a text,
  and quotes from both ends.
-/

namespace EdgeInclude.Text

variable {s l r u : Text}

/-! ## 1. Trimming -/

/-- Whether a text has no characters but blanks. -/
def AllBlank (s : Text) : Prop := ∀ c ∈ s, isBlank c = true

instance (s : Text) : Decidable (AllBlank s) := List.decidableBAll _ s

/-- Whether a text neither begins nor ends with a blank. -/
def IsTrimmed (s : Text) : Prop :=
  s.head?.any isBlank = false ∧ s.getLast?.any isBlank = false

instance (s : Text) : Decidable (IsTrimmed s) := inferInstanceAs (Decidable (_ ∧ _))

theorem AllBlank.trimStart_append (h : AllBlank l) (s : Text) :
    trimStart (l ++ s) = trimStart s := List.dropWhile_append_of_pos h

theorem trimStart_cons {c : Char} (h : isBlank c = false) (s : Text) :
    trimStart (c :: s) = c :: s :=
  List.dropWhile_cons_of_neg (by rw [h]; exact Bool.false_ne_true)

theorem trimStart_eq_self (h : s.head?.any isBlank = false) : trimStart s = s := by
  cases s with
  | nil => rfl
  | cons c s => exact trimStart_cons h s

theorem trimEnd_eq_reverse (s : Text) : trimEnd s = (trimStart s.reverse).reverse := rfl

/-- **What stands between blanks is left.** -/
theorem trim_surrounded (hl : AllBlank l) (hs : IsTrimmed s) (hr : AllBlank r) :
    trim (l ++ s ++ r) = s := by
  have hrev : AllBlank r.reverse := fun c hc => hr c (List.mem_reverse.1 hc)
  by_cases hne : s = []
  · subst hne
    have hall : AllBlank (l ++ [] ++ r) := by
      intro c hc
      rcases List.mem_append.1 hc with hc | hc
      · exact hl c (by simpa using hc)
      · exact hr c hc
    rw [trim, show trimStart (l ++ [] ++ r) = [] from List.dropWhile_eq_nil_iff.2 hall]
    rfl
  · have hhead : (s ++ r).head?.any isBlank = false := by
      obtain ⟨c, s, rfl⟩ := List.exists_cons_of_ne_nil hne
      exact hs.1
    have hlast : s.reverse.head?.any isBlank = false := by
      rw [List.head?_reverse]
      exact hs.2
    rw [trim, List.append_assoc, hl.trimStart_append, trimStart_eq_self hhead, trimEnd_eq_reverse,
      List.reverse_append, hrev.trimStart_append, trimStart_eq_self hlast, List.reverse_reverse]

theorem trim_eq_self (hs : IsTrimmed s) : trim s = s := by
  have h := trim_surrounded (l := []) (r := []) nofun hs nofun
  rwa [List.nil_append, List.append_nil] at h

/-- A text is what is left of it, between blanks. -/
theorem exists_trim (s : Text) : ∃ l r, AllBlank l ∧ AllBlank r ∧ s = l ++ trim s ++ r := by
  have hcut : ∀ t : Text, ∃ b, AllBlank b ∧ t = b ++ trimStart t := fun t =>
    ⟨t.takeWhile isBlank, fun c hc => List.mem_takeWhile_imp hc,
      List.takeWhile_append_dropWhile.symm⟩
  obtain ⟨l, hl, hs⟩ := hcut s
  obtain ⟨r, hr, ht⟩ := hcut (trimStart s).reverse
  refine ⟨l, r.reverse, hl, fun c hc => hr c (List.mem_reverse.1 hc), ?_⟩
  have hend : trimStart s = trim s ++ r.reverse := by
    rw [trim, trimEnd_eq_reverse, ← List.reverse_append, ← ht, List.reverse_reverse]
  rw [List.append_assoc, ← hend]
  exact hs

theorem trim_eq_nil_iff : trim s = [] ↔ AllBlank s := by
  constructor
  · intro h c hc
    obtain ⟨l, r, hl, hr, hs⟩ := exists_trim s
    rw [h, List.append_nil] at hs
    rw [hs] at hc
    exact (List.mem_append.1 hc).elim (hl c) (hr c)
  · intro h
    have htrim := trim_surrounded h (s := []) (r := []) ⟨rfl, rfl⟩ nofun
    rwa [List.append_nil, List.append_nil] at htrim

theorem AllBlank.not_mem {c : Char} (hs : AllBlank s) (hc : isBlank c = false) : c ∉ s := by
  intro h
  rw [hs c h] at hc
  cases hc

/-! ## 2. Marks at the ends -/

theorem dropLast_eq_some_iff {c : Char} :
    (if s.getLast? == some c then some s.dropLast else none) = some u ↔ s = u ++ [c] := by
  constructor
  · intro h
    split at h
    · rename_i hlast
      obtain ⟨init, rfl⟩ := List.getLast?_eq_some_iff.1 (eq_of_beq hlast)
      rw [List.dropLast_concat] at h
      rw [Option.some.inj h]
    · cases h
  · rintro rfl
    rw [List.getLast?_concat, if_pos (beq_self_eq_true _), List.dropLast_concat]

theorem unquote?_eq_some_iff {q : Char} : unquote? q s = some u ↔ s = q :: u ++ [q] := by
  cases s with
  | nil => exact ⟨nofun, nofun⟩
  | cons a s =>
    show (if a == q && s.getLast? == some q then some s.dropLast else none) = _ ↔ _
    rw [List.cons_append, List.cons.injEq]
    by_cases ha : a = q
    · rw [beq_iff_eq.2 ha, Bool.true_and, dropLast_eq_some_iff, and_iff_right ha]
    · rw [beq_eq_false_iff_ne.2 ha, Bool.false_and]
      exact ⟨nofun, fun h => absurd h.1 ha⟩

end EdgeInclude.Text

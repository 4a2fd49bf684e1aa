import EdgeInclude.Text.Search

/-!
# Where a pattern stands

`splitFirst?` cuts a list around the leftmost occurrence of a pattern. Here an occurrence is a
position of the whole list, so that a search can go on from any position.

* `StandsAt`, `FirstAt`, `NowhereFrom` — a pattern at a position, first at a position, at none.
* `splitFirst?_drop_of_firstAt`, `splitFirst?_drop_of_nowhereFrom` — the cut follows from the
  positions alone.
* `firstAt_or_nowhereFrom` — from any position on, a pattern is somewhere first or nowhere.
* `FirstAt.append`, `exists_splitFirst?_append` — more at the end of a list moves neither its first
  occurrence nor the cut.
* `standsAt_pair_append`, `splitFirst?_pair` — a mark of two begins in front of a seam only if it
  stands there, or across the seam.
-/

namespace EdgeInclude

variable {α : Type} {pat s more : List α} {pos i j : Nat}

/-! ## 1. Positions -/

/-- `pat` stands in `s` at position `i`. -/
def StandsAt (pat s : List α) (i : Nat) : Prop := pat <+: s.drop i

/-- `i` is the first position from `pos` on at which `pat` stands in `s`. -/
structure FirstAt (pat s : List α) (pos i : Nat) : Prop where
  from_le : pos ≤ i
  stands : StandsAt pat s i
  least : ∀ j, pos ≤ j → j < i → ¬ StandsAt pat s j

/-- `pat` stands in `s` at no position from `pos` on. -/
def NowhereFrom (pat s : List α) (pos : Nat) : Prop := ∀ j, pos ≤ j → ¬ StandsAt pat s j

theorem StandsAt.length_le (h : StandsAt pat s i) : pat.length ≤ s.length - i := by
  have := List.IsPrefix.length_le h
  rwa [List.length_drop] at this

theorem StandsAt.end_le (h : StandsAt pat s i) (hp : pat ≠ []) : i + pat.length ≤ s.length := by
  have h1 := h.length_le
  have h2 := List.length_pos_iff.2 hp
  omega

theorem StandsAt.drop_eq (h : StandsAt pat s i) : s.drop i = pat ++ s.drop (i + pat.length) := by
  obtain ⟨rest, hr⟩ := h
  rw [← List.drop_drop, ← hr, List.drop_left]

theorem standsAt_drop : StandsAt pat (s.drop pos) j ↔ StandsAt pat s (pos + j) := by
  unfold StandsAt
  rw [List.drop_drop]

theorem StandsAt.append (h : StandsAt pat s i) : StandsAt pat (s ++ more) i := by
  obtain ⟨rest, hr⟩ := h
  refine ⟨rest ++ more.drop (i - s.length), ?_⟩
  rw [List.drop_append, ← hr, List.append_assoc]

theorem StandsAt.of_append (h : StandsAt pat (s ++ more) i) (hl : pat.length ≤ s.length - i) :
    StandsAt pat s i := by
  unfold StandsAt at h
  rw [List.drop_append] at h
  exact List.prefix_of_prefix_length_le h (List.prefix_append _ _) (by rwa [List.length_drop])

theorem FirstAt.unique (h : FirstAt pat s pos i) (h' : FirstAt pat s pos j) : i = j := by
  rcases Nat.lt_trichotomy i j with hij | hij | hij
  · exact absurd h.stands (h'.least i h.from_le hij)
  · exact hij
  · exact absurd h'.stands (h.least j h'.from_le hij)

theorem FirstAt.not_nowhereFrom (h : FirstAt pat s pos i) : ¬ NowhereFrom pat s pos :=
  fun hn => hn i h.from_le h.stands

theorem FirstAt.add_length_take (h : FirstAt pat s pos i) (hp : pat ≠ []) :
    pos + ((s.drop pos).take (i - pos)).length = i := by
  have h1 := h.from_le
  have h2 := h.stands.end_le hp
  rw [List.length_take, List.length_drop]
  omega

/-- More bytes at the end do not move the first occurrence. -/
theorem FirstAt.append (h : FirstAt pat s pos i) : FirstAt pat (s ++ more) pos i where
  from_le := h.from_le
  stands := h.stands.append
  least j hj hji hs := by
    have hl := h.stands.length_le
    exact h.least j hj hji (hs.of_append (by omega))

theorem nowhereFrom_zero_iff : NowhereFrom pat s 0 ↔ ¬ pat <:+: s := by
  constructor
  · rintro hn ⟨front, rest, rfl⟩
    refine hn front.length (Nat.zero_le _) ⟨rest, ?_⟩
    rw [List.append_assoc, List.drop_left]
  · intro h j _ hs
    exact h (hs.isInfix.trans (List.drop_suffix j s).isInfix)

theorem firstAt_or_nowhereFrom (pat s : List α) (pos : Nat) :
    (∃ i, FirstAt pat s pos i) ∨ NowhereFrom pat s pos := by
  by_cases h : ∃ i, pos ≤ i ∧ StandsAt pat s i
  · left
    obtain ⟨i, hi, hs⟩ := h
    -- the least such position, by strong induction on any of them
    induction i using Nat.strongRecOn with
    | _ i ih =>
      by_cases hj : ∃ j, pos ≤ j ∧ j < i ∧ StandsAt pat s j
      · obtain ⟨j, hpos, hlt, hs'⟩ := hj
        exact ih j hlt hpos hs'
      · exact ⟨i, hi, hs, fun j h1 h2 h3 => hj ⟨j, h1, h2, h3⟩⟩
  · right
    exact fun j hj hs => h ⟨j, hj, hs⟩

/-! ## 2. Cutting -/

variable [BEq α] [LawfulBEq α]

theorem isPrefixOf?_append (pat rest : List α) :
    List.isPrefixOf? pat (pat ++ rest) = some rest := by
  induction pat with
  | nil => rfl
  | cons a pat ih =>
    change (if a == a then List.isPrefixOf? pat (pat ++ rest) else none) = some rest
    rw [if_pos (beq_self_eq_true a), ih]

theorem splitFirst?_append_left (pat rest : List α) :
    splitFirst? pat (pat ++ rest) = some ([], rest) := by
  have h := isPrefixOf?_append pat rest
  cases hs : pat ++ rest with
  | nil =>
    obtain ⟨rfl, rfl⟩ := List.append_eq_nil_iff.1 hs
    rfl
  | cons a s =>
    rw [hs] at h
    simp [splitFirst?, h]

theorem splitFirst?_cons {a : α} (h : ¬ pat <+: a :: s) :
    splitFirst? pat (a :: s) = (splitFirst? pat s).map fun p => (a :: p.1, p.2) := by
  rw [splitFirst?]
  split
  · rename_i rest hr
    exact absurd ⟨rest, (isPrefixOf?_eq_append hr).symm⟩ h
  · rfl

/-- A part in which no occurrence begins is passed over. -/
theorem splitFirst?_append {xs ys : List α} (h : ∀ j < xs.length, ¬ StandsAt pat (xs ++ ys) j) :
    splitFirst? pat (xs ++ ys) = (splitFirst? pat ys).map fun p => (xs ++ p.1, p.2) := by
  induction xs with
  | nil =>
    simp only [List.nil_append]
    exact Option.map_id'.symm
  | cons a xs ih =>
    have h0 : ¬ pat <+: a :: (xs ++ ys) := h 0 (by simp)
    have ih := ih fun j hj => h (j + 1) (by simpa using hj)
    rw [List.cons_append, splitFirst?_cons h0, ih, Option.map_map]
    rfl

theorem splitFirst?_eq_none (h : NowhereFrom pat s 0) : splitFirst? pat s = none := by
  cases hs : splitFirst? pat s with
  | none => rfl
  | some p =>
    refine absurd ?_ (h p.1.length (Nat.zero_le _))
    have hp := splitFirst?_eq_append hs
    refine ⟨p.2, ?_⟩
    rw [hp, List.append_assoc, List.drop_left]

theorem splitFirst?_drop_of_nowhereFrom (h : NowhereFrom pat s pos) :
    splitFirst? pat (s.drop pos) = none :=
  splitFirst?_eq_none fun j _ hs => h (pos + j) (Nat.le_add_right _ _) (standsAt_drop.1 hs)

theorem splitFirst?_drop_of_firstAt (h : FirstAt pat s pos i) :
    splitFirst? pat (s.drop pos) =
      some ((s.drop pos).take (i - pos), s.drop (i + pat.length)) := by
  have hi : pos + (i - pos) = i := by have := h.from_le; omega
  have hcut : (s.drop pos).take (i - pos) ++ s.drop i = s.drop pos := by
    have := List.take_append_drop (i - pos) (s.drop pos)
    rwa [List.drop_drop, hi] at this
  have hskip : ∀ j < ((s.drop pos).take (i - pos)).length,
      ¬ StandsAt pat ((s.drop pos).take (i - pos) ++ s.drop i) j := by
    intro j hj hs
    rw [List.length_take] at hj
    rw [hcut, standsAt_drop] at hs
    exact h.least (pos + j) (Nat.le_add_right _ _) (by omega) hs
  have := splitFirst?_append hskip
  rw [hcut] at this
  rw [this, h.stands.drop_eq, splitFirst?_append_left]
  simp

/-- More at the end of a list does not move the cut. -/
theorem exists_splitFirst?_append {xs : List α} (hp : pat ≠ []) (h : occursIn pat xs = true) :
    ∃ before, ∀ ys, ∃ rest, splitFirst? pat (xs ++ ys) = some (before, rest) := by
  rcases firstAt_or_nowhereFrom pat xs 0 with ⟨i, hi⟩ | hn
  · refine ⟨xs.take i, fun ys => ⟨(xs ++ ys).drop (i + pat.length), ?_⟩⟩
    have hle : i ≤ xs.length := by
      have := hi.stands.end_le hp
      omega
    have hcut := splitFirst?_drop_of_firstAt (hi.append : FirstAt pat (xs ++ ys) 0 i)
    rwa [List.drop_zero, Nat.sub_zero, List.take_append_of_le_length hle] at hcut
  · unfold occursIn at h
    rw [splitFirst?_eq_none hn] at h
    cases h

/-! ## 3. Marks of two -/

section Pair

variable {c d : α} {xs ys : List α}

omit [BEq α] [LawfulBEq α] in
/-- A mark of two that begins in front of a seam stands in front of it, or across it. -/
theorem standsAt_pair_append (h : StandsAt [c, d] (xs ++ ys) j) (hj : j < xs.length) :
    StandsAt [c, d] xs j ∨ xs.getLast? = some c ∧ ys.head? = some d := by
  by_cases hlast : j + 1 = xs.length
  · right
    obtain ⟨init, a, rfl⟩ : ∃ init a, xs = init ++ [a] :=
      ⟨_, _, (List.dropLast_concat_getLast (List.length_pos_iff.1 (Nat.zero_lt_of_lt hj))).symm⟩
    have hlen : j = init.length := by simpa using hlast
    unfold StandsAt at h
    rw [hlen, List.append_assoc, List.drop_left, List.singleton_append,
      List.cons_prefix_cons] at h
    obtain ⟨rfl, rest, hrest⟩ := h
    rw [← hrest]
    exact ⟨List.getLast?_concat, rfl⟩
  · left
    refine h.of_append ?_
    show 2 ≤ _
    omega

omit [BEq α] [LawfulBEq α] in
/-- Where a mark of two stands in joined lists: in one of them, or across the seam. -/
theorem pair_infix_append : [c, d] <:+: xs ++ ys ↔
    [c, d] <:+: xs ∨ [c, d] <:+: ys ∨ xs.getLast? = some c ∧ ys.head? = some d := by
  constructor
  · intro h
    refine Classical.byContradiction fun hnone => ?_
    refine absurd h (nowhereFrom_zero_iff.1 fun j _ hs => hnone ?_)
    by_cases hj : j < xs.length
    · rcases standsAt_pair_append hs hj with hs | hseam
      · exact .inl (hs.isInfix.trans (List.drop_suffix j xs).isInfix)
      · exact .inr (.inr hseam)
    · unfold StandsAt at hs
      rw [List.drop_append, List.drop_eq_nil_of_le (Nat.le_of_not_lt hj), List.nil_append] at hs
      exact .inr (.inl (hs.isInfix.trans (List.drop_suffix _ ys).isInfix))
  · rintro (h | h | ⟨hx, hy⟩)
    · exact h.trans (List.prefix_append xs ys).isInfix
    · exact h.trans (List.suffix_append xs ys).isInfix
    · obtain ⟨init, rfl⟩ := List.getLast?_eq_some_iff.1 hx
      obtain ⟨rest, rfl⟩ := List.head?_eq_some_iff.1 hy
      exact ⟨init, rest, by simp⟩

omit [BEq α] [LawfulBEq α] in
theorem not_pair_infix_append (hx : ¬ [c, d] <:+: xs) (hy : ¬ [c, d] <:+: ys)
    (hseam : xs.getLast? = some c → ys.head? ≠ some d) : ¬ [c, d] <:+: xs ++ ys := by
  rw [pair_infix_append]
  rintro (h | h | ⟨h, h'⟩)
  · exact hx h
  · exact hy h
  · exact hseam h h'

omit [BEq α] [LawfulBEq α] in
theorem not_pair_infix_of_not_mem (h : c ∉ xs) : ¬ [c, d] <:+: xs :=
  fun hi => h (hi.subset List.mem_cons_self)

/-- A part in which a mark of two does not stand is passed over, up to a seam where it does not
stand either. -/
theorem splitFirst?_pair (hno : ¬ [c, d] <:+: xs)
    (hseam : xs.getLast? = some c → ys.head? ≠ some d) :
    splitFirst? [c, d] (xs ++ ys) = (splitFirst? [c, d] ys).map fun p => (xs ++ p.1, p.2) := by
  refine splitFirst?_append fun j hj hs => ?_
  rcases standsAt_pair_append hs hj with hs | ⟨hx, hy⟩
  · exact nowhereFrom_zero_iff.2 hno j (Nat.zero_le j) hs
  · exact hseam hx hy

/-- The cut is in front of a mark of two that the part before it does not run into. -/
theorem splitFirst?_pair_append (hno : ¬ [c, d] <:+: xs) (hlast : xs.getLast? ≠ some c) :
    splitFirst? [c, d] (xs ++ [c, d] ++ ys) = some (xs, ys) := by
  rw [List.append_assoc, splitFirst?_pair hno fun h => absurd h hlast, splitFirst?_append_left]
  simp

end Pair

end EdgeInclude

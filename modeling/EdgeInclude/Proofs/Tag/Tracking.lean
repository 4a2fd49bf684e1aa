import EdgeInclude.Proofs.Tag.Chunks

/-!
# Where a scanner stands

A scanner keeps four numbers and bytes of a page that it has not seen as a whole. They tell exactly
where the page stands that it has been fed: within a candidate or outside of all, where the
candidate opens, and what has come of it so far. And it never holds more than it may, also when it
is fed on after failures.

* `RawTag.EndsWithin` — a page ends within a candidate.
* `RawTag.Closes` — the whole tags of a page, up to the end of one of them.
* `Scanner.Moves`, `Scanner.moves_step` — all that one byte can do to what a scanner carries.
* `Scanner.Follows`, `Scanner.follows_step` — what one byte keeps.
* `Scanner.run_tracks` — where a scanner stands after any history.
-/

namespace EdgeInclude

namespace RawTag

variable {page more : Bytes} {pos stop s e k j : Nat} {b : UInt8} {cs : List Candidate}

/-! ## 1. Pages that end within a candidate -/

/-- A page ends within the candidate that opens at a position: its last opening mark is not closed,
or it breaks off within an opening mark behind its tags. -/
inductive EndsWithin (page : Bytes) : Nat → Prop where
  | unclosed {cs : List Candidate} {s : Nat} {i : Bytes} (hr : Reads page 0 cs)
      (hm : .unclosed s i ∈ cs) : EndsWithin page s
  | begun {tags : List RawTag} {k : Nat} (hr : Reads page 0 (tags.map .closed))
      (hk : k < page.length) (ho : page.drop k <+: opening) : EndsWithin page k

/-- The bytes of `page` from `k` on are those of an opening mark, as far as the page goes. -/
def OpensAt (page : Bytes) (k : Nat) : Prop := (page.drop k).take opening.length <+: opening

theorem opensAt_iff : OpensAt page k ↔
    ∀ i < opening.length, ∀ c, page[k + i]? = some c → opening[i]? = some c := by
  unfold OpensAt
  rw [List.prefix_iff_getElem?]
  constructor
  · intro h i hi c hc
    obtain ⟨hlt, rfl⟩ := List.getElem?_eq_some_iff.1 hc
    have := h i (by rw [List.length_take, List.length_drop]; omega)
    rwa [List.getElem_take, List.getElem_drop] at this
  · intro h i hi
    rw [List.getElem_take, List.getElem_drop]
    rw [List.length_take, List.length_drop] at hi
    exact h i (by omega) _ (List.getElem?_eq_getElem _)

theorem opensAt_of_standsAt (h : StandsAt opening page k) : OpensAt page k := by
  have hopens : (page.drop k).take opening.length = opening := by rw [h.drop_eq, List.take_left]
  exact ⟨[], (List.append_nil _).trans hopens⟩

theorem opensAt_of_prefix (h : page.drop k <+: opening) : OpensAt page k :=
  (List.take_prefix _ _).trans h

/-- Where no opening mark begins, none does when more bytes come. -/
theorem OpensAt.of_append (h : OpensAt (page ++ more) k) : OpensAt page k := by
  rw [opensAt_iff] at h ⊢
  intro i hi c hc
  obtain ⟨hlt, -⟩ := List.getElem?_eq_some_iff.1 hc
  exact h i hi c (by rwa [List.getElem?_append_left hlt])

/-- An opening mark begins nowhere within itself. -/
theorem getElem?_opening_ne (h : 0 < j) : opening[j]? ≠ some 0x3C := by
  by_cases hj : j < 5
  · have : ∀ j < 5, 0 < j → opening[j]? ≠ some 0x3C := by decide
    exact this j hj h
  · rw [List.getElem?_eq_none (by simp only [opening, List.length_cons, List.length_nil]; omega)]
    exact (Option.some_ne_none _).symm

/-- Behind the beginning of an opening mark no other one begins. -/
theorem not_opensAt_within {n : Nat} (h : page.drop s = opening.take n) (hk : s < k)
    (hlen : k < page.length) : ¬ OpensAt page k := by
  intro ho
  have hb : page[k]? = opening[k - s]? := by
    have hget := congrArg (fun bytes => bytes[k - s]?) h
    rw [List.getElem?_drop, Nat.add_sub_cancel' (Nat.le_of_lt hk), List.getElem?_take] at hget
    split at hget
    · exact hget
    · rw [List.getElem?_eq_none_iff] at hget
      omega
  obtain ⟨c, hc⟩ : ∃ c, page[k]? = some c := ⟨_, List.getElem?_eq_getElem hlen⟩
  have h0 := opensAt_iff.1 ho 0 (by decide) c hc
  obtain rfl : c = 0x3C := (Option.some.inj h0).symm
  exact getElem?_opening_ne (by omega) (hb.symm.trans hc)

/-! ## 2. Whole tags -/

/-- From `pos` on, `page` has whole tags, the last of which ends at `stop`. -/
inductive Closes (page : Bytes) : Nat → Nat → Prop where
  | nothing {pos : Nat} : Closes page pos pos
  | tag {pos s e stop : Nat} (ho : FirstAt opening page pos s)
      (hc : FirstAt closing page (s + opening.length) e)
      (hr : Closes page (e + closing.length) stop) : Closes page pos stop

theorem Closes.append (h : Closes page pos stop) : Closes (page ++ more) pos stop := by
  induction h with
  | nothing => exact .nothing
  | tag ho hc _ ih => exact .tag ho.append hc.append ih

theorem Closes.concat (h : Closes page pos stop) (ho : FirstAt opening page stop s)
    (hc : FirstAt closing page (s + opening.length) e) :
    Closes page pos (e + closing.length) := by
  induction h with
  | nothing => exact .tag ho hc .nothing
  | tag ho' hc' _ ih => exact .tag ho' hc' (ih ho)

/-- What is read behind whole tags is read behind them. -/
theorem Closes.reads (h : Closes page pos stop) (hr : Reads page stop cs) :
    ∃ tags : List RawTag, Reads page pos (tags.map .closed ++ cs) := by
  induction h with
  | nothing => exact ⟨[], hr⟩
  | tag ho hc _ ih =>
    obtain ⟨tags, ih⟩ := ih hr
    exact ⟨_ :: tags, .closed ho hc ih⟩

/-- No opening mark goes on across the end of a tag. -/
theorem Closes.stop_le_of_prefix (h : Closes page pos stop) (hpos : pos ≤ k)
    (ho : page.drop k <+: opening) : stop ≤ k := by
  induction h with
  | nothing => exact hpos
  | @tag pos s e stop _ hc _ ih =>
    refine ih (Nat.le_of_not_lt fun hlt => ?_)
    have hends : page[e + 1]? = some 0x3E := by
      have hget := congrArg (fun bytes => bytes[1]?) hc.stands.drop_eq
      rwa [List.getElem?_drop] at hget
    have hin : k ≤ e + 1 := Nat.le_of_lt_succ hlt
    have hget : (page.drop k)[e + 1 - k]? = some 0x3E := by
      rwa [List.getElem?_drop, Nat.add_sub_cancel' hin]
    have hmem := ho.subset (List.mem_of_getElem? hget)
    revert hmem
    decide

end RawTag

namespace Scanner

open RawTag

variable {s s' : Scanner} {b : UInt8} {page chunk : Bytes} {maxSize : Nat} {ev : Event}
  {found tags : List RawTag}

/-! ## 3. One byte -/

/-- What a byte does to what a scanner carries. -/
inductive Moves (s : Scanner) (b : UInt8) : Scanner × Event → Prop where
  /-- The byte is carried on, behind those before it. -/
  | on {s' : Scanner} (origin_eq : s'.origin = s.origin)
      (position_eq : s'.position = s.position + 1)
      (carried_eq : s'.carried = s.carried ++ [b]) : Moves s b (s', .quiet)
  /-- The byte breaks an opening mark off, and may open another one. -/
  | broken {n : Nat} (lt : n < opening.length) (carried_eq : s.carried = opening.take n)
      (ne : opening[n]? ≠ some b) : Moves s b ((s.restart b).advance, .quiet)
  /-- The byte closes a tag. -/
  | closed (stage_eq : s.stage = .slash) (byte_eq : b = 0x3E) :
      Moves s b ({ s with stage := .outside, held := #[] }.advance,
        .found ⟨s.held.toList, s.tagStart, s.position + 1⟩)
  | tooLong {s' : Scanner} : Moves s b (s', .tooLong)

/-- A byte that should go on with the opening mark. -/
theorem moves_expect {n : Nat} {want : UInt8} (next : Stage) (hs : s.stage ≠ .outside)
    (hnext : next ≠ .outside) (hc : s.carried = opening.take n) (hw : opening[n]? = some want)
    (hc' : ∀ t : Scanner, t.stage = next → t.carried = opening.take n ++ [want]) :
    s.Moves b ((s.expect b want next).advance, .quiet) := by
  have hn : n < opening.length := (List.getElem?_eq_some_iff.1 hw).1
  unfold expect
  split
  · rename_i hb
    obtain rfl := eq_of_beq hb
    refine .on ?_ rfl ?_
    · simp [origin, advance, hs, hnext]
    · rw [hc]
      exact hc' _ rfl
  · rename_i hb
    refine .broken hn hc fun he => hb ?_
    rw [hw] at he
    exact beq_iff_eq.2 (Option.some.inj he).symm

theorem moves_outside (hs : s.stage = .outside) : s.Moves b (s.step b) := by
  simp only [step, hs]
  split
  · rename_i hb
    obtain rfl := eq_of_beq hb
    refine .on ?_ rfl ?_
    · simp [origin, advance, hs]
    · simp [carried, advance, hs, opening]
  · rename_i hb
    have hrestart : s.restart b = s := by
      unfold restart
      rw [if_neg hb, ← hs]
    have hmoves : s.Moves b ((s.restart b).advance, .quiet) := by
      refine .broken (n := 0) (by decide) (by simp [carried, hs]) fun he => hb ?_
      exact beq_iff_eq.2 (Option.some.inj he).symm
    rwa [hrestart] at hmoves

theorem moves_mark4 (hs : s.stage = .mark4) : s.Moves b (s.step b) := by
  simp only [step, hs]
  split
  · rename_i hb
    obtain rfl := eq_of_beq hb
    refine .on ?_ rfl ?_
    · simp [origin, advance, hs]
    · simp [carried, advance, hs, opening]
  · rename_i hb
    refine .broken (n := 4) (by decide) (by simp [carried, hs]) fun he => hb ?_
    exact beq_iff_eq.2 (Option.some.inj he).symm

theorem moves_inside (hs : s.stage = .inside) : s.Moves b (s.step b) := by
  simp only [step, hs]
  split
  · rename_i hb
    obtain rfl := eq_of_beq hb
    refine .on ?_ rfl ?_
    · simp [origin, advance, hs]
    · simp [carried, advance, hs]
  · split
    · rename_i s' hs'
      obtain ⟨-, rfl⟩ := hold?_eq hs'
      refine .on ?_ rfl ?_
      · simp [origin, advance, hs]
      · simp [carried, advance, hs]
    · exact .tooLong

/-- A slash that turns out not to close the tag is carried on as part of the interior. -/
theorem moves_slash (hs : s.stage = .slash) : s.Moves b (s.step b) := by
  simp only [step, hs]
  split
  · rename_i hb
    exact .closed hs (eq_of_beq hb)
  · split
    · exact .tooLong
    · rename_i s' hs'
      obtain ⟨-, rfl⟩ := hold?_eq hs'
      split
      · rename_i hb
        obtain rfl := eq_of_beq hb
        refine .on ?_ rfl ?_
        · simp [origin, advance, hs]
        · simp [carried, advance, hs]
      · split
        · rename_i s'' hs''
          obtain ⟨-, rfl⟩ := hold?_eq hs''
          refine .on ?_ rfl ?_
          · simp [origin, advance, hs]
          · simp [carried, advance, hs]
        · exact .tooLong

/-- **All that one byte can do.** -/
theorem moves_step (s : Scanner) (b : UInt8) : s.Moves b (s.step b) := by
  cases hs : s.stage with
  | outside => exact moves_outside hs
  | mark1 =>
    have := moves_expect (s := s) (b := b) (n := 1) .mark2 (by simp [hs]) (by decide)
      (by simp [carried, hs]) rfl fun t ht => by simp [carried, ht, opening]
    simpa only [step, hs] using this
  | mark2 =>
    have := moves_expect (s := s) (b := b) (n := 2) .mark3 (by simp [hs]) (by decide)
      (by simp [carried, hs]) rfl fun t ht => by simp [carried, ht, opening]
    simpa only [step, hs] using this
  | mark3 =>
    have := moves_expect (s := s) (b := b) (n := 3) .mark4 (by simp [hs]) (by decide)
      (by simp [carried, hs]) rfl fun t ht => by simp [carried, ht, opening]
    simpa only [step, hs] using this
  | mark4 => exact moves_mark4 hs
  | inside => exact moves_inside hs
  | slash => exact moves_slash hs

/-! ## 4. What a scanner follows -/

/-- A scanner that has been fed `page` carries its end. In front of this are whole tags, and behind
them no opening mark begins. -/
structure Follows (s : Scanner) (page : Bytes) : Prop where
  sound : s.Sound
  position_eq : s.position = page.length
  drop_eq : page.drop s.origin = s.carried
  exists_stop : ∃ stop, Closes page 0 stop ∧ stop ≤ s.origin ∧
    ∀ k, stop ≤ k → k < s.origin → ¬ OpensAt page k

theorem follows_new (maxSize : Nat) : (new maxSize).Follows [] where
  sound := sound_new maxSize
  position_eq := rfl
  drop_eq := rfl
  exists_stop := ⟨0, .nothing, Nat.le_refl _, fun k _ hk => absurd hk (Nat.not_lt_zero k)⟩

theorem Follows.origin_add (h : s.Follows page) : s.origin + s.carried.length = page.length :=
  h.sound.position_eq.trans h.position_eq

theorem Follows.concat_drop (h : s.Follows page) :
    (page ++ [b]).drop s.origin = s.carried ++ [b] := by
  rw [List.drop_append_of_le_length (by have := h.origin_add; omega), h.drop_eq]

/-- A byte that is carried on moves nothing. -/
theorem Follows.on (h : s.Follows page) (hs : s'.Sound) (ho : s'.origin = s.origin)
    (hp : s'.position = s.position + 1) (hc : s'.carried = s.carried ++ [b]) :
    s'.Follows (page ++ [b]) where
  sound := hs
  position_eq := by rw [hp, h.position_eq, List.length_append, List.length_singleton]
  drop_eq := by rw [ho, hc, h.concat_drop]
  exists_stop := by
    obtain ⟨stop, hcl, hle, hno⟩ := h.exists_stop
    rw [ho]
    exact ⟨stop, hcl.append, hle, fun k hk hlt hat => hno k hk hlt hat.of_append⟩

/-- An opening mark that breaks off begins nowhere, unless with the byte that breaks it. -/
theorem Follows.not_opensAt_broken {n k : Nat} (h : s.Follows page) (hn : n < opening.length)
    (hc : s.carried = opening.take n) (hb : opening[n]? ≠ some b) (hk : s.origin ≤ k)
    (hlt : k < page.length) : ¬ OpensAt (page ++ [b]) k := by
  intro hat
  have hdrop : page.drop s.origin = opening.take n := h.drop_eq.trans hc
  rcases Nat.lt_or_eq_of_le hk with hk | rfl
  · exact not_opensAt_within hdrop hk hlt hat.of_append
  · have hlen : s.origin + n = page.length := by
      rw [← h.origin_add, hc, List.length_take, Nat.min_eq_left (Nat.le_of_lt hn)]
    refine hb (opensAt_iff.1 hat n hn b ?_)
    rw [hlen, List.getElem?_append_right (Nat.le_refl _), Nat.sub_self]
    rfl

theorem Follows.broken {n : Nat} (h : s.Follows page) (hs : (s.restart b).advance.Sound)
    (hn : n < opening.length) (hc : s.carried = opening.take n) (hb : opening[n]? ≠ some b) :
    (s.restart b).advance.Follows (page ++ [b]) := by
  obtain ⟨stop, hcl, hle, hno⟩ := h.exists_stop
  have hskip : ∀ k, stop ≤ k → k < page.length → ¬ OpensAt (page ++ [b]) k := by
    intro k hk hlt
    by_cases hko : k < s.origin
    · exact fun hat => hno k hk hko hat.of_append
    · exact h.not_opensAt_broken hn hc hb (Nat.le_of_not_lt hko) hlt
  have horigin : s.origin ≤ page.length := by
    have := h.origin_add
    omega
  have hlen : (page ++ [b]).length = page.length + 1 := by
    rw [List.length_append, List.length_singleton]
  by_cases hlt : b = 0x3C
  · subst hlt
    have hrestart : s.restart 0x3C = { s with stage := .mark1, tagStart := s.position } := rfl
    rw [hrestart] at hs ⊢
    refine ⟨hs, ?_, ?_, stop, hcl.append, ?_, ?_⟩
    · rw [hlen, ← h.position_eq]
      rfl
    · show (page ++ [0x3C]).drop s.position = opening.take 1
      rw [h.position_eq, List.drop_left]
      rfl
    · show stop ≤ s.position
      rw [h.position_eq]
      exact Nat.le_trans hle horigin
    · show ∀ k, stop ≤ k → k < s.position → _
      rwa [h.position_eq]
  · have hrestart : s.restart b = { s with stage := .outside } :=
      if_neg fun he => hlt (eq_of_beq he)
    rw [hrestart] at hs ⊢
    refine ⟨hs, ?_, ?_, stop, hcl.append, ?_, ?_⟩
    · rw [hlen, ← h.position_eq]
      rfl
    · show (page ++ [b]).drop (s.position + 1) = []
      rw [h.position_eq, ← hlen, List.drop_length]
    · show stop ≤ s.position + 1
      rw [h.position_eq]
      exact Nat.le_succ_of_le (Nat.le_trans hle horigin)
    · show ∀ k, stop ≤ k → k < s.position + 1 → _
      rw [h.position_eq]
      intro k hk hk'
      rcases Nat.lt_or_eq_of_le (Nat.le_of_lt_succ hk') with hk' | rfl
      · exact hskip k hk hk'
      · intro hat
        refine hlt ?_
        have h0 := opensAt_iff.1 hat 0 (by decide) b (by
          rw [Nat.add_zero, List.getElem?_append_right (Nat.le_refl _), Nat.sub_self]
          rfl)
        exact (Option.some.inj h0).symm

/-- Within a complete opening mark, the first one behind the tags stands where the candidate
opens. -/
theorem Follows.firstAt_opening (h : s.Follows page) (hw : s.isWithin) :
    ∃ stop, Closes page 0 stop ∧ FirstAt opening page stop s.origin := by
  obtain ⟨stop, hcl, hle, hno⟩ := h.exists_stop
  have hstands : StandsAt opening page s.origin := by
    unfold StandsAt
    rw [h.drop_eq]
    unfold isWithin at hw
    unfold carried
    split <;> simp_all
  exact ⟨stop, hcl, hle, hstands, fun j hj hlt hat => hno j hj hlt (opensAt_of_standsAt hat)⟩

theorem Follows.closed (h : s.Follows page) (hstage : s.stage = .slash)
    (hs : { s with stage := .outside, held := #[] }.advance.Sound) :
    { s with stage := .outside, held := #[] }.advance.Follows (page ++ [0x3E]) := by
  have hw : s.isWithin = true := by simp [isWithin, hstage]
  have hc : s.carried = opening ++ s.held.toList ++ [0x2F] := by simp [carried, hstage]
  obtain ⟨stop, hcl, ho⟩ := h.firstAt_opening hw
  have hdrop : (page ++ [0x3E]).drop (s.origin + opening.length) = s.held.toList ++ closing := by
    rw [← List.drop_drop, h.concat_drop, hc, List.append_assoc, List.append_assoc, List.drop_left]
    rfl
  -- the interior has no closing mark, and none lies across its end
  have hfirst : FirstAt closing (page ++ [0x3E]) (s.origin + opening.length)
      (s.origin + opening.length + s.held.toList.length) := by
    refine ⟨Nat.le_add_right _ _, ?_, fun j hj hlt hat => ?_⟩
    · rw [← standsAt_drop, hdrop]
      exact ⟨[], (List.append_nil _).trans List.drop_left.symm⟩
    · obtain ⟨d, rfl⟩ := Nat.exists_eq_add_of_le hj
      rw [← standsAt_drop, hdrop] at hat
      exact not_standsAt_append (h.sound.isOpen hw) (fun _ => by decide) d (by omega) hat
  have hend : s.origin + opening.length + s.held.toList.length + closing.length =
      page.length + 1 := by
    rw [← h.origin_add, hc]
    simp only [List.length_append, List.length_cons, List.length_nil, closing]
    omega
  refine ⟨hs, ?_, ?_, page.length + 1, ?_, ?_, ?_⟩
  · show s.position + 1 = _
    rw [h.position_eq, List.length_append, List.length_singleton]
  · show (page ++ [0x3E]).drop (s.position + 1) = []
    rw [h.position_eq]
    exact List.drop_eq_nil_of_le (by simp)
  · rw [← hend]
    exact hcl.append.concat ho.append hfirst
  · exact Nat.le_of_eq (congrArg (· + 1) h.position_eq.symm)
  · show ∀ k, _ → k < s.position + 1 → _
    rw [h.position_eq]
    exact fun k hk hlt => absurd hlt (Nat.not_lt.2 hk)

/-- **One byte keeps what a scanner follows**, unless there is no room for it. -/
theorem follows_step (h : s.Follows page) (hstep : s.step b = (s', ev)) (he : ev ≠ .tooLong) :
    s'.Follows (page ++ [b]) := by
  have hsound : s'.Sound := by
    have hb := step_agrees h.sound b
    rw [hstep] at hb
    cases ev with
    | quiet => exact hb.1
    | found t => exact hb.1
    | tooLong => exact absurd rfl he
  have hmoves := moves_step s b
  rw [hstep] at hmoves
  cases hmoves with
  | on ho hp hc => exact h.on hsound ho hp hc
  | broken hn hc hb => exact h.broken hsound hn hc hb
  | closed hstage hb =>
    subst hb
    exact h.closed hstage hsound
  | tooLong => exact absurd rfl he

/-- So do the bytes of a page that is fed without a failure. -/
theorem follows_feedFrom (h : s.Follows page) (hfeed : s.feedFrom found chunk = (s', .ok tags)) :
    s'.Follows (page ++ chunk) := by
  induction chunk generalizing s found page with
  | nil =>
    cases hfeed
    rwa [List.append_nil]
  | cons b rest ih =>
    rw [List.append_cons]
    unfold feedFrom at hfeed
    split at hfeed
    · rename_i s1 hs
      exact ih (follows_step h hs nofun) hfeed
    · rename_i s1 t hs
      exact ih (follows_step h hs nofun) hfeed
    · cases hfeed

/-! ## 5. What a scanner knows of a page -/

/-- A scanner tells where the page stands that it has been fed. -/
structure Tracks (s : Scanner) (page : Bytes) : Prop where
  position_eq : s.position = page.length
  /-- It is in a tag if and only if the page ends within a candidate, and knows where. -/
  endsWithin_iff : ∀ k, EndsWithin page k ↔ s.inTag ∧ s.tagStart = k
  /-- What has come of the candidate is as much of the opening mark as has been recognised, or the
  mark, what is held, and a slash that may belong to the closing mark. -/
  drop_eq : s.inTag → page.drop s.tagStart = s.carried
  isOpen : s.inTag → ¬ closing <:+: page.drop (s.tagStart + opening.length)

theorem inTag_iff : s.inTag ↔ s.stage ≠ .outside := by
  simp [inTag]

theorem origin_of_inTag (h : s.inTag) : s.origin = s.tagStart := if_neg (inTag_iff.1 h)

/-- Outside of complete opening marks, a scanner carries the beginning of one. -/
theorem exists_carried (hw : s.isWithin = false) : ∃ n < opening.length,
    s.carried = opening.take n ∧ (s.inTag ↔ n ≠ 0) := by
  cases hs : s.stage with
  | outside => exact ⟨0, by decide, by simp [carried, hs], by simp [inTag, hs]⟩
  | mark1 => exact ⟨1, by decide, by simp [carried, hs], by simp [inTag, hs]⟩
  | mark2 => exact ⟨2, by decide, by simp [carried, hs], by simp [inTag, hs]⟩
  | mark3 => exact ⟨3, by decide, by simp [carried, hs], by simp [inTag, hs]⟩
  | mark4 => exact ⟨4, by decide, by simp [carried, hs], by simp [inTag, hs]⟩
  | inside => simp [isWithin, hs] at hw
  | slash => simp [isWithin, hs] at hw

/-- Behind a complete opening mark no closing mark has come. -/
theorem Follows.nowhereFrom_closing (h : s.Follows page) (hw : s.isWithin) :
    NowhereFrom closing page (s.origin + opening.length) := by
  intro j hj hat
  obtain ⟨d, rfl⟩ := Nat.exists_eq_add_of_le hj
  rw [← standsAt_drop, ← List.drop_drop, h.drop_eq] at hat
  cases hs : s.stage with
  | inside =>
    have hc : s.carried = opening ++ s.held.toList := by simp [carried, hs]
    rw [hc, List.drop_left] at hat
    exact h.sound.isOpen hw d (Nat.zero_le d) hat
  | slash =>
    have hc : s.carried = opening ++ (s.held.toList ++ [0x2F]) := by simp [carried, hs]
    rw [hc, List.drop_left] at hat
    exact nowhereFrom_closing_snoc (h.sound.isOpen hw) (fun _ => by decide) d (Nat.zero_le d) hat
  | outside | mark1 | mark2 | mark3 | mark4 => simp [isWithin, hs] at hw

/-- Behind a complete opening mark, the page ends within its candidate and no other one. -/
theorem Follows.endsWithin_iff_of_isWithin (h : s.Follows page) (hw : s.isWithin) (k : Nat) :
    EndsWithin page k ↔ s.origin = k := by
  obtain ⟨stop, hcl, ho⟩ := h.firstAt_opening hw
  obtain ⟨tags, hr⟩ := hcl.reads (.unclosed ho (h.nowhereFrom_closing hw))
  constructor
  · rintro (⟨hr', hm⟩ | ⟨hr', hk, hp⟩)
    · rw [← hr.unique hr', List.mem_append, List.mem_singleton] at hm
      rcases hm with hm | hm
      · obtain ⟨t, -, ht⟩ := List.mem_map.1 hm
        cases ht
      · exact (Candidate.unclosed.inj hm).1.symm
    · have hmem : Candidate.unclosed s.origin (unclosed (page.drop (s.origin + opening.length))) ∈
          tags.map .closed ++
            [.unclosed s.origin (unclosed (page.drop (s.origin + opening.length)))] :=
        List.mem_append_right _ (List.mem_singleton_self _)
      rw [hr.unique hr'] at hmem
      obtain ⟨t, -, ht⟩ := List.mem_map.1 hmem
      cases ht
  · rintro rfl
    exact .unclosed hr (List.mem_append_right _ (List.mem_singleton_self _))

/-- Else the page ends within a candidate if and only if the beginning of an opening mark is
carried. -/
theorem Follows.endsWithin_iff_of_not_isWithin (h : s.Follows page) (hw : s.isWithin = false)
    (k : Nat) : EndsWithin page k ↔ s.inTag ∧ s.origin = k := by
  obtain ⟨n, hn, hc, hin⟩ := exists_carried hw
  obtain ⟨stop, hcl, hle, hno⟩ := h.exists_stop
  have hdrop : page.drop s.origin = opening.take n := h.drop_eq.trans hc
  have hlen : s.origin + n = page.length := by
    rw [← h.origin_add, hc, List.length_take, Nat.min_eq_left (Nat.le_of_lt hn)]
  -- what is carried is too short for an opening mark
  have hnone : NowhereFrom opening page stop := by
    intro j hj hat
    refine hno j hj ?_ (opensAt_of_standsAt hat)
    have := hat.end_le opening_ne_nil
    omega
  obtain ⟨tags, hr⟩ := hcl.reads (.nothing hnone)
  rw [List.append_nil] at hr
  constructor
  · rintro (⟨hr', hm⟩ | ⟨-, hk, hp⟩)
    · rw [← hr.unique hr'] at hm
      obtain ⟨t, -, ht⟩ := List.mem_map.1 hm
      cases ht
    · have hat := opensAt_of_prefix hp
      have hsk : s.origin ≤ k :=
        Nat.le_of_not_lt fun hlt => hno k (hcl.stop_le_of_prefix (Nat.zero_le k) hp) hlt hat
      have hks : s.origin = k := by
        rcases Nat.lt_or_eq_of_le hsk with hlt | heq
        · exact absurd hat (not_opensAt_within hdrop hlt hk)
        · exact heq
      exact ⟨hin.2 (by omega), hks⟩
  · rintro ⟨ht, rfl⟩
    have hne := hin.1 ht
    exact .begun hr (by omega) (hdrop ▸ List.take_prefix n opening)

theorem Follows.tracks (h : s.Follows page) : s.Tracks page where
  position_eq := h.position_eq
  endsWithin_iff k := by
    cases hw : s.isWithin with
    | true =>
      have hin : s.inTag := inTag_iff.2 fun hs => by simp [isWithin, hs] at hw
      rw [h.endsWithin_iff_of_isWithin hw, origin_of_inTag hin]
      exact (and_iff_right hin).symm
    | false =>
      rw [h.endsWithin_iff_of_not_isWithin hw]
      exact and_congr_right fun hin => by rw [origin_of_inTag hin]
  drop_eq hin := by rw [← origin_of_inTag hin, h.drop_eq]
  isOpen hin := by
    rw [← nowhereFrom_zero_iff, ← origin_of_inTag hin]
    intro j _ hat
    cases hw : s.isWithin with
    | true => exact h.nowhereFrom_closing hw _ (Nat.le_add_right _ j) (standsAt_drop.1 hat)
    | false =>
      obtain ⟨n, hn, hc, -⟩ := exists_carried hw
      have hlen := hat.end_le closing_ne_nil
      have hpos : 0 < closing.length := by decide
      have hadd := h.origin_add
      rw [hc, List.length_take, Nat.min_eq_left (Nat.le_of_lt hn)] at hadd
      rw [List.length_drop] at hlen
      omega

/-! ## 6. Histories -/

/-- What can be done to a scanner. A chunk may fail; the scanner is kept all the same. -/
inductive Act where
  | feed (chunk : Bytes)
  | reset

/-- The scanner after one act. -/
def apply (s : Scanner) : Act → Scanner
  | .feed chunk => (s.feed chunk).1
  | .reset => s.reset

/-- Acts, one after the other. -/
def run (s : Scanner) (acts : List Act) : Scanner := acts.foldl apply s

theorem maxSize_run (s : Scanner) (acts : List Act) : (s.run acts).maxSize = s.maxSize := by
  induction acts generalizing s with
  | nil => rfl
  | cons a acts ih =>
    refine (ih (s.apply a)).trans ?_
    cases a with
    | feed chunk => exact maxSize_feed s chunk
    | reset => rfl

/-- A byte is held only where there is room, also the slash in front of a byte for which there is
none left. -/
theorem held_le_step (h : s.held.size ≤ s.maxSize) (b : UInt8) :
    (s.step b).1.held.size ≤ s.maxSize := by
  unfold step
  grind [advance, expect, restart, hold?]

theorem held_le_feedFrom (h : s.held.size ≤ s.maxSize) (found : List RawTag) (page : Bytes) :
    (s.feedFrom found page).1.held.size ≤ s.maxSize := by
  induction page generalizing s found with
  | nil => exact h
  | cons b rest ih =>
    have hm := maxSize_step s b
    have hb := held_le_step h b
    unfold feedFrom
    split
    · rename_i s1 hs
      rw [hs] at hm hb
      exact hm ▸ ih (hm ▸ hb) found
    · rename_i s1 t hs
      rw [hs] at hm hb
      exact hm ▸ ih (hm ▸ hb) (t :: found)
    · rename_i s1 hs
      rwa [hs] at hb

/-- **A scanner never holds more than it may**, whatever has failed before. -/
theorem held_le_run (h : s.held.size ≤ s.maxSize) (acts : List Act) :
    (s.run acts).held.size ≤ s.maxSize := by
  induction acts generalizing s with
  | nil => exact h
  | cons a acts ih =>
    cases a with
    | feed chunk =>
      have hm := maxSize_feed s chunk
      exact hm ▸ ih (s := (s.feed chunk).1) (hm ▸ held_le_feedFrom h [] chunk)
    | reset => exact ih (s := s.reset) (Nat.zero_le _)

/-- **Where a scanner stands.** After any history of chunks, failures and resets it holds no more
than it may. And once it has been made like new, as long as no chunk fails, its position is the
number of bytes that it has been fed, it is in a tag if and only if these bytes end within a
candidate, and it knows where this opens and what has come of it, in which no closing mark stands.
A new scanner is the case without a history. -/
theorem run_tracks (maxSize : Nat) (acts : List Act) :
    ((new maxSize).run acts).held.size ≤ maxSize ∧
      ∀ chunks s' tags, ((new maxSize).run acts).reset.feedAll chunks = (s', .ok tags) →
        s'.Tracks chunks.flatten := by
  refine ⟨held_le_run (Nat.zero_le _) acts, fun chunks s' tags hfeed => ?_⟩
  have hreset : ((new maxSize).run acts).reset = new maxSize := by
    rw [reset, maxSize_run]
    rfl
  rw [hreset, feedAll_eq_feed] at hfeed
  exact (follows_feedFrom (follows_new maxSize) hfeed).tracks

/-- A scanner that has failed behind a slash, and again on the next byte, is made like new and then
stops behind a slash. -/
theorem run_tracks_sample :
    let s := (new 3).run [.feed (Text.utf8 "<esi:ab/c".toList), .feed (Text.utf8 "d".toList)]
    let s' : Scanner := ⟨3, .slash, #[0x62], 8, 1⟩
    let page := [Text.utf8 "a<es".toList, Text.utf8 "i:b/".toList]
    s.held.size = 3 ∧ s.reset.feedAll page = (s', .ok []) ∧ s'.Tracks page.flatten := by
  intro s s' page
  have hfeed : s.reset.feedAll page = (s', .ok []) := by rfl
  exact ⟨by decide +kernel, hfeed, (run_tracks 3 _).2 page s' [] hfeed⟩

end Scanner

end EdgeInclude

import EdgeInclude.Proofs.Tag.Scanning

/-!
# Tags that stand in another page too

Tags that have been found in one page may stand in another one at the very same places. Whether they
are what a scan of the other page finds depends on what stands between them and behind them.

* `IsStray` — an opening mark outside the spans of tags, which a scan does not pass over: it is
  closed somewhere, or too much of the page lies behind it.
* `nowhereFrom_of_reads` — a tag is closed by the first closing mark that it has.
* `exists_reads_of_isIn` — without stray marks, a page is read tag by tag.
* `scan_eq_iff` — tags of one page that stand in another are what a scan of that one finds, if and
  only if it has no stray mark.
-/

namespace EdgeInclude.RawTag

/-- An opening mark of `body` outside the spans of `tags` that a scan makes something of: some
closing mark follows it, or more than `maxSize` bytes that count as its interior. -/
structure IsStray (maxSize : Nat) (tags : List RawTag) (body : Bytes) (i : Nat) : Prop where
  stands : StandsAt opening body i
  outside : ∀ t ∈ tags, ¬ (t.start ≤ i ∧ i < t.stop)
  counts : ¬ NowhereFrom closing body (i + opening.length) ∨
    maxSize < (unclosed (body.drop (i + opening.length))).length

variable {page body : Bytes} {pos i maxSize : Nat} {cs : List Candidate} {t : RawTag}
  {tags : List RawTag}

/-! ## 1. What a scan makes of an opening mark -/

theorem length_unclosed_drop (page : Bytes) {m n : Nat} (h : m ≤ n) :
    (unclosed (page.drop n)).length ≤ (unclosed (page.drop m)).length := by
  have hlen : (page.drop n).length ≤ (page.drop m).length := by
    rw [List.length_drop, List.length_drop]
    omega
  by_cases hn : page.length ≤ n
  · rw [List.drop_eq_nil_of_le hn]
    exact Nat.zero_le _
  · -- neither rest is empty, and so both end with the last byte of the page
    have hlast : (page.drop n).getLast? = (page.drop m).getLast? := by
      rw [List.getLast?_drop, List.getLast?_drop, if_neg (by omega), if_neg (by omega)]
    unfold unclosed
    rw [hlast]
    split
    · rw [List.length_dropLast, List.length_dropLast]
      exact Nat.sub_le_sub_right hlen 1
    · exact hlen

/-- Where all candidates are short, no opening mark outside of them is stray. -/
theorem Reads.not_isStray (h : Reads page pos cs)
    (hw : ∀ c ∈ cs, c.interior.length ≤ maxSize) (hi : pos ≤ i) :
    ¬ IsStray maxSize (tagsOf cs) page i := by
  induction h with
  | nothing ho => exact fun hs => ho i hi hs.stands
  | @unclosed pos s ho hc =>
    intro hs
    have hsi : s ≤ i := Nat.le_of_not_lt fun hlt => ho.least i hi hlt hs.stands
    rcases hs.counts with hcl | hlong
    · exact hcl fun j hj => hc j (by omega)
    · have hmono := length_unclosed_drop page (Nat.add_le_add_right hsi opening.length)
      have hshort := hw _ (List.mem_singleton_self _)
      exact absurd (Nat.lt_of_lt_of_le hlong hmono) (Nat.not_lt.2 hshort)
  | @closed pos s e cs ho hc _ ih =>
    intro hs
    have hsi : s ≤ i := Nat.le_of_not_lt fun hlt => ho.least i hi hlt hs.stands
    have hout := hs.outside _ List.mem_cons_self
    have hei : e + closing.length ≤ i := Nat.le_of_not_lt fun hlt => hout ⟨hsi, hlt⟩
    exact ih (fun c hcs => hw c (List.mem_cons_of_mem _ hcs)) hei
      ⟨hs.stands, fun t ht => hs.outside t (List.mem_cons_of_mem _ ht), hs.counts⟩

/-! ## 2. Tags in another page -/

/-- A tag is closed by the first closing mark that it has. -/
theorem nowhereFrom_of_reads (h : Reads page pos cs) :
    ∀ t ∈ tagsOf cs, NowhereFrom closing t.interior 0 := by
  induction h with
  | nothing => intro t ht; cases ht
  | unclosed => intro t ht; cases ht
  | @closed pos s e cs ho hc _ ih =>
    intro t ht
    rcases List.mem_cons.1 ht with rfl | ht
    · intro j _ hj
      have hend := hj.end_le closing_ne_nil
      dsimp only at hend
      have hlen := hc.add_length_take closing_ne_nil
      have hpage : StandsAt closing (page.drop (s + opening.length)) j := by
        rw [← List.take_append_drop (e - (s + opening.length)) (page.drop (s + opening.length))]
        exact hj.append
      have hpos : 0 < closing.length := by decide
      exact hc.least _ (Nat.le_add_right _ _) (by omega) (standsAt_drop.1 hpage)
    · exact ih t ht

theorem isIn_of_fits (h : t.fits body = true) : t.IsIn body := by
  obtain ⟨hstop, hroom, hslice⟩ := fits_iff.1 h
  have hlen := congrArg List.length hslice
  rw [length_written, List.length_take, List.length_drop] at hlen
  exact ⟨by omega, hstop, hslice⟩

/-- What stands in a page from the start of a tag on. -/
theorem IsIn.drop_eq (h : t.IsIn body) : body.drop t.start =
    opening ++ (t.interior ++ (closing ++ body.drop t.stop)) := by
  have hle := h.start_lt_stop
  have hcut := List.take_append_drop (t.stop - t.start) (body.drop t.start)
  rw [h.slice_eq, List.drop_drop, Nat.add_sub_cancel' (Nat.le_of_lt hle)] at hcut
  rw [← hcut]
  simp [written]

theorem IsIn.opens (h : t.IsIn body) : StandsAt opening body t.start := by
  unfold StandsAt
  rw [h.drop_eq]
  exact List.prefix_append _ _

/-- A tag without a closing mark in its interior is closed by its own. -/
theorem IsIn.firstAt_closing (h : t.IsIn body) (hn : NowhereFrom closing t.interior 0) :
    FirstAt closing body (t.start + opening.length) (t.stop - closing.length) := by
  have hstop : t.stop - closing.length = t.start + opening.length + t.interior.length := by
    have := h.stop_eq
    rw [frame] at this
    omega
  have hdrop : body.drop (t.start + opening.length) =
      t.interior ++ (closing ++ body.drop t.stop) := by
    rw [← List.drop_drop, h.drop_eq, List.drop_left]
  rw [hstop]
  refine ⟨Nat.le_add_right _ _, ?_, fun j hj hlt hs => ?_⟩
  · rw [← standsAt_drop, hdrop]
    unfold StandsAt
    rw [List.drop_left]
    exact List.prefix_append _ _
  · obtain ⟨k, rfl⟩ := Nat.exists_eq_add_of_le hj
    rw [← standsAt_drop, hdrop] at hs
    exact not_standsAt_append hn (by simp [closing]) k (by omega) hs

/-- What stands between the marks of a tag is its interior. -/
theorem IsIn.interior_eq (h : t.IsIn body) : (body.drop (t.start + opening.length)).take
    (t.stop - closing.length - (t.start + opening.length)) = t.interior := by
  have hlen : t.stop - closing.length - (t.start + opening.length) = t.interior.length := by
    have hstop := h.stop_eq
    rw [frame] at hstop
    omega
  rw [hlen, ← List.drop_drop, h.drop_eq, List.drop_left, List.take_left]

/-- A tag that the next opening mark opens is the next candidate. -/
theorem IsIn.reads (h : t.IsIn body) (hn : NowhereFrom closing t.interior 0)
    (ho : FirstAt opening body pos t.start) (hr : Reads body t.stop cs) :
    Reads body pos (.closed t :: cs) := by
  have hend : t.stop - closing.length + closing.length = t.stop := by
    have hstop := h.stop_eq
    rw [frame] at hstop
    omega
  have hread := Reads.closed ho (h.firstAt_closing hn) (hend.symm ▸ hr)
  rwa [h.interior_eq, hend] at hread

/-- A mark behind a tag that the other tags do not account for is stray. -/
theorem IsStray.cons (h : IsStray maxSize tags body i) (hi : t.stop ≤ i) :
    IsStray maxSize (t :: tags) body i where
  stands := h.stands
  outside u hu hspan := by
    rcases List.mem_cons.1 hu with rfl | hu
    · omega
    · exact h.outside u hu hspan
  counts := h.counts

/-- A mark in front of the first tag is stray: what closes the tag would close it as well. -/
theorem isStray_of_lt (ht : t.IsIn body) (hn : NowhereFrom closing t.interior 0)
    (hord : ∀ u ∈ tags, t.stop ≤ u.start) (hi : i < t.start) (hs : StandsAt opening body i) :
    IsStray maxSize (t :: tags) body i := by
  have hclose := ht.firstAt_closing hn
  refine ⟨hs, fun u hu hspan => ?_, .inl fun hnone => ?_⟩
  · have hlt := ht.start_lt_stop
    rcases List.mem_cons.1 hu with rfl | hu
    · omega
    · have := hord u hu
      omega
  · have := hclose.from_le
    exact hnone _ (by omega) hclose.stands

/-- **Without stray marks a page is read tag by tag**; behind its tags there is at most an opening
mark that nothing closes. -/
theorem exists_reads_of_isIn (hin : ∀ t ∈ tags, t.IsIn body)
    (hord : tags.Pairwise fun a b => a.stop ≤ b.start)
    (hn : ∀ t ∈ tags, NowhereFrom closing t.interior 0) (hpos : ∀ t ∈ tags, pos ≤ t.start)
    (hs : ∀ i, pos ≤ i → ¬ IsStray maxSize tags body i) :
    ∃ rest, Reads body pos (tags.map .closed ++ rest) ∧ tagsOf rest = [] ∧
      ∀ c ∈ rest, c.interior.length ≤ maxSize := by
  induction tags generalizing pos with
  | nil =>
    rcases firstAt_or_nowhereFrom opening body pos with ⟨s, ho⟩ | ho
    · -- the mark is not stray: nothing closes it, and little follows it
      have hquiet : ¬ (¬ NowhereFrom closing body (s + opening.length) ∨
          maxSize < (unclosed (body.drop (s + opening.length))).length) :=
        fun hc => hs s ho.from_le ⟨ho.stands, fun _ ht => absurd ht List.not_mem_nil, hc⟩
      obtain ⟨hcl, hshort⟩ := not_or.1 hquiet
      refine ⟨_, .unclosed ho (Classical.not_not.1 hcl), rfl, fun c hc => ?_⟩
      obtain rfl := List.mem_singleton.1 hc
      exact Nat.le_of_not_lt hshort
    · exact ⟨[], .nothing ho, rfl, fun c hc => absurd hc List.not_mem_nil⟩
  | cons t rest ih =>
    obtain ⟨ht, hin⟩ := List.forall_mem_cons.1 hin
    obtain ⟨hnt, hn⟩ := List.forall_mem_cons.1 hn
    obtain ⟨hpos, -⟩ := List.forall_mem_cons.1 hpos
    obtain ⟨hbehind, hord⟩ := List.pairwise_cons.1 hord
    have hlt := ht.start_lt_stop
    have hfirst : FirstAt opening body pos t.start :=
      ⟨hpos, ht.opens, fun j hj hlt hopen => hs j hj (isStray_of_lt ht hnt hbehind hlt hopen)⟩
    obtain ⟨more, hr, hmore⟩ := ih hin hord hn hbehind fun i hi hst =>
      hs i (by omega) (hst.cons hi)
    exact ⟨more, ht.reads hnt hfirst hr, hmore⟩

/-- **Tags of one page that stand in another are what a scan of that one finds, if and only if it
has no stray mark.** -/
theorem scan_eq_iff (h : scan maxSize page = .ok tags) (hf : ∀ t ∈ tags, t.fits body = true) :
    scan maxSize body = .ok tags ↔ ∀ i, ¬ IsStray maxSize tags body i := by
  constructor
  · intro hb i
    obtain ⟨cs, hr⟩ := exists_reads body 0
    rw [scan_eq_verdict hr] at hb
    obtain ⟨hw, rfl⟩ := verdict_eq_ok_iff.1 hb
    exact hr.not_isStray hw (Nat.zero_le i)
  · intro hs
    obtain ⟨cs, hr⟩ := exists_reads page 0
    rw [scan_eq_verdict hr] at h
    obtain ⟨hw, rfl⟩ := verdict_eq_ok_iff.1 h
    obtain ⟨rest, hread, hnone, hshort⟩ := exists_reads_of_isIn
      (fun t ht => isIn_of_fits (hf t ht)) hr.pairwise (nowhereFrom_of_reads hr)
      (fun t _ => Nat.zero_le t.start) fun i _ => hs i
    rw [scan_eq_verdict hread, verdict_eq_ok_iff]
    refine ⟨fun c hc => ?_, ?_⟩
    · rcases List.mem_append.1 hc with hc | hc
      · obtain ⟨t, ht, rfl⟩ := List.mem_map.1 hc
        exact hw _ (mem_tagsOf.1 ht)
      · exact hshort c hc
    · rw [tagsOf_append, tagsOf_map_closed, hnone, List.append_nil]

end EdgeInclude.RawTag

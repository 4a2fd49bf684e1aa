import EdgeInclude.Proofs.Occurrence
import EdgeInclude.Tag.Grammar

/-!
# The candidates of a page

A page is read by positions: the first opening mark, the first closing mark behind it, and so on
from there. What stands between the marks is a candidate, whatever its size; the size decides only
afterwards what the page gives.

* `Reads` — the candidates of a page from a position on; `Reads.unique`, `exists_reads` — they are
  there, and they are determined.
* `verdict` — the tags that candidates give, or the failure of the first one that is too long.
* `search_eq_verdict` — the search gives the verdict on the candidates.
* `fits_iff` — a body has a tag at its place if the tag as it is written fills its span.
* `Reads.pairwise`, `Reads.stands` — the spans are in order, and each is a tag as it is written.
* `Reads.append` — more bytes at the end of a page keep the tags that have been read.
-/

namespace EdgeInclude.RawTag

/-! ## 1. Candidates -/

/-- An opening mark and what follows it: a whole tag, or the rest of a page that does not close
it. -/
inductive Candidate where
  | closed (t : RawTag)
  | unclosed (start : Nat) (interior : Bytes)
  deriving DecidableEq, Repr

namespace Candidate

/-- The position of the opening mark. -/
def start : Candidate → Nat
  | closed t => t.start
  | unclosed s _ => s

/-- The bytes behind the opening mark that count as interior. -/
def interior : Candidate → Bytes
  | closed t => t.interior
  | unclosed _ i => i

/-- The tag, if the candidate is one. -/
def tag? : Candidate → Option RawTag
  | closed t => some t
  | unclosed .. => none

/-- Whether the interior is no longer than `maxSize`. -/
def isWithin (maxSize : Nat) (c : Candidate) : Bool := c.interior.length ≤ maxSize

end Candidate

/-- The candidates of `page` from `pos` on: the first opening mark at `s`, the first closing mark at
`e` behind it, and then from the end of that closing mark on. -/
inductive Reads (page : Bytes) : Nat → List Candidate → Prop where
  | nothing {pos : Nat} (ho : NowhereFrom opening page pos) : Reads page pos []
  | unclosed {pos s : Nat} (ho : FirstAt opening page pos s)
      (hc : NowhereFrom closing page (s + opening.length)) :
      Reads page pos [.unclosed s (RawTag.unclosed (page.drop (s + opening.length)))]
  | closed {pos s e : Nat} {cs : List Candidate} (ho : FirstAt opening page pos s)
      (hc : FirstAt closing page (s + opening.length) e)
      (hr : Reads page (e + closing.length) cs) :
      Reads page pos
        (.closed ⟨(page.drop (s + opening.length)).take (e - (s + opening.length)), s,
          e + closing.length⟩ :: cs)

/-- The tags among candidates. -/
def tagsOf (cs : List Candidate) : List RawTag := cs.filterMap Candidate.tag?

/-- What candidates give: their tags, unless one of them is too long. -/
def verdict (maxSize : Nat) (cs : List Candidate) : Except Failure (List RawTag) :=
  match cs.find? (!·.isWithin maxSize) with
  | some c => .error (.malformedTag c.start maxSize)
  | none => .ok (tagsOf cs)

/-- The tags in front of the first candidate that is too long. -/
def tagsBefore (maxSize : Nat) (cs : List Candidate) : List RawTag :=
  tagsOf (cs.takeWhile (·.isWithin maxSize))

variable {page more : Bytes} {pos maxSize : Nat} {cs cs' : List Candidate}

theorem Reads.unique (h : Reads page pos cs) (h' : Reads page pos cs') : cs = cs' := by
  induction h generalizing cs' with
  | nothing ho =>
    cases h' with
    | nothing => rfl
    | unclosed ho' => exact absurd ho ho'.not_nowhereFrom
    | closed ho' => exact absurd ho ho'.not_nowhereFrom
  | unclosed ho hc =>
    cases h' with
    | nothing ho' => exact absurd ho' ho.not_nowhereFrom
    | unclosed ho' =>
      obtain rfl := ho.unique ho'
      rfl
    | closed ho' hc' =>
      obtain rfl := ho.unique ho'
      exact absurd hc hc'.not_nowhereFrom
  | closed ho hc _ ih =>
    cases h' with
    | nothing ho' => exact absurd ho' ho.not_nowhereFrom
    | unclosed ho' hc' =>
      obtain rfl := ho.unique ho'
      exact absurd hc' hc.not_nowhereFrom
    | closed ho' hc' hr' =>
      obtain rfl := ho.unique ho'
      obtain rfl := hc.unique hc'
      rw [ih hr']

theorem opening_ne_nil : opening ≠ [] := by decide

theorem closing_ne_nil : closing ≠ [] := by decide

/-- A tag ends within the page. -/
theorem end_le {s e : Nat} (hc : FirstAt closing page (s + opening.length) e) :
    s + opening.length ≤ e ∧ e + closing.length ≤ page.length :=
  ⟨hc.from_le, hc.stands.end_le closing_ne_nil⟩

theorem exists_reads (page : Bytes) (pos : Nat) : ∃ cs, Reads page pos cs := by
  -- each tag leaves less of the page
  induction hn : page.length - pos using Nat.strongRecOn generalizing pos with
  | _ n ih =>
    rcases firstAt_or_nowhereFrom opening page pos with ⟨s, ho⟩ | ho
    · rcases firstAt_or_nowhereFrom closing page (s + opening.length) with ⟨e, hc⟩ | hc
      · have h1 := end_le hc
        have h2 := ho.from_le
        have h3 : 0 < closing.length := by decide
        obtain ⟨cs, hr⟩ := ih (page.length - (e + closing.length)) (by omega) _ rfl
        exact ⟨_, .closed ho hc hr⟩
      · exact ⟨_, .unclosed ho hc⟩
    · exact ⟨_, .nothing ho⟩

/-! ## 2. The search gives the verdict -/

theorem verdict_cons_of_lt {c : Candidate} (h : maxSize < c.interior.length) :
    verdict maxSize (c :: cs) = .error (.malformedTag c.start maxSize) := by
  have hc : c.isWithin maxSize = false := decide_eq_false (Nat.not_le.2 h)
  simp [verdict, hc]

theorem verdict_closed {t : RawTag} (h : t.interior.length ≤ maxSize) :
    verdict maxSize (.closed t :: cs) = (verdict maxSize cs).map (t :: ·) := by
  have hc : (Candidate.closed t).isWithin maxSize = true := decide_eq_true h
  unfold verdict
  rw [List.find?_cons_of_neg (by simp [hc])]
  split
  · rfl
  · rfl

theorem verdict_unclosed {s : Nat} {i : Bytes} (h : i.length ≤ maxSize) :
    verdict maxSize [.unclosed s i] = .ok [] := by
  have hc : (Candidate.unclosed s i).isWithin maxSize = true := decide_eq_true h
  simp [verdict, hc, tagsOf, Candidate.tag?]

theorem verdict_eq_ok_iff {tags : List RawTag} :
    verdict maxSize cs = .ok tags ↔
      (∀ c ∈ cs, c.interior.length ≤ maxSize) ∧ tags = tagsOf cs := by
  unfold verdict
  split
  · rename_i c hc
    have hin := List.mem_of_find?_eq_some hc
    have hlong := List.find?_some hc
    simp only [Candidate.isWithin, Bool.not_eq_true', decide_eq_false_iff_not] at hlong
    constructor
    · intro h
      cases h
    · intro h
      exact absurd (h.1 c hin) hlong
  · rename_i hn
    have hall : ∀ c ∈ cs, c.interior.length ≤ maxSize := by
      intro c hc
      simpa [Candidate.isWithin] using List.find?_eq_none.1 hn c hc
    constructor
    · intro h
      exact ⟨hall, (Except.ok.inj h).symm⟩
    · intro h
      rw [h.2]

theorem verdict_eq_error_iff {f : Failure} :
    verdict maxSize cs = .error f ↔ ∃ before c after, cs = before ++ c :: after ∧
      (∀ d ∈ before, d.interior.length ≤ maxSize) ∧ maxSize < c.interior.length ∧
      f = .malformedTag c.start maxSize := by
  constructor
  · intro h
    unfold verdict at h
    split at h
    · rename_i c hc
      obtain ⟨hlong, before, after, hcs, hb⟩ := List.find?_eq_some_iff_append.1 hc
      refine ⟨before, c, after, hcs, fun d hd => ?_, ?_, (Except.error.inj h).symm⟩
      · simpa [Candidate.isWithin] using hb d hd
      · simpa [Candidate.isWithin] using hlong
    · cases h
  · rintro ⟨before, c, after, rfl, hb, hlong, rfl⟩
    have hfind : (before ++ c :: after).find? (!·.isWithin maxSize) = some c := by
      refine List.find?_eq_some_iff_append.2 ⟨?_, before, after, rfl, fun d hd => ?_⟩
      · simpa [Candidate.isWithin] using hlong
      · simpa [Candidate.isWithin] using hb d hd
    unfold verdict
    rw [hfind]

/-! ### One step of the search -/

theorem search_of_none (ho : splitFirst? opening page = none) :
    search maxSize pos page = .ok [] := by
  rw [search]
  split
  · rfl
  · rename_i hs
    rw [ho] at hs
    cases hs

theorem search_of_unclosed {before rest : Bytes}
    (ho : splitFirst? opening page = some (before, rest)) (hc : splitFirst? closing rest = none) :
    search maxSize pos page =
      verdict maxSize [.unclosed (pos + before.length) (RawTag.unclosed rest)] := by
  rw [search]
  split
  · rename_i hs
    rw [ho] at hs
    cases hs
  · rename_i hs
    rw [ho] at hs
    cases hs
    split
    · split
      · rename_i h
        exact (verdict_cons_of_lt (c := .unclosed _ _) h).symm
      · rename_i h
        exact (verdict_unclosed (Nat.le_of_not_lt h)).symm
    · rename_i hs'
      rw [hc] at hs'
      cases hs'

/-- The search behind a tag whose interior is not too long. -/
theorem search_of_closed {before rest interior rest' : Bytes}
    (ho : splitFirst? opening page = some (before, rest))
    (hc : splitFirst? closing rest = some (interior, rest')) :
    search maxSize pos page =
      if maxSize < interior.length then .error (.malformedTag (pos + before.length) maxSize)
      else (search maxSize (pos + before.length + interior.length + frame) rest').map
        (⟨interior, pos + before.length, pos + before.length + interior.length + frame⟩ :: ·) := by
  rw [search]
  split
  · rename_i hs
    rw [ho] at hs
    cases hs
  · rename_i hs
    rw [ho] at hs
    cases hs
    split
    · rename_i hs'
      rw [hc] at hs'
      cases hs'
    · rename_i hs'
      rw [hc] at hs'
      cases hs'
      split
      · rfl
      · dsimp only
        cases search maxSize (pos + before.length + interior.length + frame) rest' <;> rfl

/-- **The search gives the verdict on the candidates.** -/
theorem search_eq_verdict (h : Reads page pos cs) :
    search maxSize pos (page.drop pos) = verdict maxSize cs := by
  induction h with
  | nothing ho => exact search_of_none (splitFirst?_drop_of_nowhereFrom ho)
  | @unclosed pos s ho hc =>
    rw [search_of_unclosed (splitFirst?_drop_of_firstAt ho)
      (splitFirst?_drop_of_nowhereFrom hc), ho.add_length_take opening_ne_nil]
  | @closed pos s e cs ho hc _ ih =>
    have he : s + ((page.drop (s + opening.length)).take (e - (s + opening.length))).length +
        frame = e + closing.length := by
      have := hc.add_length_take closing_ne_nil
      rw [frame]
      omega
    rw [search_of_closed (splitFirst?_drop_of_firstAt ho) (splitFirst?_drop_of_firstAt hc),
      ho.add_length_take opening_ne_nil, he, ih]
    split
    · rename_i h
      exact (verdict_cons_of_lt (c := .closed ⟨_, _, _⟩) h).symm
    · rename_i h
      exact (verdict_closed (Nat.le_of_not_lt h)).symm

/-! ## 3. Spans -/

/-- The tag stands in `page` as it is written, and its span covers nothing else. -/
structure IsIn (t : RawTag) (page : Bytes) : Prop where
  stop_eq : t.stop = t.start + t.interior.length + frame
  stop_le : t.stop ≤ page.length
  slice_eq : (page.drop t.start).take (t.stop - t.start) = written t.interior

theorem IsIn.start_lt_stop {t : RawTag} (h : t.IsIn page) : t.start < t.stop := by
  have h1 := h.stop_eq
  have h2 : 0 < frame := by decide
  omega

theorem length_written (i : Bytes) : (written i).length = i.length + frame := by
  simp only [written, List.length_append, frame]
  omega

/-- What fills a span that has both marks at its ends. -/
theorem slice_of_marks {body : Bytes} {m n : Nat} (hn : n ≤ body.length) (hroom : m + frame ≤ n)
    (hopens : opening <+: body.drop m) (hcloses : closing <:+ body.take n) :
    (body.drop m).take (n - m) = written ((body.drop (m + opening.length)).take
      (n - closing.length - (m + opening.length))) := by
  rw [frame] at hroom
  have hend : (body.drop (n - closing.length)).take closing.length = closing := by
    obtain ⟨front, hfront⟩ := hcloses
    have hlen : front.length = n - closing.length := by
      rw [eq_comm, Nat.sub_eq_iff_eq_add (by omega), ← List.length_append, hfront, List.length_take,
        Nat.min_eq_left hn]
    have hdrop : (body.take n).drop (n - closing.length) = closing := by
      rw [← hfront, ← hlen, List.drop_left]
    rwa [List.drop_take, Nat.sub_sub_self (by omega)] at hdrop
  -- the span is the opening mark, the bytes up to the closing mark, and that mark
  have hspan : n - m = opening.length +
      (n - closing.length - (m + opening.length) + closing.length) := by omega
  have hbehind : m + opening.length + (n - closing.length - (m + opening.length)) =
      n - closing.length := by omega
  rw [StandsAt.drop_eq hopens, hspan, List.take_length_add_append, List.take_add, List.drop_drop,
    hbehind, hend, written, List.append_assoc]

/-- A body has a tag at its place if and only if the tag as it is written fills its span. -/
theorem fits_iff {t : RawTag} {body : Bytes} : t.fits body = true ↔
    t.stop ≤ body.length ∧ t.start + frame ≤ t.stop ∧
      (body.drop t.start).take (t.stop - t.start) = written t.interior := by
  unfold fits
  simp only [Bool.and_eq_true, decide_eq_true_eq, beq_iff_eq, List.isPrefixOf_iff_prefix,
    List.isSuffixOf_iff_suffix, and_assoc]
  constructor
  · rintro ⟨hstop, hroom, hopens, hcloses, hinterior⟩
    exact ⟨hstop, hroom, hinterior ▸ slice_of_marks hstop hroom hopens hcloses⟩
  · rintro ⟨hstop, hroom, hslice⟩
    have hopens : opening <+: body.drop t.start := by
      rw [← List.take_append_drop (t.stop - t.start) (body.drop t.start), hslice, written,
        List.append_assoc, List.append_assoc]
      exact List.prefix_append _ _
    have hcloses : closing <:+ body.take t.stop := by
      rw [← Nat.add_sub_cancel' (Nat.le_of_add_right_le hroom), List.take_add, hslice]
      exact (List.suffix_append _ _).trans (List.suffix_append _ _)
    -- the same marks stand around both interiors
    have hmarks := (slice_of_marks hstop hroom hopens hcloses).symm.trans hslice
    exact ⟨hstop, hroom, hopens, hcloses, List.append_cancel_left (List.append_cancel_right hmarks)⟩

theorem IsIn.fits {t : RawTag} (h : t.IsIn page) : t.fits page = true := by
  have h1 := h.stop_eq
  exact fits_iff.2 ⟨h.stop_le, by omega, h.slice_eq⟩

/-- The tag between a first opening mark and the first closing mark behind it. -/
theorem isIn_of_firstAt {s e : Nat} (ho : FirstAt opening page pos s)
    (hc : FirstAt closing page (s + opening.length) e) :
    IsIn ⟨(page.drop (s + opening.length)).take (e - (s + opening.length)), s,
      e + closing.length⟩ page := by
  have hlen := hc.add_length_take closing_ne_nil
  have hle := (end_le hc).1
  generalize hi : (page.drop (s + opening.length)).take (e - (s + opening.length)) = i at hlen
  have hcut : i ++ page.drop e = page.drop (s + opening.length) := by
    have := List.take_append_drop (e - (s + opening.length)) (page.drop (s + opening.length))
    rwa [hi, List.drop_drop, Nat.add_sub_cancel' hle] at this
  have hpage : page.drop s = written i ++ page.drop (e + closing.length) := by
    calc page.drop s = opening ++ page.drop (s + opening.length) := ho.stands.drop_eq
      _ = opening ++ (i ++ page.drop e) := by rw [hcut]
      _ = opening ++ (i ++ (closing ++ page.drop (e + closing.length))) := by
        rw [hc.stands.drop_eq]
      _ = written i ++ page.drop (e + closing.length) := by simp [written]
  refine ⟨?_, (end_le hc).2, ?_⟩
  · simp only [frame]
    omega
  · have hw : e + closing.length - s = (written i).length := by
      rw [length_written, frame]
      omega
    simp only [hpage, hw, List.take_left]

@[simp] theorem tagsOf_append (cs cs' : List Candidate) :
    tagsOf (cs ++ cs') = tagsOf cs ++ tagsOf cs' := List.filterMap_append

@[simp] theorem tagsOf_map_closed (ts : List RawTag) : tagsOf (ts.map .closed) = ts := by
  rw [tagsOf, List.filterMap_map]
  exact List.filterMap_some

theorem mem_tagsOf {t : RawTag} : t ∈ tagsOf cs ↔ Candidate.closed t ∈ cs := by
  simp only [tagsOf, List.mem_filterMap]
  constructor
  · rintro ⟨c, hc, ht⟩
    cases c with
    | closed t' => cases ht; exact hc
    | unclosed => cases ht
  · intro h
    exact ⟨_, h, rfl⟩

theorem Reads.isIn (h : Reads page pos cs) : ∀ t ∈ tagsOf cs, t.IsIn page := by
  induction h with
  | nothing => intro t ht; cases ht
  | unclosed => intro t ht; cases ht
  | closed ho hc _ ih =>
    intro t ht
    rcases List.mem_cons.1 ht with rfl | ht
    · exact isIn_of_firstAt ho hc
    · exact ih t ht

theorem Reads.pos_le_start (h : Reads page pos cs) : ∀ t ∈ tagsOf cs, pos ≤ t.start := by
  induction h with
  | nothing => intro t ht; cases ht
  | unclosed => intro t ht; cases ht
  | closed ho hc _ ih =>
    have h1 := ho.from_le
    have h2 := (end_le hc).1
    intro t ht
    rcases List.mem_cons.1 ht with rfl | ht
    · exact h1
    · have := ih t ht
      omega

/-- The spans follow each other. -/
theorem Reads.pairwise (h : Reads page pos cs) :
    (tagsOf cs).Pairwise fun a b => a.stop ≤ b.start := by
  induction h with
  | nothing => exact .nil
  | unclosed => exact .nil
  | closed _ _ hr ih => exact .cons hr.pos_le_start ih

/-! ## 4. Pages that go on -/

/-- What has been read of a page stays when more of it comes. -/
theorem Reads.append (h : Reads page pos cs) (more : Bytes) :
    ∃ cs', Reads (page ++ more) pos cs' ∧ (tagsOf cs).map .closed <+: cs' := by
  induction h with
  | nothing =>
    obtain ⟨cs', hr⟩ := exists_reads (page ++ more) _
    exact ⟨cs', hr, List.nil_prefix⟩
  | unclosed =>
    obtain ⟨cs', hr⟩ := exists_reads (page ++ more) _
    exact ⟨cs', hr, List.nil_prefix⟩
  | @closed pos s e cs ho hc _ ih =>
    obtain ⟨cs', hr, hp⟩ := ih
    have hle := end_le hc
    have hsame : ((page ++ more).drop (s + opening.length)).take (e - (s + opening.length)) =
        (page.drop (s + opening.length)).take (e - (s + opening.length)) := by
      rw [List.drop_append_of_le_length (by omega),
        List.take_append_of_le_length (by rw [List.length_drop]; omega)]
    have hr' := Reads.closed ho.append hc.append hr
    rw [hsame] at hr'
    exact ⟨_, hr', (List.cons_prefix_cons).2 ⟨rfl, hp⟩⟩

/-- The tags of the beginning of a page are tags of the page. -/
theorem Reads.prefix_tagsBefore {tags : List RawTag} (h : Reads page pos cs)
    (hv : verdict maxSize cs = .ok tags) (h' : Reads (page ++ more) pos cs') :
    tags <+: tagsBefore maxSize cs' := by
  obtain ⟨hw, rfl⟩ := verdict_eq_ok_iff.1 hv
  obtain ⟨cs'', hr, rest, rfl⟩ := h.append more
  obtain rfl := hr.unique h'
  have hall : ∀ c ∈ (tagsOf cs).map Candidate.closed, c.isWithin maxSize = true := by
    intro c hc
    obtain ⟨t, ht, rfl⟩ := List.mem_map.1 hc
    exact decide_eq_true (hw _ (mem_tagsOf.1 ht))
  rw [tagsBefore, List.takeWhile_append_of_pos hall, tagsOf_append, tagsOf_map_closed]
  exact List.prefix_append _ _

end EdgeInclude.RawTag

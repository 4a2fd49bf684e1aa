import EdgeInclude.Proofs.Page.Store
import EdgeInclude.Proofs.Splice.Bytewise
import EdgeInclude.Proofs.Splice.Disjoint
import EdgeInclude.Proofs.Tag.Strays

/-!
# Bodies that have the tags of a page

A kept page is used for a body that has the same tags at the same places. The tags know where they
stand and what they hold between their marks; the page that they were found in is gone by then. Yet
asking for the tags is as good as comparing both bodies on the spans of the tags, and whatever is
put in the place of these spans can be put into such a body.

* `RawTag.textIn` — what stands in the span of a tag.
* `Page.fits_ofTags_iff` — which bodies the tags of a page fit.
* `PageStore.load_again` — a body that comes again finds its tags kept.
* `Replacements.exists_inject` — replacements at the tags of a page, in a body that they fit.
* `Page.fits_iff_same_spans` — all of it, for a page that has been scanned.
-/

namespace EdgeInclude

/-! ## 1. One tag -/

namespace RawTag

variable {t : RawTag} {page body : Bytes}

/-- What stands in a body in the span of a tag. -/
def textIn (t : RawTag) (body : Bytes) : Bytes := (body.drop t.start).take (t.stop - t.start)

theorem fits_iff_isIn : t.fits body = true ↔ t.IsIn body := ⟨isIn_of_fits, IsIn.fits⟩

/-- A tag of a page stands in every body that has the same bytes in its span. -/
theorem IsIn.isIn_iff (h : t.IsIn page) :
    t.IsIn body ↔ t.stop ≤ body.length ∧ t.textIn body = t.textIn page :=
  ⟨fun hb => ⟨hb.stop_le, hb.slice_eq.trans h.slice_eq.symm⟩,
    fun ⟨hle, heq⟩ => ⟨h.stop_eq, hle, heq.trans h.slice_eq⟩⟩

end RawTag

/-! ## 2. The tags of a page -/

section Pages

variable {maxSize : Nat} {page body : Bytes} {tags : List RawTag}

/-- **The tags of a page fit the bodies that have the same bytes in their spans.** -/
theorem Page.fits_ofTags_iff (h : scan maxSize page = .ok tags) (body : Bytes) :
    (Page.ofTags tags).fits body = true ↔
      ∀ t ∈ tags, t.stop ≤ body.length ∧ t.textIn body = t.textIn page := by
  obtain ⟨-, hin⟩ := scan_spans h
  unfold fits
  rw [raws_ofTags, List.all_eq_true]
  exact forall₂_congr fun t ht => RawTag.fits_iff_isIn.trans (hin t ht).isIn_iff

/-- **A body that comes again finds its tags kept.** -/
theorem PageStore.load_again {s : PageStore} (hs : s.pool.IsFresh maxSize) (fp : Fingerprint)
    (h : scan maxSize body = .ok tags) : ∃ page, (s.load fp body).2 = .ok page ∧
      ((s.load fp body).1.load fp body).2 = .ok page ∧
      ((s.load fp body).1.load fp body).1.counts = (s.load fp body).1.counts.hit := by
  have hload : ∃ page, (s.load fp body).2 = .ok page := by
    rw [load_eq]
    cases (s.lookup fp body).2 with
    | some q => exact ⟨q, rfl⟩
    | none =>
      obtain ⟨p, hp, -⟩ := exists_parseInto (isFresh_lookup hs fp body) fp h
      exact ⟨p, hp⟩
  obtain ⟨page, hp⟩ := hload
  have hagain := load_of_fits (peek_load hp) (fits_of_load hs hp)
  rw [hagain]
  exact ⟨page, hp, rfl, rfl⟩

end Pages

/-! ## 3. Replacements at the tags of a page -/

section Splicing

variable {body : Bytes} {tags : List RawTag} {rs : List Replacement} {r : Replacement}

/-- Each replacement has the span of a tag, and no two have that of the same tag. -/
def Replacement.AreAt (rs : List Replacement) (tags : List RawTag) : Prop :=
  (rs.map fun r => (r.start, r.stop)).Subperm (tags.map fun t => (t.start, t.stop))

theorem Replacement.AreAt.exists_tag (h : AreAt rs tags) (hr : r ∈ rs) :
    ∃ t ∈ tags, t.start = r.start ∧ t.stop = r.stop := by
  obtain ⟨t, ht, heq⟩ := List.mem_map.1 (h.subset (List.mem_map_of_mem hr))
  obtain ⟨hstart, hstop⟩ := Prod.mk.inj heq
  exact ⟨t, ht, hstart, hstop⟩

/-- Replacements at tags in order are disjoint, in whatever order they come. -/
theorem Replacement.AreAt.apart (h : AreAt rs tags)
    (htags : tags.Pairwise fun a b => a.stop ≤ b.start) : rs.Pairwise Apart := by
  let Clear (p q : Nat × Nat) : Prop := p.2 ≤ q.1 ∨ q.2 ≤ p.1
  have hspans : (tags.map fun t => (t.start, t.stop)).Pairwise Clear :=
    List.pairwise_map.2 (htags.imp .inl)
  obtain ⟨l, hperm, hsub⟩ := h
  have hclear := (hperm.pairwise_iff fun {p q} (hpq : Clear p q) => hpq.symm).1
    (hspans.sublist hsub)
  exact (List.pairwise_map.1 hclear).imp apart_iff.2

/-- **Replacements at the tags of a page can be put into every body that has the tags.** -/
theorem Replacements.exists_inject (htags : tags.Pairwise fun a b => a.stop ≤ b.start)
    (hin : ∀ t ∈ tags, t.IsIn body) (h : Replacement.AreAt rs tags) :
    ∃ reps, ofList rs = .ok reps ∧ reps.items.Perm rs ∧
      inject body reps = .ok (patched reps.patches 0 body) := by
  obtain ⟨reps, hreps⟩ := exists_ofList (h.apart htags)
  have hperm : reps.items.Perm rs := by
    rw [items_of_ofList hreps]
    exact Replacement.perm_sorted rs
  refine ⟨reps, hreps, hperm, inject_of_fits fun r hr => ?_⟩
  obtain ⟨t, ht, -, hstop⟩ := h.exists_tag (hperm.mem_iff.1 hr)
  rw [← hstop]
  exact (hin t ht).stop_le

end Splicing

/-! ## 4. All of it -/

/-- **The tags of a page fit a body if and only if it has the same bytes in their spans.** So they
fit the page itself, and when it comes again its tags are kept. Whatever is put in the place of
tags, each at its own, can be put into every body that they fit, and what goes out are whole tags,
byte for byte those of the page. -/
theorem Page.fits_iff_same_spans {maxSize : Nat} {page : Bytes} {tags : List RawTag}
    (h : scan maxSize page = .ok tags) (body : Bytes) :
    ((Page.ofTags tags).fits body = true ↔
      ∀ t ∈ tags, t.stop ≤ body.length ∧ t.textIn body = t.textIn page) ∧
    (Page.ofTags tags).fits page = true ∧
    (∀ (s : PageStore) (fp : Fingerprint), s.pool.IsFresh maxSize →
      ∃ p, (s.load fp page).2 = .ok p ∧ ((s.load fp page).1.load fp page).2 = .ok p ∧
        ((s.load fp page).1.load fp page).1.counts = (s.load fp page).1.counts.hit) ∧
    ((Page.ofTags tags).fits body = true →
      (∀ t ∈ tags, t.textIn body = RawTag.written t.interior ∧ t.textIn body = t.textIn page ∧
        ∀ data, ∃ r, Replacement.make t.start t.stop data = .ok r) ∧
      ∀ rs, Replacement.AreAt rs tags → ∃ reps, Replacements.ofList rs = .ok reps ∧
        reps.items.Perm rs ∧ inject body reps = .ok (patched reps.patches 0 body)) := by
  obtain ⟨hpairwise, hin⟩ := scan_spans h
  refine ⟨fits_ofTags_iff h body, fits_ofTags h, fun s fp hs => PageStore.load_again hs fp h,
    fun hf => ?_⟩
  have hsame := (fits_ofTags_iff h body).1 hf
  have hbody : ∀ t ∈ tags, t.IsIn body := fun t ht => (hin t ht).isIn_iff.2 (hsame t ht)
  refine ⟨fun t ht => ⟨(hbody t ht).slice_eq, (hsame t ht).2, fun data => ?_⟩,
    fun rs hrs => Replacements.exists_inject hpairwise hbody hrs⟩
  exact ⟨_, dif_pos (hin t ht).start_lt_stop⟩

/-- A page with the tag `x` between two letters fits its like with other letters around the tag. -/
theorem Page.fits_iff_same_spans_letters :
    (Page.ofTags [⟨[0x78], 1, 9⟩]).fits ([0x63] ++ RawTag.written [0x78] ++ [0x64]) = true :=
  (@fits_iff_same_spans 64 ([0x61] ++ RawTag.written [0x78] ++ [0x62]) _ (by decide +kernel) _).1.2
    (by decide)

end EdgeInclude

import EdgeInclude.Page.Parser
import EdgeInclude.Proofs.Page.Cache
import EdgeInclude.Proofs.Tag.Chunks
import EdgeInclude.Proofs.Tag.Reading

/-!
# The tags of a page

The tags of a body are found by a scan, and kept for the next body under the same fingerprint. What
is kept is asked for its places before it is used again.

* `scan_spans` — where the tags of a scanned body stand.
* `Page.fits_ofTags` — tags fit the body that they have been found in.
* `PageStore.lookup_eq`, `PageStore.load_eq`, `PageStore.parseInto_eq` — what a store does, by what
  is kept in it.
* `PageStore.kept_of_lookup`, `PageStore.fits_of_parseInto`, `PageStore.fits_of_load` — what is
  looked up, scanned or loaded for a body fits it.
* `PageStore.exists_load` — the tags of a body, kept or scanned.
* `PageStore.load_peek` — looking for a page that is not kept changes nothing.
* `PageStore.load_eq_parse`, `PageStore.parse_eq_scan` — a page that is not kept is scanned.
* `PageStore.peek_load`, `PageStore.tags_of_peek_load` — what has been loaded is kept, and what is
  kept from now on are the tags of the body.
-/

namespace EdgeInclude

/-! ## 1. Tags -/

/-- The tags of a body stand in it in order, and their spans do not overlap. -/
theorem scan_spans {maxSize : Nat} {body : Bytes} {tags : List RawTag}
    (h : scan maxSize body = .ok tags) :
    tags.Pairwise (fun a b => a.stop ≤ b.start) ∧ ∀ t ∈ tags, t.IsIn body := by
  obtain ⟨cs, hr⟩ := RawTag.exists_reads body 0
  rw [scan_eq_verdict hr] at h
  obtain ⟨-, rfl⟩ := RawTag.verdict_eq_ok_iff.1 h
  exact ⟨hr.pairwise, hr.isIn⟩

/-- The tags of a scanned body fit it. -/
theorem Page.fits_ofTags {maxSize : Nat} {body : Bytes} {tags : List RawTag}
    (h : scan maxSize body = .ok tags) : (Page.ofTags tags).fits body = true := by
  obtain ⟨-, hin⟩ := scan_spans h
  unfold fits
  rw [raws_ofTags]
  exact List.all_eq_true.2 fun t ht => (hin t ht).fits

namespace PageStore

variable {s : PageStore} {maxSize : Nat} {fp : Fingerprint} {body : Bytes} {tags : List RawTag}
  {page : ParsedPage}

/-! ## 2. What a store does -/

theorem peek_peek (s : PageStore) (fp : Fingerprint) :
    ((s.peek fp).1.peek fp).2 = (s.peek fp).2 := s.cache.get_get fp

/-- A look-up, by what is kept. -/
theorem lookup_eq (s : PageStore) (fp : Fingerprint) (body : Bytes) : s.lookup fp body =
    match (s.peek fp).2 with
    | some page =>
      if page.tags.fits body then
        ({ (s.peek fp).1 with counts := (s.peek fp).1.counts.hit }, some page)
      else
        ({ ((s.peek fp).1.remove fp).1 with
          counts := ((s.peek fp).1.remove fp).1.counts.miss }, none)
    | none => ({ (s.peek fp).1 with counts := (s.peek fp).1.counts.miss }, none) := rfl

theorem load_eq (s : PageStore) (fp : Fingerprint) (body : Bytes) : s.load fp body =
    match (s.lookup fp body).2 with
    | some page => ((s.lookup fp body).1, .ok page)
    | none => (s.lookup fp body).1.parseInto fp body := by
  unfold load
  cases s.lookup fp body with
  | mk t found => cases found <;> rfl

/-- A scan, and what is kept of it. -/
theorem parseInto_eq (s : PageStore) (fp : Fingerprint) (body : Bytes) : s.parseInto fp body =
    match (s.pool.scan body).1 with
    | .ok tags =>
      ({ s with
        cache := s.cache.insert fp ⟨s.next, Page.ofTags tags⟩
        pool := (s.pool.scan body).2
        counts := s.counts.parse
        next := s.next + 1 }, .ok ⟨s.next, Page.ofTags tags⟩)
    | .error e => ({ s with pool := (s.pool.scan body).2 }, .error e) := by
  unfold parseInto parse
  cases s.pool.scan body with
  | mk result pool => cases result <;> rfl

theorem pool_lookup (s : PageStore) (fp : Fingerprint) (body : Bytes) :
    (s.lookup fp body).1.pool = s.pool := by
  rw [lookup_eq]
  split
  · split <;> rfl
  · rfl

theorem pool_parseInto (s : PageStore) (fp : Fingerprint) (body : Bytes) :
    (s.parseInto fp body).1.pool = (s.pool.scan body).2 := by
  rw [parseInto_eq]
  split <;> rfl

theorem isFresh_lookup (h : s.pool.IsFresh maxSize) (fp : Fingerprint) (body : Bytes) :
    (s.lookup fp body).1.pool.IsFresh maxSize := by
  rw [pool_lookup]
  exact h

theorem isFresh_parseInto (h : s.pool.IsFresh maxSize) (fp : Fingerprint) (body : Bytes) :
    (s.parseInto fp body).1.pool.IsFresh maxSize := by
  rw [pool_parseInto]
  exact h.scan body

theorem isFresh_load (h : s.pool.IsFresh maxSize) (fp : Fingerprint) (body : Bytes) :
    (s.load fp body).1.pool.IsFresh maxSize := by
  rw [load_eq]
  split
  · exact isFresh_lookup h fp body
  · exact isFresh_parseInto (isFresh_lookup h fp body) fp body

/-! ## 3. Tags for a body -/

/-- What is looked up for a body is kept and fits it. -/
theorem kept_of_lookup (h : (s.lookup fp body).2 = some page) :
    (s.peek fp).2 = some page ∧ page.tags.fits body = true := by
  rw [lookup_eq] at h
  cases hp : (s.peek fp).2 with
  | none =>
    rw [hp] at h
    cases h
  | some q =>
    rw [hp] at h
    dsimp only at h
    split at h
    · rename_i hq
      cases h
      exact ⟨rfl, hq⟩
    · cases h

theorem tags_of_parseInto (h : s.pool.IsFresh maxSize) (hp : (s.parseInto fp body).2 = .ok page) :
    ∃ tags, scan maxSize body = .ok tags ∧ page.tags = Page.ofTags tags := by
  rw [parseInto_eq, h.scan_eq] at hp
  cases hs : scan maxSize body with
  | error e =>
    rw [hs] at hp
    cases hp
  | ok tags =>
    rw [hs] at hp
    cases hp
    exact ⟨tags, rfl, rfl⟩

/-- What is scanned for a body fits it. -/
theorem fits_of_parseInto (h : s.pool.IsFresh maxSize)
    (hp : (s.parseInto fp body).2 = .ok page) : page.tags.fits body = true := by
  obtain ⟨tags, hs, ht⟩ := tags_of_parseInto h hp
  rw [ht]
  exact Page.fits_ofTags hs

/-- **The tags that a body is served with fit it.** -/
theorem fits_of_load (h : s.pool.IsFresh maxSize) (hl : (s.load fp body).2 = .ok page) :
    page.tags.fits body = true := by
  rw [load_eq] at hl
  cases hf : (s.lookup fp body).2 with
  | some q =>
    rw [hf] at hl
    cases hl
    exact (kept_of_lookup hf).2
  | none =>
    rw [hf] at hl
    exact fits_of_parseInto (isFresh_lookup h fp body) hl

theorem exists_parseInto (h : s.pool.IsFresh maxSize) (fp : Fingerprint)
    (hs : scan maxSize body = .ok tags) :
    ∃ page, (s.parseInto fp body).2 = .ok page ∧ page.tags = Page.ofTags tags := by
  rw [parseInto_eq, h.scan_eq, hs]
  exact ⟨_, rfl, rfl⟩

/-- A body is scanned alike by stores that scan alike. -/
theorem parseInto_congr {t : PageStore} (hpool : s.pool = t.pool) (hnext : s.next = t.next)
    (fp : Fingerprint) (body : Bytes) : (s.parseInto fp body).2 = (t.parseInto fp body).2 := by
  rw [parseInto_eq, parseInto_eq, hpool, hnext]
  cases (t.pool.scan body).1 <;> rfl

/-- A kept page that fits a body is the page of the body. -/
theorem lookup_of_fits (hp : (s.peek fp).2 = some page) (hf : page.tags.fits body = true) :
    s.lookup fp body =
      ({ (s.peek fp).1 with counts := (s.peek fp).1.counts.hit }, some page) := by
  rw [lookup_eq, hp]
  exact if_pos hf

theorem lookup_of_none (hp : (s.peek fp).2 = none) :
    s.lookup fp body = ({ (s.peek fp).1 with counts := (s.peek fp).1.counts.miss }, none) := by
  rw [lookup_eq, hp]

theorem load_of_fits (hp : (s.peek fp).2 = some page) (hf : page.tags.fits body = true) :
    s.load fp body = ({ (s.peek fp).1 with counts := (s.peek fp).1.counts.hit }, .ok page) := by
  rw [load_eq, lookup_of_fits hp hf]

theorem load_of_none (hp : (s.peek fp).2 = none) : s.load fp body =
    ({ (s.peek fp).1 with counts := (s.peek fp).1.counts.miss } : PageStore).parseInto fp body := by
  rw [load_eq, lookup_of_none hp]

/-- **Looking for a page that is not kept changes nothing** for the one who parses it. -/
theorem load_peek (hp : (s.peek fp).2 = none) (body : Bytes) :
    ((s.peek fp).1.load fp body).2 = (s.load fp body).2 := by
  have hp' : ((s.peek fp).1.peek fp).2 = none := (peek_peek s fp).trans hp
  rw [load_of_none hp, load_of_none hp']
  refine parseInto_congr ?_ ?_ fp body
  · rfl
  · rfl

/-- **A page that is not kept is scanned**, which counts as a miss. -/
theorem load_eq_parse (hp : (s.peek fp).2 = none) (body : Bytes) :
    (s.load fp body).2 = (s.parse body).2 ∧
      (s.load fp body).1.counts = (s.parse body).1.counts.miss := by
  rw [load_of_none hp, parseInto_eq]
  unfold parse
  have hpool : (s.peek fp).1.pool = s.pool := rfl
  rw [hpool]
  cases s.pool.scan body with
  | mk result pool => cases result <;> exact ⟨rfl, rfl⟩

theorem parse_eq_scan (h : s.pool.IsFresh maxSize) (body : Bytes) : (s.parse body).2 =
    (scan maxSize body).map fun tags => ⟨s.next, Page.ofTags tags⟩ := by
  rw [← h.scan_eq body]
  unfold parse
  cases s.pool.scan body with
  | mk result pool => cases result <;> rfl

theorem peek_lookup (h : (s.lookup fp body).2 = none) :
    ((s.lookup fp body).1.peek fp).2 = none := by
  rw [lookup_eq] at h ⊢
  cases hp : (s.peek fp).2 with
  | none => exact (peek_peek s fp).trans hp
  | some q =>
    rw [hp] at h
    dsimp only at h ⊢
    split
    · rename_i hq
      rw [if_pos hq] at h
      cases h
    · exact (s.peek fp).1.cache.get_remove fp

/-- A look-up that finds a page leaves it where it was. -/
theorem peek_lookup_of_some {q : ParsedPage} (h : (s.lookup fp body).2 = some q) :
    ((s.lookup fp body).1.peek fp).2 = (s.peek fp).2 := by
  obtain ⟨hp, hf⟩ := kept_of_lookup h
  rw [lookup_of_fits hp hf]
  exact peek_peek s fp

/-- What has been loaded is kept. -/
theorem peek_load (h : (s.load fp body).2 = .ok page) :
    ((s.load fp body).1.peek fp).2 = some page := by
  rw [load_eq] at h ⊢
  cases hl : (s.lookup fp body).2 with
  | some q =>
    rw [hl] at h
    cases h
    exact (peek_lookup_of_some hl).trans (kept_of_lookup hl).1
  | none =>
    rw [hl] at h
    dsimp only at h ⊢
    rw [parseInto_eq] at h ⊢
    cases hs : ((s.lookup fp body).1.pool.scan body).1 with
    | error err =>
      rw [hs] at h
      cases h
    | ok tags =>
      rw [hs] at h
      cases h
      exact (s.lookup fp body).1.cache.get_insert fp _

/-- A page that is kept from now on has the tags of the body that has been loaded. -/
theorem tags_of_peek_load (h : s.pool.IsFresh maxSize) (hold : (s.peek fp).2 ≠ some page)
    (hnew : ((s.load fp body).1.peek fp).2 = some page) :
    ∃ tags, scan maxSize body = .ok tags ∧ page.tags = Page.ofTags tags := by
  rw [load_eq] at hnew
  cases hl : (s.lookup fp body).2 with
  | some q =>
    rw [hl] at hnew
    exact absurd ((peek_lookup_of_some hl).symm.trans hnew) hold
  | none =>
    have hnone := peek_lookup hl
    have hscan := (isFresh_lookup h fp body).scan_eq body
    rw [hl] at hnew
    dsimp only at hnew
    rw [parseInto_eq, hscan] at hnew
    cases hs : scan maxSize body with
    | error e =>
      rw [hs] at hnew
      exact absurd (hnone.symm.trans hnew) nofun
    | ok tags =>
      rw [hs] at hnew
      have hins := (s.lookup fp body).1.cache.get_insert fp
        ⟨(s.lookup fp body).1.next, Page.ofTags tags⟩
      obtain rfl := Option.some.inj (hnew.symm.trans hins)
      exact ⟨tags, rfl, rfl⟩

end PageStore

end EdgeInclude

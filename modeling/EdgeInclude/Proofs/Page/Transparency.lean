import EdgeInclude.Proofs.Page.Kinds
import EdgeInclude.Proofs.Page.Store
import EdgeInclude.Proofs.Tag.Strays

/-!
# Kept pages and fresh scans

A page that is kept is only asked whether its tags still stand at their places. What a caller gets
for a body may therefore be the tags of an older body, and a tag that the newer one has gained is
not among them.

* `PageCache.Holds` — the entries of a cache of either kind, as one table.
* `PageStore.Op`, `PageStore.after` — what is done to a store, and the store behind it.
* `PageStore.WasScanned` — tags that an earlier call has found, and that nothing has dropped since.
* `PageStore.sound_after` — whatever is kept was scanned.
* `PageStore.scan_eq_iff_of_load` — what a caller gets is what a scan of the body finds, if and
  only if the body has no opening mark besides that a scan makes something of; otherwise it is what
  a scan of an older body has found.
-/

namespace EdgeInclude

/-! ## 1. The entries of a cache -/

namespace PageCache

variable {α : Type} {c : PageCache α} {t : Table α}

/-- A cache whose entries are those of a table. -/
inductive Holds : PageCache α → Table α → Prop where
  | locked (t : Table α) : Holds (.locked t) t
  | readMostly {c : ReadMostly α} {t : Table α} (h : c.Mirrors t) : Holds (.readMostly c) t

theorem holds_new (kind : CacheKind) : (new kind : PageCache α).Holds [] := by
  cases kind with
  | locked => exact .locked []
  | readMostly => exact .readMostly .empty

namespace Holds

theorem get (h : c.Holds t) (fp : Fingerprint) :
    (c.get fp).1.Holds t ∧ (c.get fp).2 = t.get? fp := by
  cases h with
  | locked => exact ⟨.locked t, rfl⟩
  | readMostly h => exact ⟨.readMostly (h.get fp).1, (h.get fp).2⟩

theorem insert (h : c.Holds t) (fp : Fingerprint) (a : α) :
    (c.insert fp a).Holds (t.insert fp a) := by
  cases h with
  | locked => exact .locked _
  | readMostly h => exact .readMostly (h.insert fp a)

theorem remove (h : c.Holds t) (fp : Fingerprint) : (c.remove fp).1.Holds (t.remove fp) := by
  cases h with
  | locked => exact .locked _
  | readMostly h => exact .readMostly (h.remove fp).1

theorem clear (h : c.Holds t) : c.clear.Holds [] := by
  cases h with
  | locked => exact .locked []
  | @readMostly c => exact .readMostly (ReadMostly.Mirrors.clear c)

end Holds

end PageCache

namespace PageStore

variable {s : PageStore} {t : Table ParsedPage} {kind : CacheKind} {maxSize : Nat}
  {fp : Fingerprint} {body : Bytes} {tags : List RawTag} {page : ParsedPage}

/-! ## 2. What is done to a store -/

/-- What is done to a store. -/
inductive Op where
  | load (fp : Fingerprint) (body : Bytes)
  | remove (fp : Fingerprint)
  | clear
  deriving DecidableEq, Repr

/-- Whether an operation takes a fingerprint away for sure. -/
def Op.drops (fp : Fingerprint) : Op → Bool
  | load .. => false
  | remove fp' => fp' == fp
  | clear => true

/-- The store behind an operation. -/
def perform (s : PageStore) : Op → PageStore
  | .load fp body => (s.load fp body).1
  | .remove fp => (s.remove fp).1
  | .clear => s.clear

/-- A store that was new before operations, the last one of which is listed first. -/
def after (kind : CacheKind) (maxSize : Nat) : List Op → PageStore
  | [] => new kind maxSize
  | op :: past => (after kind maxSize past).perform op

/-- The tags were found by a scan for an earlier call with this fingerprint, and no operation has
dropped the fingerprint since. -/
def WasScanned (maxSize : Nat) (past : List Op) (fp : Fingerprint) (tags : List RawTag) : Prop :=
  ∃ later body earlier, past = later ++ .load fp body :: earlier ∧
    (∀ op ∈ later, op.drops fp = false) ∧ scan maxSize body = .ok tags

variable {past : List Op} {op : Op}

theorem wasScanned_load (past : List Op) (fp : Fingerprint) (h : scan maxSize body = .ok tags) :
    WasScanned maxSize (.load fp body :: past) fp tags :=
  ⟨[], body, past, rfl, fun _ ho => absurd ho List.not_mem_nil, h⟩

theorem WasScanned.cons (h : WasScanned maxSize past fp tags) (hop : op.drops fp = false) :
    WasScanned maxSize (op :: past) fp tags := by
  obtain ⟨later, body, earlier, rfl, hlater, hs⟩ := h
  exact ⟨op :: later, body, earlier, rfl, List.forall_mem_cons.2 ⟨hop, hlater⟩, hs⟩

/-! ## 3. Whatever is kept was scanned -/

/-- What is kept of a fingerprint behind a scan for another one is what was kept before. -/
theorem holds_parseInto (hpool : s.pool.IsFresh maxSize) (hc : s.cache.Holds t)
    (fp : Fingerprint) (body : Bytes) :
    ∃ t', (s.parseInto fp body).1.cache.Holds t' ∧ ∀ fp' p, t'.get? fp' = some p →
      t.get? fp' = some p ∨ fp' = fp ∧ scan maxSize body = .ok p.tags.raws := by
  rw [parseInto_eq, hpool.scan_eq]
  cases hs : scan maxSize body with
  | error e => exact ⟨t, hc, fun _ _ hp => .inl hp⟩
  | ok tags =>
    refine ⟨_, hc.insert fp _, fun fp' p hp => ?_⟩
    rw [Table.get?_insert] at hp
    split at hp
    · rename_i hfp
      cases hp
      exact .inr ⟨hfp.symm, congrArg Except.ok (Page.raws_ofTags tags).symm⟩
    · exact .inl hp

/-- A look-up leaves nothing that was not there before. -/
theorem holds_lookup (hc : s.cache.Holds t) (fp : Fingerprint) (body : Bytes) :
    ∃ t', (s.lookup fp body).1.cache.Holds t' ∧
      ∀ fp' p, t'.get? fp' = some p → t.get? fp' = some p := by
  have hpeek : (s.peek fp).1.cache.Holds t := (hc.get fp).1
  rw [lookup_eq]
  split
  · split
    · exact ⟨t, hpeek, fun _ _ hp => hp⟩
    · refine ⟨_, hpeek.remove fp, fun fp' p hp => ?_⟩
      rw [Table.get?_remove] at hp
      split at hp
      · cases hp
      · exact hp
  · exact ⟨t, hpeek, fun _ _ hp => hp⟩

theorem holds_load (hpool : s.pool.IsFresh maxSize) (hc : s.cache.Holds t)
    (fp : Fingerprint) (body : Bytes) :
    ∃ t', (s.load fp body).1.cache.Holds t' ∧ ∀ fp' p, t'.get? fp' = some p →
      t.get? fp' = some p ∨ fp' = fp ∧ scan maxSize body = .ok p.tags.raws := by
  obtain ⟨t₁, hc₁, hkept⟩ := holds_lookup hc fp body
  rw [load_eq]
  split
  · exact ⟨t₁, hc₁, fun fp' p hp => .inl (hkept fp' p hp)⟩
  · obtain ⟨t₂, hc₂, hnew⟩ := holds_parseInto (isFresh_lookup hpool fp body) hc₁ fp body
    exact ⟨t₂, hc₂, fun fp' p hp => (hnew fp' p hp).imp (hkept fp' p) id⟩

/-- What holds of a store behind operations: its scanners are like new, and whatever it keeps was
scanned. -/
structure Sound (maxSize : Nat) (past : List Op) (s : PageStore) : Prop where
  pool : s.pool.IsFresh maxSize
  kept : ∃ t, s.cache.Holds t ∧
    ∀ fp p, t.get? fp = some p → WasScanned maxSize past fp p.tags.raws

theorem sound_new (kind : CacheKind) (maxSize : Nat) : Sound maxSize [] (new kind maxSize) where
  pool := ScannerPool.isFresh_new maxSize
  kept := ⟨[], PageCache.holds_new kind, nofun⟩

theorem Sound.perform (h : Sound maxSize past s) (op : Op) :
    Sound maxSize (op :: past) (s.perform op) := by
  obtain ⟨t, hc, hkept⟩ := h.kept
  cases op with
  | load fp body =>
    obtain ⟨t', hc', hnew⟩ := holds_load h.pool hc fp body
    refine ⟨isFresh_load h.pool fp body, t', hc', fun fp' p hp => ?_⟩
    rcases hnew fp' p hp with hold | ⟨rfl, hs⟩
    · exact (hkept fp' p hold).cons rfl
    · exact wasScanned_load past fp' hs
  | remove fp =>
    refine ⟨h.pool, t.remove fp, hc.remove fp, fun fp' p hp => ?_⟩
    rw [Table.get?_remove] at hp
    split at hp
    · cases hp
    · rename_i hne
      exact (hkept fp' p hp).cons (beq_eq_false_iff_ne.2 hne)
  | clear => exact ⟨h.pool, [], hc.clear, nofun⟩

theorem sound_after (kind : CacheKind) (maxSize : Nat) (past : List Op) :
    Sound maxSize past (after kind maxSize past) := by
  induction past with
  | nil => exact sound_new kind maxSize
  | cons op past ih => exact ih.perform op

/-! ## 4. What a caller gets -/

/-- What a caller gets has been scanned: just now, or for an earlier call. -/
theorem Sound.scanned_of_load (h : Sound maxSize past s) (hl : (s.load fp body).2 = .ok page) :
    scan maxSize body = .ok page.tags.raws ∨ WasScanned maxSize past fp page.tags.raws := by
  rw [load_eq] at hl
  cases hf : (s.lookup fp body).2 with
  | some q =>
    rw [hf] at hl
    cases hl
    obtain ⟨t, hc, hkept⟩ := h.kept
    have hpeek := (kept_of_lookup hf).1
    exact .inr (hkept fp page ((hc.get fp).2.symm.trans hpeek))
  | none =>
    rw [hf] at hl
    obtain ⟨tags, hs, ht⟩ := tags_of_parseInto (isFresh_lookup h.pool fp body) hl
    rw [ht, Page.raws_ofTags]
    exact .inl hs

/-- **When a kept page may stand for a scan.** Whatever has been done to a store: the tags that a
call gets for a body stand in it at their places, and they are what a scan of the body finds if and
only if the body has no stray opening mark besides. If they are not, then an earlier call with the
same fingerprint has scanned an older body that had just these tags, and the fingerprint has not
been dropped since. -/
theorem scan_eq_iff_of_load (kind : CacheKind) (maxSize : Nat) (past : List Op)
    (h : ((after kind maxSize past).load fp body).2 = .ok page) :
    page.tags.fits body = true ∧
    (scan maxSize body = .ok page.tags.raws ↔
      ∀ i, ¬ RawTag.IsStray maxSize page.tags.raws body i) ∧
    (scan maxSize body ≠ .ok page.tags.raws → WasScanned maxSize past fp page.tags.raws) := by
  have hs := sound_after kind maxSize past
  have hfits := fits_of_load hs.pool h
  have hscanned := hs.scanned_of_load h
  obtain ⟨older, holder⟩ : ∃ older, scan maxSize older = .ok page.tags.raws := by
    rcases hscanned with hnow | ⟨_, older, _, _, _, hthen⟩
    · exact ⟨body, hnow⟩
    · exact ⟨older, hthen⟩
  exact ⟨hfits, RawTag.scan_eq_iff holder (List.all_eq_true.1 hfits), hscanned.resolve_left⟩

/-- A body with one tag. -/
def gained : Bytes := RawTag.written [0x78]

/-- A page without tags is kept; a body that has gained one is served with it. -/
theorem scan_eq_iff_of_load_sample :
    ((after .locked 64 [.load 1 [0x78]]).load 1 gained).2 = .ok ⟨0, []⟩ ∧
    scan 64 gained ≠ .ok [] ∧ WasScanned 64 [.load 1 [0x78]] 1 [] := by
  have hload : ((after .locked 64 [.load 1 [0x78]]).load 1 gained).2 = .ok ⟨0, []⟩ := by
    decide +kernel
  have hscan : scan 64 gained ≠ .ok [] := by decide +kernel
  exact ⟨hload, hscan, (scan_eq_iff_of_load .locked 64 [.load 1 [0x78]] hload).2.2 hscan⟩

/-- **A kept page does not always stand for a scan.** -/
theorem exists_outdated : ¬ ∀ kind maxSize past fp body page,
    ((after kind maxSize past).load fp body).2 = .ok page →
      scan maxSize body = .ok page.tags.raws := by
  intro h
  have hload : ((after .readMostly 64 [.load 1 [0x78]]).load 1 gained).2 = .ok ⟨0, []⟩ := by
    decide +kernel
  have hscan := h .readMostly 64 [.load 1 [0x78]] 1 gained ⟨0, []⟩ hload
  exact absurd hscan (by decide +kernel)

end PageStore

end EdgeInclude

import EdgeInclude.Engine.Basic
import EdgeInclude.Proofs.Page.Transparency

/-!
# What a purge takes away

A purge request names a page by its target and its header fields, and so does the engine when it
keeps the page. Both have to come to the same fingerprints, and no other page may be touched.

* `PageCache.Keeps` — the entries of a cache, each fingerprint once; every operation leaves a cache
  of this form.
* `Purge.Removes` — a cache before and after some fingerprints are taken out, with their number.
* `Purge.Admits` — the requests that are carried out: method and token are right.
* `Engine.AsksFor` — a request whose page a purge names: the same target, the same values of all
  fields that pages vary by, and a method that pages are kept for.
* `Engine.evicts` — a purge of one page takes out the pages that it names, one of all pages takes
  all, and any other request takes none; each reports how many there were.
-/

namespace EdgeInclude

variable {α : Type} {fp : Fingerprint}

/-! ## 1. Entries -/

theorem Table.contains_cons (fp' : Fingerprint) (a : α) (t : Table α) (fp : Fingerprint) :
    Table.contains ((fp', a) :: t) fp = (decide (fp' = fp) || t.contains fp) := by
  unfold Table.contains
  rw [Table.get?_cons]
  by_cases h : fp' = fp
  · rw [if_pos h, decide_eq_true h]
    rfl
  · rw [if_neg h, decide_eq_false h, Bool.false_or]

/-- Of a fingerprint that stands at most once, at most one entry is removed. -/
theorem Table.length_remove {t : Table α} (h : t.Distinct) (fp : Fingerprint) :
    t.length = (t.remove fp).length + if t.contains fp then 1 else 0 := by
  induction t with
  | nil => rfl
  | cons e rest ih =>
    obtain ⟨k, a⟩ := e
    obtain ⟨hk, hrest⟩ := List.nodup_cons.1 h
    have hlen := ih hrest
    rw [Table.contains_cons]
    unfold Table.remove at hlen ⊢
    rw [List.length_cons, hlen]
    by_cases hfp : k = fp
    · -- the entry stands here, and so it does not stand behind
      have hnone : Table.contains rest fp = false := by
        rw [Table.contains_eq_false_iff]
        by_contra hs
        exact hk (hfp ▸ Table.get?_ne_none_iff.1 hs)
      rw [List.filter_cons_of_neg (by simpa using hfp), decide_eq_true hfp, hnone]
      rfl
    · rw [List.filter_cons_of_pos (by simpa using hfp), decide_eq_false hfp, Bool.false_or,
        List.length_cons]
      omega

namespace PageCache

variable {c : PageCache α} {t : Table α}

/-- The entries of a cache, each fingerprint once. -/
structure Keeps (c : PageCache α) (t : Table α) : Prop where
  holds : c.Holds t
  distinct : t.Distinct

theorem keeps_new (kind : CacheKind) : (new kind : PageCache α).Keeps [] :=
  ⟨holds_new kind, .nil⟩

namespace Keeps

theorem found (h : c.Keeps t) (fp : Fingerprint) : (c.get fp).2 = t.get? fp := (h.holds.get fp).2

theorem length (h : c.Keeps t) : c.length = t.length := by
  obtain ⟨hc, -⟩ := h
  cases hc with
  | locked => rfl
  | readMostly hm => exact hm.length

theorem remove (h : c.Keeps t) (fp : Fingerprint) :
    (c.remove fp).1.Keeps (t.remove fp) ∧ (c.remove fp).2 = t.contains fp := by
  refine ⟨⟨h.holds.remove fp, Table.distinct_remove h.distinct fp⟩, ?_⟩
  obtain ⟨hc, -⟩ := h
  cases hc with
  | locked => rfl
  | readMostly hm => exact (hm.remove fp).2

/-- **Every operation leaves each fingerprint once.** -/
theorem perform (h : c.Keeps t) (op : Op α) : ∃ t', (c.perform op).1.Keeps t' := by
  cases op with
  | get fp => exact ⟨t, (h.holds.get fp).1, h.distinct⟩
  | insert fp a => exact ⟨_, h.holds.insert fp a, Table.distinct_insert h.distinct fp a⟩
  | remove fp => exact ⟨_, (h.remove fp).1⟩
  | clear => exact ⟨[], h.holds.clear, .nil⟩
  | length => exact ⟨t, h⟩
  | isEmpty => exact ⟨t, h⟩

end Keeps

end PageCache

/-! ## 2. Removing -/

namespace Purge

variable {c c' : PageCache α} {t : Table α}

/-- A cache before and after fingerprints are taken out, and how many of them had an entry. -/
structure Removes (fps : List Fingerprint) (c c' : PageCache α) (count : Nat) : Prop where
  gone : ∀ fp ∈ fps, (c'.get fp).2 = none
  kept : ∀ fp, fp ∉ fps → (c'.get fp).2 = (c.get fp).2
  counted : c.length = c'.length + count

theorem removeAll_cons (c : PageCache α) (fp : Fingerprint) (rest : List Fingerprint) :
    removeAll c (fp :: rest) =
      ((removeAll (c.remove fp).1 rest).1, if (c.remove fp).2 then
        (removeAll (c.remove fp).1 rest).2 + 1 else (removeAll (c.remove fp).1 rest).2) := rfl

theorem removes_removeAll (h : c.Keeps t) (fps : List Fingerprint) :
    (∃ t', (removeAll c fps).1.Keeps t') ∧
      Removes fps c (removeAll c fps).1 (removeAll c fps).2 := by
  induction fps generalizing c t with
  | nil => exact ⟨⟨t, h⟩, nofun, fun _ _ => rfl, rfl⟩
  | cons first rest ih =>
    obtain ⟨hc, hpresent⟩ := h.remove first
    obtain ⟨hkeeps, hrest⟩ := ih hc
    -- a fingerprint that the rest leaves alone is found as it is behind the first removal
    have hget : ∀ fp, ((c.remove first).1.get fp).2 = if first = fp then none else (c.get fp).2 :=
      fun fp => by rw [hc.found, h.found, Table.get?_remove]
    refine ⟨hkeeps, fun fp hfp => ?_, fun fp hfp => ?_, ?_⟩
    · by_cases hr : fp ∈ rest
      · exact hrest.gone fp hr
      · obtain rfl := (List.mem_cons.1 hfp).resolve_right hr
        exact (hrest.kept fp hr).trans ((hget fp).trans (if_pos rfl))
    · obtain ⟨hne, hr⟩ := not_or.1 (mt List.mem_cons.2 hfp)
      exact (hrest.kept fp hr).trans ((hget fp).trans (if_neg (Ne.symm hne)))
    · have hfirst := Table.length_remove h.distinct first
      have hbehind := hrest.counted
      rw [hc.length] at hbehind
      rw [h.length, hfirst, ← hpresent, hbehind, removeAll_cons]
      dsimp only
      split <;> omega

/-! ## 3. Requests -/

/-- A request that is carried out: it purges, and brings the token if one is required. -/
structure Admits (p : Purge) (r : Request) : Prop where
  method : isPurge r.method = true
  token : ∀ t, p.token = some t → tokenOf r.headers = some t

theorem refusal?_eq_none_iff {p : Purge} {h : Headers} :
    p.refusal? h = none ↔ ∀ t, p.token = some t → tokenOf h = some t := by
  unfold refusal?
  cases p.token with
  | none => exact ⟨fun _ => nofun, fun _ => rfl⟩
  | some expected =>
    cases tokenOf h with
    | none => exact ⟨nofun, fun ht => absurd (ht expected rfl) nofun⟩
    | some t => grind

theorem handle_of_admits {p : Purge} {r : Request} (h : p.Admits r) (c : PageCache α) :
    p.handle r c = p.evict r c := by
  unfold handle
  rw [h.method, refusal?_eq_none_iff.2 h.token]
  rfl

/-- **A request that is not carried out changes nothing** and reports that nothing was removed. -/
theorem handle_of_not_admits {p : Purge} {r : Request} (h : ¬ p.Admits r) (c : PageCache α) :
    (p.handle r c).1 = c ∧ (p.handle r c).2.count = 0 := by
  unfold handle
  cases hm : isPurge r.method with
  | false => exact ⟨rfl, rfl⟩
  | true =>
    cases hr : p.refusal? r.headers with
    | none => exact absurd ⟨hm, refusal?_eq_none_iff.1 hr⟩ h
    | some why => exact ⟨rfl, rfl⟩

/-- The number that a reply reports as the number of removed entries. -/
def Verdict.Reports (v : Verdict) (n : Nat) : Prop :=
  ∃ fields, v.datum = .map fields ∧ Datum.field? fields "purged_count".toList = some (.int n)

theorem Verdict.reports_count (v : Verdict) : v.Reports v.count := ⟨_, rfl, rfl⟩

end Purge

/-- The store behind a request that may purge. -/
def PageStore.purged (s : PageStore) (p : Purge) (r : Purge.Request) : PageStore :=
  { s with cache := (p.handle r s.cache).1 }

/-! ## 4. Pages -/

namespace Engine

variable {e : Engine} {token : Option Text} {r : Purge.Request} {q : Request} {s : PageStore}
  {t : Table ParsedPage}

/-- A request whose page a purge names: the same target, the same values of the fields that pages
vary by, and a method that pages are kept for. -/
structure AsksFor (e : Engine) (r : Purge.Request) (q : Request) : Prop where
  method : q.method = Request.get ∨ q.method = Request.head
  target : q.target = r.target
  values : ∀ name ∈ e.config.varyBy, q.headers.getAll name = r.headers.getAll name

theorem AsksFor.fingerprint_eq (h : e.AsksFor r q) :
    e.fingerprint q = .ofRequest q.method (Purge.pathOf r) r.headers e.config.varyBy := by
  have hvary : e.config.varyBy.flatMap (Fingerprint.variation q.headers) =
      e.config.varyBy.flatMap (Fingerprint.variation r.headers) := by
    refine List.flatMap_congr fun name hname => ?_
    unfold Fingerprint.variation
    rw [h.values name hname]
  unfold fingerprint Fingerprint.ofRequest Fingerprint.key Purge.pathOf
  rw [h.target, hvary]

theorem mem_methods_iff {m : Text} : m ∈ Purge.methods ↔ m = Request.get ∨ m = Request.head := by
  rw [Purge.methods, List.mem_cons, List.mem_singleton]
  rfl

/-- **A purge takes the fingerprints that the engine keeps pages under.** -/
theorem mem_fingerprints_iff :
    fp ∈ (e.purge token).fingerprints r ↔ ∃ q, e.AsksFor r q ∧ e.fingerprint q = fp := by
  unfold Purge.fingerprints
  rw [List.mem_map]
  constructor
  · rintro ⟨m, hm, rfl⟩
    have hasks : e.AsksFor r (.ofParts m r.target r.headers) :=
      ⟨mem_methods_iff.1 hm, rfl, fun _ _ => rfl⟩
    exact ⟨_, hasks, hasks.fingerprint_eq⟩
  · rintro ⟨q, hq, rfl⟩
    exact ⟨q.method, mem_methods_iff.2 hq.method, hq.fingerprint_eq.symm⟩

/-- A store before and after a purge of one page, and how many entries were taken out. -/
structure PageGone (e : Engine) (r : Purge.Request) (s s' : PageStore) (count : Nat) : Prop where
  gone : ∀ q, e.AsksFor r q → (s'.peek (e.fingerprint q)).2 = none
  kept : ∀ fp, (∀ q, e.AsksFor r q → e.fingerprint q ≠ fp) → (s'.peek fp).2 = (s.peek fp).2
  counted : s.cache.length = s'.cache.length + count
  /-- The next body of the page is scanned, whatever it is. -/
  scans : ∀ q, e.AsksFor r q → ∀ body,
    (s'.load (e.fingerprint q) body).2 = (s'.parse body).2 ∧
      (s'.load (e.fingerprint q) body).1.counts = (s'.parse body).1.counts.miss

theorem pageGone_of_removes (token : Option Text) {s' : PageStore} {n : Nat}
    (h : Purge.Removes ((e.purge token).fingerprints r) s.cache s'.cache n) :
    e.PageGone r s s' n := by
  have hgone : ∀ q, e.AsksFor r q → (s'.peek (e.fingerprint q)).2 = none :=
    fun q hq => h.gone _ (mem_fingerprints_iff.2 ⟨q, hq, rfl⟩)
  refine ⟨hgone, fun fp hfp => h.kept fp fun hm => ?_, h.counted,
    fun q hq body => PageStore.load_eq_parse (hgone q hq) body⟩
  obtain ⟨q, hq, heq⟩ := mem_fingerprints_iff.1 hm
  exact hfp q hq heq

/-- **A purge takes out the pages that it names, and no others**: the request is carried out if and
only if method and token are right. -/
theorem evicts (hk : s.cache.Keeps t) (e : Engine) (token : Option Text) (r : Purge.Request) :
    let p := e.purge token
    let v := (p.handle r s.cache).2
    (p.Admits r → Purge.wantsAll r.headers = false →
      ∃ n, v.Reports n ∧ e.PageGone r s (s.purged p r) n) ∧
    (p.Admits r → Purge.wantsAll r.headers = true →
      v.Reports s.cache.length ∧ (s.purged p r).cache.length = 0 ∧
        ∀ fp, ((s.purged p r).peek fp).2 = none) ∧
    (¬ p.Admits r → v.Reports 0 ∧ s.purged p r = s) := by
  intro p v
  have hv : v = (p.handle r s.cache).2 := rfl
  have hs : (s.purged p r).cache = (p.handle r s.cache).1 := rfl
  refine ⟨fun ha hall => ?_, fun ha hall => ?_, fun ha => ?_⟩
  · rw [Purge.handle_of_admits ha, Purge.evict, hall] at hv hs
    refine ⟨v.count, v.reports_count, pageGone_of_removes token ?_⟩
    rw [hs, hv]
    exact (Purge.removes_removeAll hk _).2
  · rw [Purge.handle_of_admits ha, Purge.evict, hall] at hv hs
    have hcleared : (s.purged p r).cache.Keeps [] := by
      rw [hs]
      exact ⟨hk.holds.clear, .nil⟩
    refine ⟨?_, hcleared.length, hcleared.found⟩
    have hr := v.reports_count
    rw [hv] at hr ⊢
    exact hr
  · obtain ⟨hc, hn⟩ := Purge.handle_of_not_admits ha s.cache
    refine ⟨hn ▸ v.reports_count, ?_⟩
    unfold PageStore.purged
    rw [hc]

namespace Sample

/-- An engine whose pages vary by language. -/
def varied : Engine :=
  ⟨{ Config.standard with pages := .readMostly, varyBy := ["Accept-Language".toList] }, .empty⟩

def inLanguage (lang : String) : Headers :=
  Headers.empty.append "accept-language".toList (Text.utf8 lang.toList)

/-- The fingerprint of the page `/`, in a language. -/
def rootIn (lang : String) : Fingerprint :=
  varied.fingerprint (.ofParts Request.get .root (inLanguage lang))

/-- A store with the page in two languages. -/
def languages : PageStore :=
  { PageStore.new .readMostly 64 with
    cache :=
      ((PageCache.new .readMostly).insert (rootIn "de") ⟨0, []⟩).insert (rootIn "en") ⟨1, []⟩ }

/-- A request that purges the page in one language. -/
def purgeGerman : Purge.Request :=
  ⟨"purge".toList, .root, (inLanguage "de").append "X-Purge-Token".toList (Text.utf8 ['t'])⟩

end Sample

open Sample in
/-- Of two languages of a page, the one that the purge asks for goes. -/
theorem evicts_sample :
    ∃ n, ((varied.purge (some ['t'])).handle purgeGerman languages.cache).2.Reports n ∧
      2 = (languages.purged (varied.purge (some ['t'])) purgeGerman).cache.length + n ∧
      ((languages.purged (varied.purge (some ['t'])) purgeGerman).peek (rootIn "de")).2 = none ∧
      ((languages.purged (varied.purge (some ['t'])) purgeGerman).peek (rootIn "en")).2 =
        some ⟨1, []⟩ := by
  have hnew : (PageCache.new .readMostly : PageCache ParsedPage).Keeps [] := PageCache.keeps_new _
  obtain ⟨t, hk⟩ := hnew.perform (.insert (rootIn "de") ⟨0, []⟩)
  obtain ⟨t, hk⟩ := hk.perform (.insert (rootIn "en") ⟨1, []⟩)
  have hadmits : (varied.purge (some ['t'])).Admits purgeGerman :=
    ⟨by decide +kernel, fun t ht => by
      cases ht
      decide +kernel⟩
  obtain ⟨n, hn, h⟩ := (evicts (s := languages) hk varied (some ['t']) purgeGerman).1 hadmits
    (by decide +kernel)
  have htwo : languages.cache.length = 2 := by decide +kernel
  refine ⟨n, hn, htwo ▸ h.counted, h.gone _ ⟨.inl rfl, rfl, fun name hname => ?_⟩, ?_⟩
  · obtain rfl := List.mem_singleton.1 hname
    decide +kernel
  · have hother : rootIn "en" ∉ (varied.purge none).fingerprints purgeGerman := by decide +kernel
    rw [h.kept _ fun q hq heq => hother (mem_fingerprints_iff.2 ⟨q, hq, heq⟩)]
    decide +kernel

end Engine

end EdgeInclude

import EdgeInclude.Proofs.Page.Acts
import EdgeInclude.Proofs.Page.Joined
import EdgeInclude.Proofs.Page.Transparency

/-!
# Bursts of calls

Calls that come together for a page that is not kept share one scan of it, whatever bodies they
bring along. If the scan fails, all of them are told so, and nothing is kept of it.

* `PageStore.KeepsNoMore` — a change after which no more is kept of a fingerprint than before.
* `PageStore.Latest`, `PageStore.latest_acts` — what is kept of a fingerprint is what its latest
  scan has found.
* `PageStore.Burst` — the acts of calls that are joined: one scan for each fingerprint that any of
  them has missed, told to all that have missed it, and the counters of all this.
* `PageStore.answered_of_joins`, `PageStore.Answered.burst` — calls that are joined are such a
  burst, in whatever order they are polled.
* `PageStore.burst_loadAll` — pages that are loaded together are a burst.
* `PageStore.scans_once` — so it is after whatever has happened before; rounds of polls are a case
  of it.
-/

namespace EdgeInclude

namespace PageStore

variable {s s' s₀ : PageStore} {t : Table ParsedPage} {calls : Calls} {b b' b₀ c : Loading}
  {i j n : Nat} {fp fp' : Fingerprint} {body : Bytes} {page : ParsedPage} {maxSize : Nat}
  {log more : List Act} {p : Phase (Except Failure ParsedPage)} {woken : List Nat}
  {incidents : List Incident}

/-! ## 1. What is kept of a fingerprint -/

/-- The entries of the cache are those of a table. -/
def HasTable (s : PageStore) : Prop := ∃ t, s.cache.Holds t

theorem hasTable_new (kind : CacheKind) (maxSize : Nat) : (new kind maxSize).HasTable :=
  ⟨[], PageCache.holds_new kind⟩

/-- What is kept of a fingerprint in `s'` has been kept in `s`. -/
def KeepsNoMore (fp : Fingerprint) (s s' : PageStore) : Prop :=
  s'.HasTable ∧ ∀ page, (s'.peek fp).2 = some page → (s.peek fp).2 = some page

theorem KeepsNoMore.none (h : KeepsNoMore fp s s') (hs : (s.peek fp).2 = none) :
    (s'.peek fp).2 = none := by
  by_contra hp
  obtain ⟨page, hpage⟩ := Option.ne_none_iff_exists'.1 hp
  exact nomatch hs.symm.trans (h.2 page hpage)

theorem keepsNoMore_of_get? (ht : s.cache.Holds t) {t' : Table ParsedPage}
    (ht' : s'.cache.Holds t') (h : ∀ page, t'.get? fp = some page → t.get? fp = some page) :
    KeepsNoMore fp s s' := by
  refine ⟨⟨t', ht'⟩, fun page hp => ?_⟩
  exact (ht.get fp).2.trans (h page ((ht'.get fp).2.symm.trans hp))

theorem keepsNoMore_of_cache (h : s.HasTable) (hc : s'.cache = s.cache) : KeepsNoMore fp s s' := by
  obtain ⟨t, ht⟩ := h
  exact keepsNoMore_of_get? ht (hc ▸ ht) fun _ hp => hp

theorem keepsNoMore_lookup (h : s.HasTable) (fp fp' : Fingerprint) (body : Bytes) :
    KeepsNoMore fp s (s.lookup fp' body).1 := by
  obtain ⟨t, ht⟩ := h
  obtain ⟨t', ht', hkept⟩ := holds_lookup ht fp' body
  exact keepsNoMore_of_get? ht ht' fun page hp => hkept fp page hp

theorem keepsNoMore_remove (h : s.HasTable) (fp fp' : Fingerprint) :
    KeepsNoMore fp s (s.remove fp').1 := by
  obtain ⟨t, ht⟩ := h
  refine keepsNoMore_of_get? ht (ht.remove fp') fun page hp => ?_
  rw [Table.get?_remove] at hp
  split at hp
  · cases hp
  · exact hp

theorem keepsNoMore_clear (h : s.HasTable) (fp : Fingerprint) : KeepsNoMore fp s s.clear := by
  obtain ⟨t, ht⟩ := h
  exact keepsNoMore_of_get? ht ht.clear fun _ hp => nomatch hp

/-- What is kept of one fingerprint is of no matter to another one. -/
theorem keepsNoMore_insert (h : s.HasTable) (hne : fp' ≠ fp) (page : ParsedPage)
    (hc : s'.cache = s.cache.insert fp' page) : KeepsNoMore fp s s' := by
  obtain ⟨t, ht⟩ := h
  refine keepsNoMore_of_get? ht (hc ▸ ht.insert fp' page) fun q hq => ?_
  rwa [Table.get?_insert, if_neg hne] at hq

/-- A scan keeps its page, if it has found one. -/
theorem cache_parseInto (s : PageStore) (fp : Fingerprint) (body : Bytes) :
    (∃ page, (s.parseInto fp body).2 = .ok page ∧
      (s.parseInto fp body).1.cache = s.cache.insert fp page) ∨
    ∃ e, (s.parseInto fp body).2 = .error e ∧ (s.parseInto fp body).1.cache = s.cache := by
  rw [parseInto_eq]
  split
  · exact .inl ⟨_, rfl, rfl⟩
  · exact .inr ⟨_, rfl, rfl⟩

theorem hasTable_parseInto (h : s.HasTable) (fp : Fingerprint) (body : Bytes) :
    (s.parseInto fp body).1.HasTable := by
  obtain ⟨t, ht⟩ := h
  rcases cache_parseInto s fp body with ⟨page, -, hcache⟩ | ⟨e, -, hcache⟩
  · exact ⟨_, hcache ▸ ht.insert fp page⟩
  · exact ⟨t, hcache ▸ ht⟩

/-- A scan for another fingerprint, or one that fails, keeps nothing more. -/
theorem keepsNoMore_parseInto (h : s.HasTable)
    (hno : ∀ page, (s.parseInto fp' body).2 = .ok page → fp' ≠ fp) :
    KeepsNoMore fp s (s.parseInto fp' body).1 := by
  rcases cache_parseInto s fp' body with ⟨page, hok, hcache⟩ | ⟨e, -, hcache⟩
  · exact keepsNoMore_insert h (hno page hok) page hcache
  · exact keepsNoMore_of_cache h hcache

theorem peek_parseInto (h : (s.parseInto fp body).2 = .ok page) :
    ((s.parseInto fp body).1.peek fp).2 = some page := by
  rcases cache_parseInto s fp body with ⟨page', hok, hcache⟩ | ⟨e, herr, -⟩
  · cases hok.symm.trans h
    unfold peek
    rw [hcache]
    exact PageCache.get_insert ..
  · cases herr.symm.trans h

/-! ## 2. Failures are not kept -/

/-- A call for the fingerprint. -/
def Calls.For (calls : Calls) (fp : Fingerprint) (i : Nat) : Prop := calls[i]?.map (·.1) = some fp

/-- What is kept of a fingerprint, by its latest scan in `log`; and nothing is kept of it while
somebody is in a flight for it. -/
structure Latest (calls : Calls) (fp : Fingerprint) (s₀ : PageStore) (log : List Act)
    (b : Loading) : Prop where
  calling : Loading.Calling calls b
  table : b.shared.HasTable
  attended : ∀ i n, b.key? i = some fp → b.On i n → (b.coalescer.flight n).value = none →
    (b.shared.peek fp).2 = none
  latest : ∀ page, (b.shared.peek fp).2 = some page →
    (scansFor calls fp log).getLast? = some (.ok page) ∨
      scansFor calls fp log = [] ∧ (s₀.peek fp).2 = some page

namespace Latest

/-- A store that keeps no more, while callers stay where they are. -/
theorem share (h : Latest calls fp s₀ log b) (hs : KeepsNoMore fp b.shared s) :
    Latest calls fp s₀ log { b with shared := s } :=
  ⟨h.calling, hs.1, fun i n hk ho hv => hs.none (h.attended i n hk ho hv),
    fun page hp => h.latest page (hs.2 page hp)⟩

/-- A move in which nothing is scanned. -/
theorem of_moved (h : Latest calls fp s₀ log b) (hs : b.Sound) (m : Batch.Move i b b')
    (hm : b.Moved i p woken b') (hkeep : KeepsNoMore fp b.shared b'.shared)
    (hnone : scansFor calls fp more = [])
    (hi : ∀ n, b.key? i = some fp → Batch.flightOf? p = some n →
      b.On i n ∨ (b'.shared.peek fp).2 = none) :
    Latest calls fp s₀ (log ++ more) b' := by
  refine ⟨h.calling.moved hm, hkeep.1, fun j n hk ho hv => ?_, fun page hp => ?_⟩
  · rw [hm.key] at hk
    have hv' : (b.coalescer.flight n).value = none := by
      rcases m.value_eq hs n with he | ⟨q, v, -, -, hv'⟩
      · exact he.symm.trans hv
      · exact nomatch hv.symm.trans hv'
    have hold : b.On j n → (b'.shared.peek fp).2 = none := fun ho =>
      hkeep.none (h.attended j n hk ho hv')
    by_cases hj : j = i
    · subst hj
      rcases hi n hk (hm.on_self.1 ho) with ho | hp
      · exact hold ho
      · exact hp
    · exact hold ((hm.on_of_ne hj).1 ho)
  · rw [scansFor_append, hnone, List.append_nil]
    exact h.latest page (hkeep.2 page hp)

/-- The scan for a call. -/
theorem of_complete (h : Latest calls fp s₀ log b) (hs : b.Sound) {q : Nat}
    {r : Except Failure ParsedPage} (hc : calls[i]? = some (fp', body))
    (was : b.phase i = .working n q) (hm : b.Moved i (.returned .leader r) woken b')
    (hvalue : ∀ m, b'.coalescer.flight m =
      if m = n then ((b.coalescer.flight n).settle r).1 else b.coalescer.flight m)
    (hr : (b.shared.parseInto fp' body).2 = r)
    (hshared : b'.shared = (b.shared.parseInto fp' body).1) :
    Latest calls fp s₀ (log ++ [.scan i r]) b' := by
  have hkey : b.key? i = some fp' := by rw [h.calling.key, hc]; rfl
  have hwas := Batch.on_of_working was
  have hscan : scansFor calls fp [.scan i r] = if fp' = fp then [r] else [] := by
    by_cases hfp : fp' = fp
    · simp [scansFor, Act.scanFor, hc, hfp]
    · simp [scansFor, Act.scanFor, hc, hfp]
  have hkeep : (∀ page, r = .ok page → fp' ≠ fp) → KeepsNoMore fp b.shared b'.shared := by
    intro hno
    rw [hshared]
    exact keepsNoMore_parseInto h.table fun page hok => hno page (hr.symm.trans hok)
  refine ⟨h.calling.moved hm, hshared ▸ hasTable_parseInto h.table fp' body,
    fun j m hk ho hv => ?_, fun page hp => ?_⟩
  · rw [hm.key] at hk
    have hj : j ≠ i := fun he => Batch.not_on_of_returned (b := b') (he ▸ hm.self) m ho
    have hon := (hm.on_of_ne hj).1 ho
    have hmn : m ≠ n := by
      intro he
      rw [hvalue, if_pos he] at hv
      cases hv
    rw [hvalue, if_neg hmn] at hv
    -- others are in another flight, and therefore of another fingerprint
    have hne : fp' ≠ fp := by
      intro he
      refine hmn (hs.flight_eq_of_key ?_ hon hwas hv (hs.of_working was).1)
      rw [hk, hkey, he]
    exact (hkeep fun _ _ => hne).none (h.attended j m hk hon hv)
  · rw [scansFor_append, hscan]
    by_cases hfp : fp' = fp
    · rw [if_pos hfp, List.getLast?_concat]
      subst hfp
      -- a failure leaves what has been there, and that is nothing while there is a flight
      cases hres : r with
      | ok page' =>
        have hget := peek_parseInto (hr.trans hres)
        rw [← hshared] at hget
        cases hget.symm.trans hp
        exact .inl rfl
      | error e =>
        have hold := (hkeep fun page hok => nomatch hok.symm.trans hres).2 page hp
        cases (h.attended i n hkey hwas (hs.of_working was).1).symm.trans hold
    · rw [if_neg hfp, List.append_nil]
      exact h.latest page ((hkeep fun _ _ => hfp).2 page hp)

/-- **Every move keeps it.** -/
theorem move (h : Latest calls fp s₀ log b) (hs : b.Sound) (m : Batch.Move i b b') :
    Latest calls fp s₀ (log ++ since i (b.phase i) (b'.phase i)) b' := by
  have hsame : b'.shared = b.shared → KeepsNoMore fp b.shared b'.shared := fun he =>
    keepsNoMore_of_cache h.table (congrArg cache he)
  cases m with
  | found own was look moved coalescer shared =>
    obtain ⟨fp', body, hc, rfl⟩ := h.calling.exists_call own
    refine h.of_moved hs (.found own was look moved coalescer shared) moved ?_ ?_ nofun
    · rw [shared]
      exact keepsNoMore_lookup h.table ..
    · rw [was, moved.self]
      rfl
  | @enter _ n own was look number moved awake coalescer shared =>
    obtain ⟨fp', body, hc, rfl⟩ := h.calling.exists_call own
    refine h.of_moved hs (.enter own was look number moved awake coalescer shared) moved ?_ ?_
      fun m hk _ => .inr ?_
    · rw [shared]
      exact keepsNoMore_lookup h.table ..
    · rw [was, moved.self]
      rfl
    · rw [h.calling.key, hc] at hk
      cases hk
      rw [shared]
      exact peek_lookup (Option.map_eq_none_iff.1 look)
  | follow own was value moved coalescer shared =>
    obtain ⟨fp', body, hc, rfl⟩ := h.calling.exists_call own
    refine h.of_moved hs (.follow own was value moved coalescer shared) moved ?_ ?_ nofun
    · rw [shared]
      exact keepsNoMore_of_cache h.table rfl
    · rw [was, moved.self]
      rfl
  | begin own was value permit moved awake coalescer shared =>
    obtain ⟨fp', body, hc, rfl⟩ := h.calling.exists_call own
    refine h.of_moved hs (.begin own was value permit moved awake coalescer shared) moved
      (hsame shared) ?_ fun m _ hn => .inl ?_
    · rw [was, moved.self]
      rfl
    · cases hn
      exact Batch.on_of_waiting was
  | pause was less moved awake coalescer shared =>
    refine h.of_moved hs (.pause was less moved awake coalescer shared) moved (hsame shared) ?_
      fun m _ hn => .inl ?_
    · rw [was, moved.self]
      rfl
    · cases hn
      exact Batch.on_of_working was
  | complete own was value moved coalescer shared =>
    obtain ⟨fp', body, hc, rfl⟩ := h.calling.exists_call own
    rw [was, moved.self]
    exact h.of_complete hs hc was moved (hs.flight_complete was coalescer) value shared
  | leave was moved coalescer shared =>
    refine h.of_moved hs (.leave was moved coalescer shared) moved (hsame shared) ?_ nofun
    rw [moved.self]
    exact congrArg (scansFor calls fp) List.drop_nil
  | forgo was moved coalescer shared =>
    refine h.of_moved hs (.forgo was moved coalescer shared) moved (hsame shared) ?_ nofun
    rw [moved.self]
    exact congrArg (scansFor calls fp) List.drop_nil

theorem rest (h : Latest calls fp s₀ log b) (r : Batch.Rest i b b') :
    Latest calls fp s₀ log b' := by
  refine ⟨h.calling.moved r.moved, ?_, fun j n hk ho hv => ?_, ?_⟩
  · rw [r.shared]
    exact h.table
  · rw [r.moved.key] at hk
    rw [r.coalescer] at hv
    rw [r.shared]
    exact h.attended j n hk (r.on_iff.1 ho) hv
  · rw [r.shared]
    exact h.latest

/-- Nobody but callers brings anything new of the fingerprint. -/
theorem undergo (h : Latest calls fp s₀ log b) (x : Incident) (hx : ∀ e, x ≠ .caller e)
    (hfp : ∀ page, x ≠ .kept fp page) : Latest calls fp s₀ log (b.undergo x) := by
  cases x with
  | caller e => exact absurd rfl (hx e)
  | removed fp' => exact h.share (keepsNoMore_remove h.table ..)
  | cleared => exact h.share (keepsNoMore_clear h.table fp)
  | kept fp' page =>
    exact h.share (keepsNoMore_insert h.table (fun he => hfp page (he ▸ rfl)) page rfl)

end Latest

/-- **What is kept of a fingerprint is what its latest scan has found**, over every course of
incidents in which nobody else puts in a page for it. -/
theorem latest_acts (hs : s.HasTable) (calls : Calls)
    (hfp : ∀ page, .kept fp page ∉ incidents) :
    Latest calls fp s ((loading s calls).acts incidents)
      ((loading s calls).undergoAll incidents) := by
  have hstart : Latest calls fp s [] (loading s calls) :=
    ⟨calling_loading s calls, hs, fun i n _ ho => absurd ho (Batch.idle_start s calls.jobs i n),
      fun page hp => .inr ⟨rfl, hp⟩⟩
  exact (acts_keep (Q := Latest calls fp s) (fun hs hq m => hq.move hs m) (fun hq r => hq.rest r)
    (fun x hx hno hq => hq.undergo x hno fun page he => hfp page (he ▸ hx))
    (Batch.sound_start s calls.jobs) hstart).2

/-! ## 3. Bursts -/

/-- How many calls have not begun. -/
def Loading.ahead (calls : Calls) (b : Loading) : Nat :=
  (List.range calls.length).countP fun i => decide (b.phase i = .fresh)

/-- Polls of callers, one after the other. -/
def polling (is : List Nat) : List Incident := is.map fun i => .caller (.poll i)

theorem undergoAll_polling (b : Loading) (is : List Nat) :
    b.undergoAll (polling is) = b.polls is := by
  unfold Loading.undergoAll polling Batch.polls Batch.play
  rw [List.foldl_map, List.foldl_map]
  rfl

/-- What each of some calls that are joined has done: from `b`, where nobody is under way, to `c`,
where all have returned. -/
structure Answered (calls : Calls) (b c : Loading) (log : List Act) : Prop where
  calling : Loading.Calling calls b
  journal : Journal calls b.shared log c.shared
  led : Batch.Led b c
  /-- Each call returns, and has done one of three things: it has found a page; it has missed it and
  scanned its body; or it has missed it and waited. -/
  told : ∀ i, b.phase i = .fresh → ∃ role r, c.phase i = .returned role r ∧
    actsOf i log = done i (.returned role r)
  /-- Earlier calls do nothing any more. -/
  apart : ∀ i, b.phase i ≠ .fresh → c.phase i = b.phase i ∧ actsOf i log = []

/-- A burst of calls: what has come of them together. -/
structure Burst (maxSize : Nat) (calls : Calls) (b c : Loading) (log : List Act) : Prop where
  answered : Answered calls b c log
  /-- For each fingerprint nothing is scanned if nobody misses it; otherwise there is one scan, and
  everybody who has missed it returns the result. -/
  once : ∀ fp, (∀ i, calls.For fp i → .miss i ∉ log) ∧ scansFor calls fp log = [] ∨
    ∃ r, scansFor calls fp log = [r] ∧
      ∀ i, calls.For fp i → .miss i ∈ log → ∃ role, c.phase i = .returned role r
  /-- A scan finds what there is in the body of its caller. -/
  found : ∀ i r fp body, .scan i r ∈ log → calls[i]? = some (fp, body) →
    r.map (·.tags) = (scan maxSize body).map Page.ofTags
  /-- Each call counts as a hit or as a miss, and each miss as a wait or as a scan. -/
  asked : log.countP Act.isHit + log.countP Act.isMiss = b.ahead calls
  missed : log.countP Act.isMiss = log.countP Act.isWait + log.countP Act.isScan
  /-- The counters of the store go up by what the calls have done. -/
  hits : c.shared.counts.hits = b.shared.counts.hits + .ofNat (log.countP Act.isHit)
  misses : c.shared.counts.misses = b.shared.counts.misses + .ofNat (log.countP Act.isMiss)
  waits : c.shared.counts.waits = b.shared.counts.waits + .ofNat (log.countP Act.isWait)
  parses : c.shared.counts.parses = b.shared.counts.parses + .ofNat (log.countP Act.isParse)

theorem mem_actsOf {a : Act} : a ∈ actsOf i log ↔ a ∈ log ∧ a.call = i := by
  unfold actsOf
  rw [List.mem_filter, beq_iff_eq]

theorem scanFor_isSome {a : Act} (h : (Act.scanFor calls fp a).isSome = true) :
    ∃ i r, a = .scan i r ∧ calls.For fp i := by
  unfold Act.scanFor at h
  split at h
  · rename_i i r
    split at h
    · rename_i hk
      exact ⟨i, r, rfl, hk⟩
    · cases h
  · cases h

/-- Scans that are all those of one caller. -/
theorem scansFor_of_alone (h : ∀ a ∈ log, (Act.scanFor calls fp a).isSome = true → a.call = i) :
    scansFor calls fp log = scansFor calls fp (actsOf i log) := by
  unfold scansFor actsOf
  rw [List.filterMap_filter]
  refine List.filterMap_congr fun a ha => ?_
  split
  · rfl
  · rename_i hne
    rw [← Option.not_isSome_iff_eq_none]
    exact fun hs => hne (beq_iff_eq.2 (h a ha hs))

namespace Answered

/-- Who has done anything had not begun before. -/
theorem fresh_of_mem (h : Answered calls b c log) {a : Act} (ha : a ∈ log) :
    b.phase a.call = .fresh := by
  by_contra hf
  have hmem : a ∈ actsOf a.call log := mem_actsOf.2 ⟨ha, rfl⟩
  rw [(h.apart _ hf).2] at hmem
  cases hmem

/-- Who has scanned its body leads, and who leads has missed its page. -/
theorem leads_of_scan (h : Answered calls b c log) {r : Except Failure ParsedPage}
    (hm : .scan i r ∈ log) :
    b.phase i = .fresh ∧ c.phase i = .returned .leader r ∧ .miss i ∈ log := by
  have hf : b.phase i = .fresh := h.fresh_of_mem hm
  obtain ⟨role, r', hr, hacts⟩ := h.told i hf
  have hscan : .scan i r ∈ actsOf i log := mem_actsOf.2 ⟨hm, rfl⟩
  rw [hacts] at hscan
  cases role with
  | leader =>
    obtain rfl : r = r' := by simpa [done] using hscan
    have hmiss : .miss i ∈ actsOf i log := hacts ▸ List.mem_cons_self
    exact ⟨hf, hr, (mem_actsOf.1 hmiss).1⟩
  | ready => simp [done] at hscan
  | follower => simp [done] at hscan

/-- Who has missed its page returns the result of a caller that leads for the fingerprint. -/
theorem exists_leader (h : Answered calls b c log) (hm : .miss i ∈ log) :
    ∃ j role r, b.phase j = .fresh ∧ b.key? j = b.key? i ∧ c.phase j = .returned .leader r ∧
      c.phase i = .returned role r := by
  have hf : b.phase i = .fresh := h.fresh_of_mem hm
  obtain ⟨role, r, hr, hacts⟩ := h.told i hf
  have hrole : role ≠ .ready := by
    intro he
    have hmiss : .miss i ∈ actsOf i log := mem_actsOf.2 ⟨hm, rfl⟩
    rw [hacts, he] at hmiss
    simp [done] at hmiss
  obtain ⟨j, hj, hk, hl⟩ := h.led.led i role r hf hr hrole
  exact ⟨j, role, r, hj, hk, hl, hr⟩

theorem key_eq (h : Answered calls b c log) (hi : calls.For fp i) (hj : calls.For fp j) :
    b.key? i = b.key? j := by
  rw [h.calling.key, h.calling.key]
  exact hi.trans hj.symm

/-- **One scan for each fingerprint that is missed**, told to all that have missed it. -/
theorem once (h : Answered calls b c log) (fp : Fingerprint) :
    (∀ i, calls.For fp i → .miss i ∉ log) ∧ scansFor calls fp log = [] ∨
      ∃ r, scansFor calls fp log = [r] ∧
        ∀ i, calls.For fp i → .miss i ∈ log → ∃ role, c.phase i = .returned role r := by
  by_cases hno : ∀ i, calls.For fp i → .miss i ∉ log
  · refine .inl ⟨hno, List.filterMap_eq_nil_iff.2 fun a ha => ?_⟩
    rw [← Option.not_isSome_iff_eq_none]
    intro hs
    obtain ⟨i, r, rfl, hfor⟩ := scanFor_isSome hs
    exact hno i hfor (h.leads_of_scan ha).2.2
  · rw [not_forall] at hno
    obtain ⟨i, hi⟩ := hno
    rw [Classical.not_imp, Classical.not_not] at hi
    obtain ⟨hfor, hm⟩ := hi
    obtain ⟨j, -, r, hj, hk, hl, -⟩ := h.exists_leader hm
    have hforj : calls.For fp j := by
      rw [h.calling.key, h.calling.key] at hk
      exact hk.trans hfor
    -- whoever leads for this fingerprint is this one
    have hself : ∀ {l r'}, calls.For fp l → b.phase l = .fresh →
        c.phase l = .returned .leader r' → l = j := fun hforl hfl hll =>
      h.led.alone _ _ _ _ hfl hj (h.key_eq hforl hforj) hll hl
    refine .inr ⟨r, ?_, fun l hforl hml => ?_⟩
    · rw [scansFor_of_alone (i := j) fun a ha hs => ?_]
      · obtain ⟨role, r', hr', hacts⟩ := h.told j hj
        cases hl.symm.trans hr'
        rw [hacts]
        have hkey : calls[j]?.map (·.1) = some fp := hforj
        simp [scansFor, done, List.filterMap_cons, Act.scanFor, hkey]
      · obtain ⟨l, r', rfl, hforl⟩ := scanFor_isSome hs
        obtain ⟨hfl, hll, -⟩ := h.leads_of_scan ha
        exact hself hforl hfl hll
    · obtain ⟨j', role, r', hj', hk', hl', hr'⟩ := h.exists_leader hml
      have hforj' : calls.For fp j' := by
        rw [h.calling.key, h.calling.key] at hk'
        exact hk'.trans hforl
      obtain rfl : j' = j := hself hforj' hj' hl'
      cases hl.symm.trans hl'
      exact ⟨role, hr'⟩

/-- What is counted call by call. -/
theorem countP_eq_sum (h : Answered calls b c log) (q : Act → Bool) :
    log.countP q = ∑ i ∈ Finset.range calls.length, (actsOf i log).countP q :=
  Tally.countP_eq_sum Act.call q _ h.journal.call_lt

/-- Each call has one hit or one miss. -/
theorem asked (h : Answered calls b c log) :
    log.countP Act.isHit + log.countP Act.isMiss = b.ahead calls := by
  unfold Loading.ahead
  rw [Tally.countP_range, h.countP_eq_sum, h.countP_eq_sum, ← Finset.sum_add_distrib]
  refine Finset.sum_congr rfl fun i _ => ?_
  by_cases hf : b.phase i = .fresh
  · obtain ⟨role, r, -, hacts⟩ := h.told i hf
    rw [hacts, if_pos (decide_eq_true hf)]
    cases role <;> rfl
  · rw [(h.apart i hf).2, if_neg (by simpa using hf)]
    rfl

/-- Who has missed its page has waited or scanned. -/
theorem missed (h : Answered calls b c log) :
    log.countP Act.isMiss = log.countP Act.isWait + log.countP Act.isScan := by
  rw [h.countP_eq_sum, h.countP_eq_sum, h.countP_eq_sum, ← Finset.sum_add_distrib]
  refine Finset.sum_congr rfl fun i _ => ?_
  by_cases hf : b.phase i = .fresh
  · obtain ⟨role, r, -, hacts⟩ := h.told i hf
    rw [hacts]
    cases role <;> rfl
  · rw [(h.apart i hf).2]
    rfl

/-- **Calls that are answered are a burst.** -/
theorem burst (h : Answered calls b c log) (hpool : b.shared.pool.IsFresh maxSize) :
    Burst maxSize calls b c log where
  answered := h
  once := h.once
  found := (h.journal.scan_eq hpool).2
  asked := h.asked
  missed := h.missed
  hits := h.journal.counter_eq (·.hits) _ fun a c => (a.counters_count c).1
  misses := h.journal.counter_eq (·.misses) _ fun a c => (a.counters_count c).2.1
  waits := h.journal.counter_eq (·.waits) _ fun a c => (a.counters_count c).2.2.2
  parses := h.journal.counter_eq (·.parses) _ fun a c => (a.counters_count c).2.2.1

end Answered

/-! ## 4. Calls that are joined -/

theorem givesWay_of_calling (h : Loading.Calling calls b) : b.GivesWay := by
  intro i job own
  obtain ⟨fp, body, -, rfl⟩ := h.exists_call own
  exact Nat.one_ne_zero

/-- **Calls that are joined are all answered**, in whatever order they are polled. -/
theorem answered_of_joins {is : List Nat} (h : b.Sound) (hc : Loading.Calling calls b)
    (idle : b.Idle) (joins : b.Joins is) (ended : (b.polls is).Ended) :
    Answered calls b (b.polls is) (b.acts (polling is)) := by
  have htold := (told_acts h hc (polling is)).2
  rw [undergoAll_polling] at htold
  have hled := Batch.led_of_joins h idle (givesWay_of_calling hc) joins ended
  refine ⟨hc, htold.journal, hled, fun i hf => ?_, fun i hf => ⟨hled.apart i hf, ?_⟩⟩
  · obtain ⟨role, r, hr⟩ := hled.returned i hf
    have hown := htold.own i (hr ▸ nofun)
    rw [hf, hr] at hown
    exact ⟨role, r, hr, hown⟩
  · by_cases hd : b.phase i = .dropped
    · exact (htold.gone i hd).2
    · have hown := htold.own i (hled.apart i hf ▸ hd)
      rw [hled.apart i hf] at hown
      exact List.append_right_eq_self.1 hown

/-- **Rounds of polls join calls, and all of them return.** -/
theorem exists_burst_rounds (h : b.Sound) (hc : Loading.Calling calls b)
    (hpool : b.shared.pool.IsFresh maxSize) (idle : b.Idle) (hl : ∀ i, b.limited? i ≠ some true)
    (hw : b.weight ≤ n) (hn : 0 < n) : ∃ is, b.Joins is ∧ b.rounds n = b.polls is ∧
      Burst maxSize calls b (b.rounds n) (b.acts (polling is)) := by
  obtain ⟨m, rfl⟩ : ∃ m, n = m + 1 := ⟨n - 1, by omega⟩
  obtain ⟨is, joins, hrounds⟩ := Batch.exists_joins_rounds h hl m
  have ended : (b.polls is).Ended := hrounds ▸ Batch.ended_rounds h hw
  refine ⟨is, joins, hrounds, ?_⟩
  rw [hrounds]
  exact (answered_of_joins h hc idle joins ended).burst hpool

/-- What no move, no stay and no change of the store takes away from callers. -/
theorem callers_keep {Q : Loading → Prop}
    (hmove : ∀ {i} {b b' : Loading}, Q b → Batch.Move i b b' → Q b')
    (hrest : ∀ {i} {b b' : Loading}, Q b → Batch.Rest i b b' → Q b')
    (hstore : ∀ {b : Loading} (s : PageStore), Q b → Q { b with shared := s }) (h : b.Sound)
    (hq : Q b) (incidents : List Incident) : Q (b.undergoAll incidents) := by
  have hchange : ∀ {b : Loading} (x : Incident), (∀ e, x ≠ .caller e) → Q b → Q (b.undergo x) := by
    intro b x hx hq
    cases x with
    | caller e => exact absurd rfl (hx e)
    | removed fp => exact hstore _ hq
    | cleared => exact hstore _ hq
    | kept fp page => exact hstore _ hq
  have hkeep : Batch.Sound (b.undergoAll incidents) ∧ Q (b.undergoAll incidents) :=
    @acts_keep b [] incidents (fun _ b => Q b) (fun _ hq m => hmove hq m) (fun hq r => hrest hq r)
      (fun x _ hx hq => hchange x hx hq) h hq
  exact hkeep.2

theorem unlimited_loading (s : PageStore) (calls : Calls) (i : Nat) :
    (loading s calls).limited? i ≠ some true := by
  intro hl
  obtain ⟨task, ht, hlimit⟩ := Option.map_eq_some_iff.1 hl
  have hjob := (Batch.getElem?_tasks_start s calls.jobs i).symm.trans ht
  obtain ⟨entry, he, rfl⟩ := Option.map_eq_some_iff.1 hjob
  unfold Calls.jobs at he
  rw [List.getElem?_map] at he
  obtain ⟨call, -, rfl⟩ := Option.map_eq_some_iff.1 he
  cases hlimit

theorem unlimited_undergoAll (s : PageStore) (calls : Calls) (incidents : List Incident) (i : Nat) :
    Batch.limited? ((loading s calls).undergoAll incidents) i ≠ some true := by
  refine callers_keep (Q := fun b => b.limited? i ≠ some true) (fun hq m => ?_) (fun hq r => ?_)
    (fun _ hq => hq) (Batch.sound_start s calls.jobs) (unlimited_loading s calls i) incidents
  · obtain ⟨_, _, hm⟩ := m.moved
    rwa [hm.limited]
  · rwa [r.moved.limited]

/-- Rounds enough for calls from their beginning are enough for them at any time. -/
theorem weight_undergoAll_le (s : PageStore) (calls : Calls) (incidents : List Incident) :
    Batch.weight ((loading s calls).undergoAll incidents) ≤ Batch.bound (calls.jobs.map (·.1)) :=
  callers_keep (Q := fun b => b.weight ≤ Batch.bound (calls.jobs.map (·.1)))
    (fun hq m => Nat.le_trans (Nat.le_of_lt m.weight_lt) hq) (fun hq r => r.weight_eq ▸ hq)
    (fun _ hq => hq) (Batch.sound_start s calls.jobs) (Batch.weight_start_le s calls.jobs) incidents

theorem bound_pos (calls : Calls) : 0 < Batch.bound (calls.jobs.map (·.1)) := by
  rw [Batch.bound_eq]
  exact Nat.succ_pos _

/-- **Pages that are loaded together are a burst.** -/
theorem burst_loadAll (hpool : s.pool.IsFresh maxSize) (calls : Calls) : ∃ c log,
    loadAll s calls = (c.shared, c.answers) ∧ Burst maxSize calls (loading s calls) c log := by
  obtain ⟨is, -, -, hburst⟩ := exists_burst_rounds (Batch.sound_start s calls.jobs)
    (calling_loading s calls) hpool (Batch.idle_start s calls.jobs) (unlimited_loading s calls)
    (Batch.weight_start_le s calls.jobs) (bound_pos calls)
  refine ⟨_, _, Prod.ext rfl (List.map_congr_left fun t _ => ?_), hburst⟩
  cases t.result? <;> rfl

/-! ## 5. At any time -/

/-- What can be said of callers after incidents of whatever kind. -/
structure ScansOnce (maxSize : Nat) (s : PageStore) (calls : Calls) (incidents : List Incident)
    (b : Loading) (log : List Act) : Prop where
  /-- Nothing is kept of a fingerprint whose latest scan has failed, as long as nobody else puts in
  a page for it. -/
  failed : ∀ fp, (∀ page, .kept fp page ∉ incidents) → ∀ e,
    (scansFor calls fp log).getLast? = some (.error e) → (b.shared.peek fp).2 = none
  /-- What is kept has been found by the latest scan, or was there before the first one. -/
  latest : ∀ fp, (∀ page, .kept fp page ∉ incidents) → ∀ page,
    (b.shared.peek fp).2 = some page → (scansFor calls fp log).getLast? = some (.ok page) ∨
      scansFor calls fp log = [] ∧ (s.peek fp).2 = some page
  /-- Further calls that are joined are a burst, if nobody is under way when they come. -/
  joined : b.Idle → ∀ is, b.Joins is → (b.polls is).Ended →
    Burst maxSize calls b (b.polls is) (b.acts (polling is))
  /-- Rounds of polls join them, and all of them return. -/
  rounds : b.Idle → ∀ n, Batch.bound (calls.jobs.map (·.1)) ≤ n → ∃ is, b.Joins is ∧
    b.rounds n = b.polls is ∧ Burst maxSize calls b (b.rounds n) (b.acts (polling is))

/-- **A page is scanned once in a burst of calls, and a failure is not kept.** Whatever has happened
to a store, and whatever callers have done with it: calls that come together from then on, for
whatever pages and with whatever bodies, scan each page at most once, and once if any of them misses
it. All that miss it return what this scan has found; each call counts as a hit or as a miss, each
miss is a wait or a scan, and the scans that succeed are what is counted as parses. At all times, a
fingerprint whose latest scan has failed has no page kept. -/
theorem scans_once (hpool : s.pool.IsFresh maxSize) (hs : s.HasTable) (calls : Calls)
    (incidents : List Incident) :
    ScansOnce maxSize s calls incidents ((loading s calls).undergoAll incidents)
      ((loading s calls).acts incidents) := by
  obtain ⟨hsound, htold⟩ := told_acts (Batch.sound_start s calls.jobs) (calling_loading s calls)
    incidents
  have hfresh := (htold.journal.scan_eq hpool).1
  refine ⟨fun fp hfp e he => ?_, fun fp hfp => (latest_acts hs calls hfp).latest,
    fun idle is joins ended => ?_, fun idle n hn => ?_⟩
  · by_contra hp
    obtain ⟨page, hpage⟩ := Option.ne_none_iff_exists'.1 hp
    rcases (latest_acts hs calls hfp).latest page hpage with hok | ⟨hnil, -⟩
    · exact nomatch he.symm.trans hok
    · rw [hnil] at he
      cases he
  · exact (answered_of_joins hsound htold.calling idle joins ended).burst hfresh
  · have hweight := Nat.le_trans (weight_undergoAll_le s calls incidents) hn
    exact exists_burst_rounds hsound htold.calling hfresh idle
      (unlimited_undergoAll s calls incidents) hweight (Nat.lt_of_lt_of_le (bound_pos calls) hn)

namespace Sample

/-- Two calls for a page with a tag that is too long. -/
def failing : Calls := [(3, tag), (3, tag)]

end Sample

open Sample in
/-- The first of two calls has scanned the page in vain; nothing is kept of it. -/
theorem scans_once_sample :
    scansFor failing 3 ((loading (new .locked 8) failing).acts (polling [0, 1, 0])) =
      [.error (.malformedTag 0 8)] ∧
    (Loading.undergoAll (loading (new .locked 8) failing) (polling [0, 1, 0])).shared.cache.get 3 =
      (.locked [], none) := by
  have hscans : scansFor failing 3 ((loading (new .locked 8) failing).acts (polling [0, 1, 0])) =
      [.error (.malformedTag 0 8)] := by decide +kernel
  refine ⟨hscans, ?_⟩
  have hnone := (scans_once (ScannerPool.isFresh_new 8) (hasTable_new .locked 8) failing
    (polling [0, 1, 0])).failed 3 (by simp [polling]) (.malformedTag 0 8) (by rw [hscans]; rfl)
  exact Prod.ext (by decide +kernel) hnone

/-- Both are told so: two misses, one of them a wait, and no parse. -/
example : (loadAll (.new .readMostly 8) Sample.failing).1.counts = ⟨0, 2, 0, 1⟩ ∧
    (loadAll (.new .readMostly 8) Sample.failing).2 =
      [.error (.malformedTag 0 8), .error (.malformedTag 0 8)] := by decide +kernel

end PageStore

end EdgeInclude

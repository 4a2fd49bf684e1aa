import EdgeInclude.Proofs.Page.Rounds
import EdgeInclude.Proofs.Page.Store

/-!
# Whose tags a caller gets

A caller gets the tags of a page from the store, from its own scan, or from the scan of another
caller under the same fingerprint. What comes from the store is compared with the body first, and
what comes from the own scan needs no comparison; what comes from another caller is not compared.

* `PageStore.loading`, `PageStore.Incident` — callers that load pages, and what can happen while
  they do: polls and drops of callers in any order, and changes of the store.
* `PageStore.exists_loadAll`, `PageStore.loadAll_singleton` — loading pages together is such a
  course of events; loading one page is the case of one caller.
* `PageStore.Loading.Calling` — callers that do what their calls say.
* `PageStore.Fair` — whoever has not waited for another caller has tags that fit its body.
* `PageStore.fits_of_loadAll` — pages that are loaded together, one body for each fingerprint.
* `PageStore.fits_or_shared` — who has other tags shares those of a caller with another body.
* `PageStore.exists_foreign_tags` — and there is one who has.
-/

namespace EdgeInclude

namespace PageStore

/-! ## 1. Callers -/

/-- Callers that load pages from one store. -/
abbrev Loading := Batch PageStore Fingerprint (Except Failure ParsedPage)

/-- What a caller is to do. -/
def call (fp : Fingerprint) (body : Bytes) :
    Job PageStore Fingerprint (Except Failure ParsedPage) :=
  job id (fun _ s => s) fp body fun _ s => s

/-- Callers, each with the fingerprint and the body of its page. -/
abbrev Calls := List (Fingerprint × Bytes)

def Calls.jobs (calls : Calls) :
    List (Job PageStore Fingerprint (Except Failure ParsedPage) × Option Nat) :=
  calls.map fun (fp, body) => (call fp body, none)

/-- Callers of which none has begun. -/
def loading (s : PageStore) (calls : Calls) : Loading := .start s calls.jobs

/-- What can happen while callers load pages. -/
inductive Incident where
  | caller (e : Batch.Event)
  /-- The page of a fingerprint is removed from the store. -/
  | removed (fp : Fingerprint)
  | cleared
  /-- Any page is put into the store. -/
  | kept (fp : Fingerprint) (page : ParsedPage)
  deriving DecidableEq, Repr

/-- What has become of the callers and their store after an incident. -/
def Loading.undergo (b : Loading) : Incident → Loading
  | .caller e => b.step e
  | .removed fp => { b with shared := (b.shared.remove fp).1 }
  | .cleared => { b with shared := b.shared.clear }
  | .kept fp page => { b with shared := { b.shared with cache := b.shared.cache.insert fp page } }

/-- All incidents, one after the other. -/
def Loading.undergoAll (b : Loading) (incidents : List Incident) : Loading :=
  incidents.foldl Loading.undergo b

/-- What the callers have been told; a failure, if nothing. -/
def Loading.answers (b : Loading) : List (Except Failure ParsedPage) :=
  b.tasks.map fun t => (t.result?.map (·.2)).getD (.error unanswered)

variable {s : PageStore} {calls : Calls} {b b' : Loading} {i : Nat} {fp : Fingerprint}
  {body : Bytes} {page : ParsedPage} {role : Role} {maxSize : Nat}

/-- **Loading pages together is a course of events** in which callers are polled. -/
theorem exists_loadAll (s : PageStore) (calls : Calls) : ∃ incidents,
    loadAll s calls = (((loading s calls).undergoAll incidents).shared,
      ((loading s calls).undergoAll incidents).answers) := by
  obtain ⟨es, hes, -⟩ := Batch.exists_play_rounds (Batch.sound_start s calls.jobs)
    (Batch.bound (calls.jobs.map (·.1)))
  have hplay : (loading s calls).undergoAll (es.map .caller) =
      (loading s calls).rounds (Batch.bound (calls.jobs.map (·.1))) :=
    List.foldl_map.trans hes.symm
  refine ⟨es.map .caller, ?_⟩
  rw [hplay]
  refine Prod.ext rfl (List.map_congr_left fun t _ => ?_)
  cases t.result? <;> rfl

/-- A caller that is alone gets what loading the page gives. -/
theorem loadAll_singleton (s : PageStore) (fp : Fingerprint) (body : Bytes) :
    loadAll s [(fp, body)] = ((s.load fp body).1, [(s.load fp body).2]) := by
  rw [load_eq]
  cases hl : s.lookup fp body with
  | mk t found =>
    cases found with
    | some page =>
      -- it returns in the first round
      simp [loadAll, job, hl, Batch.run, Batch.bound, Batch.rounds, Batch.isQuiet, Batch.round,
        Batch.poll, Batch.advance, Batch.charge, Batch.finish, Batch.setPhase, Task.new,
        Task.isLive, Task.result?]
    | none =>
      -- it begins a flight of its own in the first round, and scans in the second
      simp [loadAll, job, hl, Batch.run, Batch.bound, Batch.rounds, Batch.isQuiet, Batch.round,
        Batch.poll, Batch.advance, Batch.ask, Batch.complete, Batch.charge, Batch.finish,
        Batch.wake, Batch.setPhase, Coalescer.empty, Coalescer.join, Coalescer.flight,
        Coalescer.set, Coalescer.close, Flight.new, Flight.ask, Flight.settle, Task.new,
        Task.isLive, Task.result?]

theorem phase_of_result? {t : Task PageStore Fingerprint (Except Failure ParsedPage)}
    {r : Except Failure ParsedPage} (h : t.result? = some (role, r)) :
    t.phase = .returned role r := by
  unfold Task.result? at h
  split at h
  · rename_i hp
    cases h
    exact hp
  · cases h

/-- Who has been told a page has returned it. -/
theorem exists_returned (h : b.answers[i]? = some (.ok page)) :
    ∃ role, b.phase i = .returned role (.ok page) := by
  unfold Loading.answers at h
  obtain ⟨t, ht, ha⟩ := Option.map_eq_some_iff.1 (List.getElem?_map.symm.trans h)
  cases hr : t.result? with
  | none =>
    rw [hr] at ha
    cases ha
  | some told =>
    obtain ⟨role, r⟩ := told
    rw [hr] at ha
    obtain rfl : r = .ok page := ha
    exact ⟨role, (Batch.phase_of_getElem? ht).trans (phase_of_result? hr)⟩

/-- The jobs of callers are those of their calls. -/
def Loading.Calling (calls : Calls) (b : Loading) : Prop :=
  ∀ i, b.job? i = calls[i]?.map fun (fp, body) => call fp body

theorem calling_loading (s : PageStore) (calls : Calls) :
    Loading.Calling calls (loading s calls) := by
  intro i
  refine (Batch.job?_start s calls.jobs i).trans ?_
  unfold Calls.jobs
  rw [List.getElem?_map, Option.map_map]
  rfl

namespace Loading.Calling

/-- A job of a caller is that of its call. -/
theorem exists_call (h : Calling calls b)
    {job : Job PageStore Fingerprint (Except Failure ParsedPage)} (own : b.job? i = some job) :
    ∃ fp body, calls[i]? = some (fp, body) ∧ job = call fp body := by
  rw [h i, Option.map_eq_some_iff] at own
  obtain ⟨⟨fp, body⟩, hc, rfl⟩ := own
  exact ⟨fp, body, hc, rfl⟩

theorem key (h : Calling calls b) (i : Nat) : b.key? i = calls[i]?.map (·.1) := by
  unfold Batch.key?
  rw [h i, Option.map_map]
  rfl

end Loading.Calling

/-! ## 2. What always holds -/

/-- Scanners are like new, and who has not waited for another caller has tags that fit its body. -/
structure Fair (maxSize : Nat) (calls : Calls) (b : Loading) : Prop where
  pool : b.shared.pool.IsFresh maxSize
  job : ∀ i, b.job? i = calls[i]?.map fun (fp, body) => call fp body
  own : ∀ i fp body role page, calls[i]? = some (fp, body) →
    b.phase i = .returned role (.ok page) → role ≠ .follower → page.tags.fits body = true

namespace Fair

theorem start (h : s.pool.IsFresh maxSize) (calls : Calls) :
    Fair maxSize calls (loading s calls) where
  pool := h
  job := calling_loading s calls
  own i fp body role page _ hr := by
    rcases Batch.phase_start s calls.jobs i with ⟨hp, -⟩ | hp
    · exact nomatch hp.symm.trans hr
    · exact nomatch hp.symm.trans hr

theorem exists_call (h : Fair maxSize calls b) {job : Job PageStore Fingerprint _}
    (own : b.job? i = some job) : ∃ fp body, calls[i]? = some (fp, body) ∧ job = call fp body :=
  Loading.Calling.exists_call h.job own

theorem key (h : Fair maxSize calls b) (i : Nat) : b.key? i = calls[i]?.map (·.1) :=
  Loading.Calling.key h.job i

/-- Whatever happens to the store, as long as its scanners stay like new. -/
theorem share (h : Fair maxSize calls b) (hs : s.pool.IsFresh maxSize) :
    Fair maxSize calls { b with shared := s } := ⟨hs, h.job, h.own⟩

theorem of_moved (h : Fair maxSize calls b) {p : Phase (Except Failure ParsedPage)}
    {woken : List Nat} (hm : b.Moved i p woken b') (hpool : b'.shared.pool.IsFresh maxSize)
    (hown : ∀ fp body role page, calls[i]? = some (fp, body) → p = .returned role (.ok page) →
      role ≠ .follower → page.tags.fits body = true) : Fair maxSize calls b' where
  pool := hpool
  job j := (hm.job j).trans (h.job j)
  own j fp body role page hc hr := by
    by_cases hj : j = i
    · subst hj
      exact hown fp body role page hc (hm.self.symm.trans hr)
    · exact h.own j fp body role page hc ((hm.other j hj).symm.trans hr)

/-- **Every move of a caller keeps it.** -/
theorem move (h : Fair maxSize calls b) (m : Batch.Move i b b') : Fair maxSize calls b' := by
  cases m with
  | found own was look moved coalescer shared =>
    obtain ⟨fp, body, hc, rfl⟩ := h.exists_call own
    refine h.of_moved moved ?_ fun fp' body' role page hc' hp _ => ?_
    · rw [shared]
      exact isFresh_lookup h.pool fp body
    · cases hc.symm.trans hc'
      cases hp
      obtain ⟨q, hq, he⟩ := Option.map_eq_some_iff.1 look
      cases he
      exact (kept_of_lookup hq).2
  | enter own was look number moved awake coalescer shared =>
    obtain ⟨fp, body, -, rfl⟩ := h.exists_call own
    refine h.of_moved moved ?_ nofun
    rw [shared]
    exact isFresh_lookup h.pool fp body
  | follow own was value moved coalescer shared =>
    obtain ⟨fp, body, -, rfl⟩ := h.exists_call own
    refine h.of_moved moved ?_ fun _ _ role page _ hp hrole => ?_
    · rw [shared]
      exact h.pool
    · cases hp
      exact absurd rfl hrole
  | begin own was value permit moved awake coalescer shared =>
    obtain ⟨fp, body, -, rfl⟩ := h.exists_call own
    refine h.of_moved moved ?_ nofun
    rw [shared]
    exact h.pool
  | pause was less moved awake coalescer shared =>
    refine h.of_moved moved ?_ nofun
    rw [shared]
    exact h.pool
  | complete own was value moved coalescer shared =>
    obtain ⟨fp, body, hc, rfl⟩ := h.exists_call own
    refine h.of_moved moved ?_ fun fp' body' role page hc' hp _ => ?_
    · rw [shared]
      exact isFresh_parseInto h.pool fp body
    · cases hc.symm.trans hc'
      cases hp
      exact fits_of_parseInto h.pool value
  | leave was moved coalescer shared =>
    refine h.of_moved moved ?_ nofun
    rw [shared]
    exact h.pool
  | forgo was moved coalescer shared =>
    refine h.of_moved moved ?_ nofun
    rw [shared]
    exact h.pool

theorem rest (h : Fair maxSize calls b) (r : Batch.Rest i b b') : Fair maxSize calls b' := by
  refine h.of_moved r.moved ?_ fun fp body role page hc hp hrole =>
    h.own i fp body role page hc hp hrole
  rw [r.shared]
  exact h.pool

/-- **Every incident keeps it.** -/
theorem undergo (hs : b.Sound) (h : Fair maxSize calls b) (incident : Incident) :
    Batch.Sound (b.undergo incident) ∧ Fair maxSize calls (b.undergo incident) := by
  cases incident with
  | caller e =>
    exact Batch.play_keeps (P := Fair maxSize calls) (fun _ h m => h.move m) (fun _ h r => h.rest r)
      hs h [e]
  | removed fp => exact ⟨hs.share _, h.share h.pool⟩
  | cleared => exact ⟨hs.share _, h.share h.pool⟩
  | kept fp page => exact ⟨hs.share _, h.share h.pool⟩

theorem undergoAll (hs : b.Sound) (h : Fair maxSize calls b) (incidents : List Incident) :
    Batch.Sound (b.undergoAll incidents) ∧ Fair maxSize calls (b.undergoAll incidents) := by
  unfold Loading.undergoAll
  induction incidents generalizing b with
  | nil => exact ⟨hs, h⟩
  | cons incident rest ih =>
    obtain ⟨hs', h'⟩ := undergo hs h incident
    exact ih hs' h'

/-- Who has waited for another caller has the tags of one under the same fingerprint, and they fit
the body of that one. -/
theorem exists_leader (hs : b.Sound) (h : Fair maxSize calls b) (hc : calls[i]? = some (fp, body))
    (hr : b.phase i = .returned .follower (.ok page)) : ∃ j body', calls[j]? = some (fp, body') ∧
      page.tags.fits body' = true ∧ b.phase j = .returned .leader (.ok page) := by
  obtain ⟨j, hj, hk⟩ := hs.followed i _ hr
  rw [h.key, h.key, hc] at hk
  obtain ⟨⟨fp', body'⟩, hc', rfl⟩ := Option.map_eq_some_iff.1 hk.symm
  exact ⟨j, body', hc', h.own j fp' body' .leader page hc' hj nofun, hj⟩

/-- Whoever has returned a page has tags that fit its body, or has waited for a caller with another
body. -/
theorem fits_or_waited (hs : b.Sound) (h : Fair maxSize calls b) (hc : calls[i]? = some (fp, body))
    (hr : b.phase i = .returned role (.ok page)) : page.tags.fits body = true ∨
      role = .follower ∧ ∃ j body', calls[j]? = some (fp, body') ∧ body' ≠ body ∧
        page.tags.fits body' = true ∧ b.phase j = .returned .leader (.ok page) := by
  by_cases hrole : role = .follower
  · subst hrole
    obtain ⟨j, body', hj, hf, hp⟩ := h.exists_leader hs hc hr
    by_cases hb : body' = body
    · exact .inl (hb ▸ hf)
    · exact .inr ⟨rfl, j, body', hj, hb, hf, hp⟩
  · exact .inl (h.own i fp body role page hc hr hrole)

end Fair

/-! ## 3. Whose tags a caller gets -/

theorem fair_undergoAll (h : s.pool.IsFresh maxSize) (calls : Calls) (incidents : List Incident) :
    Batch.Sound ((loading s calls).undergoAll incidents) ∧
      Fair maxSize calls ((loading s calls).undergoAll incidents) :=
  Fair.undergoAll (Batch.sound_start _ calls.jobs) (Fair.start h calls) incidents

/-- **Pages that are loaded together fit their bodies**, as far as callers under one fingerprint
have one body. -/
theorem fits_of_loadAll (h : s.pool.IsFresh maxSize) (hc : calls[i]? = some (fp, body))
    (hsame : ∀ body', (fp, body') ∈ calls → body' = body)
    (ha : (loadAll s calls).2[i]? = some (.ok page)) : page.tags.fits body = true := by
  obtain ⟨incidents, hload⟩ := exists_loadAll s calls
  rw [hload] at ha
  obtain ⟨role, hr⟩ := exists_returned ha
  obtain ⟨hs, hfair⟩ := fair_undergoAll h calls incidents
  rcases hfair.fits_or_waited hs hc hr with hf | ⟨-, j, body', hj, hne, -⟩
  · exact hf
  · exact absurd (hsame body' (List.mem_of_getElem? hj)) hne

/-- **A caller gets tags that fit its body, or those of another caller that it has waited for**, who
has asked under the same fingerprint with another body. -/
theorem fits_or_shared (kind : CacheKind) (maxSize : Nat) (calls : Calls)
    (incidents : List Incident) {i : Nat} {fp : Fingerprint} {body : Bytes} {role : Role}
    {page : ParsedPage} (hc : calls[i]? = some (fp, body))
    (hr : ((loading (.new kind maxSize) calls).undergoAll incidents).phase i =
      .returned role (.ok page)) :
    page.tags.fits body = true ∨ role = .follower ∧ ∃ j body', calls[j]? = some (fp, body') ∧
      body' ≠ body ∧ page.tags.fits body' = true ∧
      ((loading (.new kind maxSize) calls).undergoAll incidents).phase j =
        .returned .leader (.ok page) := by
  obtain ⟨hs, h⟩ := fair_undergoAll (s := .new kind maxSize) (ScannerPool.isFresh_new maxSize) calls
    incidents
  exact h.fits_or_waited hs hc hr

/-! ## 4. Two bodies under one fingerprint -/

namespace Sample

def tag : Bytes := Text.utf8 "<esi:include src=\"a\"/>".toList

/-- The second body has its tag two bytes further on. -/
def callers : Calls := [(1, tag), (1, Text.utf8 "--".toList ++ tag)]

/-- Both callers begin before one of them is done. -/
def incidents : List Incident := [.caller (.poll 0), .caller (.poll 1), .caller (.poll 0),
  .caller (.poll 1)]

/-- The tags of the first body. -/
def told : ParsedPage := ⟨0, Page.ofTags [⟨Text.utf8 "include src=\"a\"".toList, 0, 22⟩]⟩

end Sample

open Sample in
theorem fits_or_shared_sample : ∃ body page, callers[1]? = some (1, body) ∧
    ((loading (.new .readMostly 4096) callers).undergoAll incidents).phase 1 =
      .returned .follower (.ok page) ∧
    ∃ j body', callers[j]? = some (1, body') ∧ body' ≠ body ∧ page.tags.fits body' = true ∧
      ((loading (.new .readMostly 4096) callers).undergoAll incidents).phase j =
        .returned .leader (.ok page) := by
  have hr : ((loading (.new .readMostly 4096) callers).undergoAll incidents).phase 1 =
      .returned .follower (.ok told) := by decide +kernel
  rcases fits_or_shared .readMostly 4096 callers incidents (i := 1) rfl hr with hf | ⟨-, h⟩
  · exact absurd hf (by decide +kernel)
  · exact ⟨_, told, rfl, hr, h⟩

open Sample in
/-- **There is a caller with tags that do not fit its body.** -/
theorem exists_foreign_tags : ¬ ∀ (kind : CacheKind) (maxSize : Nat) (calls : Calls)
    (incidents : List Incident) (i : Nat) (fp : Fingerprint) (body : Bytes) (role : Role)
    (page : ParsedPage), calls[i]? = some (fp, body) →
    ((loading (.new kind maxSize) calls).undergoAll incidents).phase i =
      .returned role (.ok page) → page.tags.fits body = true := by
  intro h
  have hr : ((loading (.new .locked 4096) callers).undergoAll incidents).phase 1 =
      .returned .follower (.ok told) := by decide +kernel
  have hf := h .locked 4096 callers incidents 1 1 _ .follower told rfl hr
  exact absurd hf (by decide +kernel)

/-- Loading both together tells both of them the same. -/
example : (loadAll (.new .locked 4096) Sample.callers).2 = [.ok Sample.told, .ok Sample.told] := by
  decide +kernel

end PageStore

end EdgeInclude

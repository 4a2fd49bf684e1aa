import EdgeInclude.Proofs.Engine.Process
import EdgeInclude.Proofs.Resolver.Solitary
import Mathlib.Data.List.Induction

/-!
# Breakers from request to request

The breaker of a source lives as long as the page of its tag is kept. While each body that comes has
the tags of the kept page at their places, a source that keeps failing is left in peace from request
to request: its failures add up, and once they are enough, no call reaches its backend until the
waiting time since the last of them is over. A body with the same tag at another place is a new page
with new breakers, and the backend is called at once.

* `Engine.Query`, `Engine.answerAll` — requests that come one after the other.
* `Engine.Returns` — the bodies that the kept page of a fingerprint fits.
* `Resolver.Trial.failures` — the times of the failures in a log of trials.
* `Engine.Tells` — what a log tells of a request.
* `Engine.breaker_outlives_requests` — the log of a source that keeps failing.
* `Engine.exists_forgotten_breaker` — a body whose tag has moved.
-/

namespace EdgeInclude

variable {σ : Type}

/-! ## 1. Failures in a row -/

namespace Breaker

/-- Failures in a row add up, and the last one tells the time. -/
theorem foldl_fail_concat (ts : List Nat) (t : Nat) (b : Breaker) :
    (ts ++ [t]).foldl fail b = ⟨min (b.failures + (ts.length + 1)) maxCount, t⟩ := by
  induction ts generalizing b with
  | nil => rfl
  | cons x rest ih =>
    rw [List.cons_append, List.foldl_cons, ih, List.length_cons]
    unfold fail
    dsimp only
    congr 1
    omega

/-- **After enough failures in a row a breaker grants nothing** before its waiting time is over. -/
theorem le_of_grant_foldl {p : BreakerPolicy} {b b' : Breaker} {a : Admission} {ts : List Nat}
    {last now : Nat} (h : (ts.foldl fail b).grant p now = (b', some a))
    (hmax : p.maxFailures ≤ maxCount) (hlast : ts.getLast? = some last)
    (hmany : p.maxFailures ≤ ts.length) (hle : last ≤ now) :
    last + p.wait (min (b.failures + ts.length) maxCount) ≤ now := by
  obtain ⟨init, rfl⟩ := List.getLast?_eq_some_iff.1 hlast
  rw [foldl_fail_concat] at h
  rw [List.length_append, List.length_singleton] at hmany ⊢
  have hclosed : ¬ (⟨min (b.failures + (init.length + 1)) maxCount, last⟩ : Breaker).failures <
      p.maxFailures := by
    show ¬ min (b.failures + (init.length + 1)) maxCount < p.maxFailures
    omega
  by_contra hlt
  have hwait : now - last < p.wait (min (b.failures + (init.length + 1)) maxCount) := by omega
  rw [grant_of_opened hclosed hwait] at h
  cases h

end Breaker

/-- The times of the failures in a log of trials, one entry for each request. -/
def Resolver.Trial.failures (log : List (Option Resolver.Trial)) : List Nat :=
  log.filterMap (·.bind (·.failed))

theorem Resolver.Trial.failures_concat (log : List (Option Resolver.Trial))
    (entry : Option Resolver.Trial) :
    failures (log ++ [entry]) = failures log ++ (entry.bind (·.failed)).toList := by
  unfold failures
  rw [List.filterMap_append, List.filterMap_cons]
  cases entry.bind (·.failed) <;> rfl

namespace Engine

/-! ## 2. Requests one after the other -/

/-- A request for a page, some time after what has been before. -/
structure Query where
  wait : Nat
  request : Request
  origin : Headers
  body : Bytes
  departure : Departure

/-- What a request asks of the tag of a seat. -/
def Query.errand (q : Query) (s : Seat) : Errand := ⟨s, q.request, q.departure⟩

/-- An engine some time later. -/
def State.later (s : State σ) (wait : Nat) : State σ :=
  { s with world := { s.world with now := s.world.now + wait } }

/-- What a request leaves. -/
def answer (e : Engine) (o : Surroundings σ) (s : State σ) (q : Query) : State σ :=
  (e.process o q.request q.origin q.body q.departure (s.later q.wait)).1

/-- What requests leave that come one after the other. -/
def answerAll (e : Engine) (o : Surroundings σ) (s : State σ) (qs : List Query) : State σ :=
  qs.foldl (e.answer o) s

/-- The requests whose bodies are text; all others are answered without a look at their tags. -/
def texts (qs : List Query) : List Query := qs.filter fun q => Payload.looksLikeText q.body

/-- How often a request asks backends for the tag at `i` of the page that it is served with. -/
def attemptsFor (e : Engine) (o : Surroundings σ) (page : ParsedPage) (i : Nat) (s : State σ)
    (q : Query) : Nat :=
  if Payload.looksLikeText q.body then
    e.resolver.attemptsAt o (Resolver.errands page.id page.tags q.request q.departure) i
      (s.later q.wait).world
  else 0

/-- The requests are for one page, and are served with the tags that have been kept of it: those of
the first text fit all others. -/
structure Returns (e : Engine) (fp : Fingerprint) (page : ParsedPage) (s : State σ)
    (qs : List Query) : Prop where
  fingerprint : ∀ q ∈ qs, e.fingerprint q.request = fp
  first : ∀ q, (texts qs)[0]? = some q → (s.pages.load fp q.body).2 = .ok page
  fits : ∀ (k : Nat) q, (texts qs)[k + 1]? = some q → page.tags.fits q.body = true

/-- What an entry of a log tells of a request, when `past` are the times of the failures before. -/
structure Tells (e : Engine) (o : Surroundings σ) (page : ParsedPage) (i : Nat) (tag : Include)
    (src : Source) (b₀ : Breaker) (s : State σ) (q : Query) (past : List Nat)
    (entry : Option Resolver.Trial) : Prop where
  /-- The backend is called, or it is not. -/
  attempts : e.attemptsFor o page i s q = if entry.isSome then 1 else 0
  during : ∀ t ∈ entry, s.world.now + q.wait ≤ t.called ∧
    t.called ≤ (e.answer o s q).world.now
  ends : ∀ t ∈ entry, ∀ f ∈ t.failed, t.called ≤ f ∧ f ≤ (e.answer o s q).world.now
  /-- A call whose failure does not count has ended with its request. -/
  counts : ∀ t ∈ entry, t.failed = none →
    e.resolver.EndsWithRequest o (q.errand ⟨page.id, i, tag⟩) src s.world.reach.stores t.called
  /-- After enough failures, the waiting time since the last one is over. -/
  rests : ∀ t ∈ entry, ∀ last ∈ past.getLast?, e.config.maxFailures ≤ past.length →
    last + e.config.breakers.wait (min (b₀.failures + past.length) Breaker.maxCount) ≤ t.called

variable {e : Engine} {o : Surroundings σ} {page : ParsedPage} {i : Nat} {tag : Include}
  {src : Source} {s : State σ} {q : Query} {qs : List Query} {fp : Fingerprint}

theorem answerAll_concat (e : Engine) (o : Surroundings σ) (s : State σ) (qs : List Query)
    (q : Query) : e.answerAll o s (qs ++ [q]) = e.answer o (e.answerAll o s qs) q := by
  unfold answerAll
  rw [List.foldl_append, List.foldl_cons, List.foldl_nil]

theorem texts_append (qs ps : List Query) : texts (qs ++ ps) = texts qs ++ texts ps :=
  List.filter_append ..

theorem texts_of_text (hq : Payload.looksLikeText q.body = true) : texts [q] = [q] := by
  unfold texts
  rw [List.filter_singleton, hq]
  rfl

theorem texts_of_binary (hq : Payload.looksLikeText q.body = false) : texts [q] = [] := by
  unfold texts
  rw [List.filter_singleton, hq]
  rfl

theorem Returns.init (h : e.Returns fp page s (qs ++ [q])) : e.Returns fp page s qs := by
  have hget : ∀ {k : Nat} {p : Query}, (texts qs)[k]? = some p →
      (texts (qs ++ [q]))[k]? = some p := by
    intro k p hp
    rw [texts_append, List.getElem?_append_left (List.getElem?_eq_some_iff.1 hp).1]
    exact hp
  exact ⟨fun p hp => h.fingerprint p (List.mem_append_left _ hp), fun p hp => h.first p (hget hp),
    fun k p hp => h.fits k p (hget hp)⟩

/-- A body that is not text may be left out. -/
theorem Returns.without {p : Query} (h : e.Returns fp page s (qs ++ [p] ++ [q]))
    (hp : Payload.looksLikeText p.body = false) : e.Returns fp page s (qs ++ [q]) := by
  have htexts : texts (qs ++ [p] ++ [q]) = texts (qs ++ [q]) := by
    rw [texts_append, texts_append, texts_of_binary hp, List.append_nil, texts_append]
  refine ⟨fun q' hq' => h.fingerprint q' ?_, htexts ▸ h.first, htexts ▸ h.fits⟩
  rw [List.append_assoc]
  exact List.mem_append.2 ((List.mem_append.1 hq').imp_right (List.mem_cons_of_mem p))

/-! ## 3. One request -/

/-- A body that is not text leaves pages and world as they are. -/
theorem answer_of_binary (ht : Payload.looksLikeText q.body = false) :
    (e.answer o s q).pages = s.pages ∧ (e.answer o s q).world = (s.later q.wait).world := by
  unfold answer process
  rw [ht]
  exact ⟨rfl, rfl⟩

/-- A request that is served with a page that has tags. -/
theorem answer_of_text (ht : Payload.looksLikeText q.body = true)
    (hl : (s.pages.load (e.fingerprint q.request) q.body).2 = .ok page)
    (hi : page.tags[i]? = some tag) :
    (e.answer o s q).pages = (s.pages.load (e.fingerprint q.request) q.body).1 ∧
      (e.answer o s q).world = (e.resolver.visitAll o
        (Resolver.errands page.id page.tags q.request q.departure) (s.later q.wait).world).1 := by
  have hempty : page.tags.isEmpty = false := by
    cases hp : page.tags with
    | nil =>
      rw [hp] at hi
      cases hi
    | cons t rest => rfl
  have hprocess : e.process o q.request q.origin q.body q.departure (s.later q.wait) = _ :=
    process_of_load ht hl
  unfold answer
  rw [hprocess, hempty, if_neg Bool.false_ne_true, pages_finish, world_finish]
  exact ⟨rfl, rfl⟩

/-- **What a request makes of the breaker** of a source that keeps failing. -/
theorem exists_trial_answer (hl : Payload.looksLikeText q.body = true →
      (s.pages.load (e.fingerprint q.request) q.body).2 = .ok page)
    (hi : page.tags[i]? = some tag) (hsource : tag.sources = [src])
    (hfail : e.resolver.KeepsFailing o (q.errand ⟨page.id, i, tag⟩) src s.world.reach.stores) :
    ∃ t, e.attemptsFor o page i s q = (if t.isSome then 1 else 0) ∧
      Resolver.Leaves e.config.breakers
        (e.resolver.EndsWithRequest o (q.errand ⟨page.id, i, tag⟩) src s.world.reach.stores)
        (s.world.breaker ⟨page.id, i, src.index⟩) (s.world.now + q.wait)
        (e.answer o s q).world.now t
        ((e.answer o s q).world.breaker ⟨page.id, i, src.index⟩) ∧
      (e.answer o s q).world.reach.stores = s.world.reach.stores := by
  unfold attemptsFor
  cases ht : Payload.looksLikeText q.body with
  | false =>
    rw [(answer_of_binary ht).2]
    exact ⟨none, rfl, .untried (Nat.le_refl _), rfl⟩
  | true =>
    have hget : (Resolver.errands page.id page.tags q.request q.departure)[i]? =
        some (q.errand ⟨page.id, i, tag⟩) := by
      rw [Resolver.getElem?_errands, hi]
      rfl
    rw [(answer_of_text ht (hl ht) hi).2, if_pos rfl]
    exact Resolver.exists_trial (w := (s.later q.wait).world) (Resolver.areApart_errands ..) hget
      hsource hfail

/-- **The page of the first text is the page of all texts.** -/
theorem Returns.load_eq (h : e.Returns fp page s (qs ++ [q])) (hi : page.tags[i]? = some tag)
    (hq : Payload.looksLikeText q.body = true) :
    ((e.answerAll o s qs).pages.load fp q.body).2 = .ok page := by
  induction qs using List.reverseRecOn generalizing q with
  | nil => exact h.first q (by rw [List.nil_append, texts_of_text hq]; rfl)
  | append_singleton qs p ih =>
    rw [answerAll_concat]
    cases hp : Payload.looksLikeText p.body with
    | false =>
      rw [(answer_of_binary hp).1]
      exact ih (h.without hp) hq
    | true =>
      have hload := ih h.init hp
      have hpages : (e.answer o (e.answerAll o s qs) p).pages =
          ((e.answerAll o s qs).pages.load fp p.body).1 := by
        rw [← h.fingerprint p (by simp)] at hload ⊢
        exact (answer_of_text hp hload hi).1
      have hfits : page.tags.fits q.body = true := by
        refine h.fits (texts qs).length q ?_
        rw [texts_append, texts_append, texts_of_text hq, texts_of_text hp]
        have hlast : (texts qs ++ [p]).length = (texts qs).length + 1 := List.length_append
        exact hlast ▸ List.getElem?_concat_length
      rw [hpages, PageStore.load_of_fits (PageStore.peek_load hload) hfits]

/-- **What is told of a request**, from what it makes of the breaker. -/
theorem tells_of_leaves {b₀ b' : Breaker} {past : List Nat} {entry : Option Resolver.Trial}
    (hmax : e.config.maxFailures ≤ Breaker.maxCount)
    (hattempts : e.attemptsFor o page i s q = if entry.isSome then 1 else 0)
    (h : Resolver.Leaves e.config.breakers
      (e.resolver.EndsWithRequest o (q.errand ⟨page.id, i, tag⟩) src s.world.reach.stores)
      (past.foldl Breaker.fail b₀) (s.world.now + q.wait) (e.answer o s q).world.now entry b')
    (hpast : ∀ f ∈ past, f ≤ s.world.now) : e.Tells o page i tag src b₀ s q past entry := by
  refine ⟨hattempts, fun t ht => ?_, fun t ht => ?_, fun t ht => ?_,
    fun t ht last hlast hmany => ?_⟩ <;> obtain rfl := Option.mem_def.1 ht
  · exact ⟨h.since, h.til⟩
  · exact h.ends
  · exact h.reason
  · obtain ⟨granted, a, hgrant⟩ := h.granted
    have hle : last ≤ t.called := Nat.le_trans (hpast last (List.mem_of_getLast? hlast))
      (Nat.le_trans (Nat.le_add_right ..) h.since)
    exact Breaker.le_of_grant_foldl hgrant hmax hlast hmany hle

/-! ## 4. All requests -/

/-- A log has one entry for each request, which tells of it; the breaker of the source has gone
through the failures of the log, and through nothing else. -/
structure Records (e : Engine) (o : Surroundings σ) (page : ParsedPage) (i : Nat) (tag : Include)
    (src : Source) (s : State σ) (qs : List Query) (log : List (Option Resolver.Trial)) :
    Prop where
  length : log.length = qs.length
  breaker : (e.answerAll o s qs).world.breaker ⟨page.id, i, src.index⟩ =
    (Resolver.Trial.failures log).foldl Breaker.fail (s.world.breaker ⟨page.id, i, src.index⟩)
  past : ∀ f ∈ Resolver.Trial.failures log, f ≤ (e.answerAll o s qs).world.now
  stores : (e.answerAll o s qs).world.reach.stores = s.world.reach.stores
  tells : ∀ (k : Nat) q, qs[k]? = some q → ∃ entry, log[k]? = some entry ∧
    e.Tells o page i tag src (s.world.breaker ⟨page.id, i, src.index⟩)
      (e.answerAll o s (qs.take k)) q (Resolver.Trial.failures (log.take k)) entry

theorem records_nil : Records e o page i tag src s [] [] where
  length := rfl
  breaker := rfl
  past := fun _ hf => absurd hf List.not_mem_nil
  stores := rfl
  tells := fun k q hq => by
    rw [List.getElem?_nil] at hq
    cases hq

/-- **One more request.** -/
theorem Records.concat {log : List (Option Resolver.Trial)}
    (h : e.Records o page i tag src s qs log) (hreturns : e.Returns fp page s (qs ++ [q]))
    (hi : page.tags[i]? = some tag) (hsource : tag.sources = [src])
    (hmax : e.config.maxFailures ≤ Breaker.maxCount)
    (hfail : e.resolver.KeepsFailing o (q.errand ⟨page.id, i, tag⟩) src s.world.reach.stores) :
    ∃ entry, e.Records o page i tag src s (qs ++ [q]) (log ++ [entry]) := by
  have hq : q ∈ qs ++ [q] := by simp
  have hload := fun ht => hreturns.load_eq (o := o) hi ht
  rw [← hreturns.fingerprint q hq] at hload
  obtain ⟨entry, hattempts, hleaves, hstores⟩ :=
    exists_trial_answer hload hi hsource (h.stores ▸ hfail)
  rw [h.breaker] at hleaves
  have hnow : (e.answerAll o s qs).world.now ≤ (e.answer o (e.answerAll o s qs) q).world.now :=
    Nat.le_trans (Nat.le_add_right ..) hleaves.le
  refine ⟨entry, ?_, ?_, fun f hf => ?_, ?_, fun k p hp => ?_⟩
  · rw [List.length_append, List.length_append, h.length]
    rfl
  · rw [answerAll_concat, Resolver.Trial.failures_concat, List.foldl_append]
    exact hleaves.breaker_eq
  · rw [answerAll_concat]
    rw [Resolver.Trial.failures_concat, List.mem_append] at hf
    rcases hf with hf | hf
    · exact Nat.le_trans (h.past f hf) hnow
    · obtain ⟨t, rfl, hend⟩ := Option.bind_eq_some_iff.1 (Option.mem_toList.1 hf)
      exact (hleaves.ends f hend).2
  · rw [answerAll_concat, hstores, h.stores]
  · rcases get_concat_cases hp with ⟨hlt, hp⟩ | ⟨rfl, rfl⟩
    · have hlt' : k < log.length := h.length ▸ hlt
      rw [List.getElem?_append_left hlt', List.take_append_of_le_length (Nat.le_of_lt hlt),
        List.take_append_of_le_length (Nat.le_of_lt hlt')]
      exact h.tells k p hp
    · refine ⟨entry, ?_, ?_⟩
      · rw [← h.length, List.getElem?_concat_length]
      · rw [List.take_left, ← h.length, List.take_left]
        exact tells_of_leaves hmax hattempts hleaves h.past

/-- **Breakers outlive requests.** A tag has one source, whose backend keeps failing, and requests
come that are all served with the tags that are kept of their page. Then the failures add up from
request to request, and no others count. Each request calls the backend at most once, and after
enough failures it calls it only if the waiting time since the last of them is over. A call whose
failure does not count has ended with its request, which was given up, or whose deadline limited the
fetch while the backend was late or said so. The bound on failures is one that can be counted. -/
theorem breaker_outlives_requests (e : Engine) (o : Surroundings σ) (fp : Fingerprint)
    (page : ParsedPage) (i : Nat) (tag : Include) (src : Source) (s : State σ) (qs : List Query)
    (hi : page.tags[i]? = some tag) (hsource : tag.sources = [src])
    (hreturns : e.Returns fp page s qs)
    (hfail : ∀ q ∈ qs, e.resolver.KeepsFailing o (q.errand ⟨page.id, i, tag⟩) src
      s.world.reach.stores)
    (hmax : e.config.maxFailures ≤ Breaker.maxCount) :
    ∃ log, e.Records o page i tag src s qs log := by
  induction qs using List.reverseRecOn with
  | nil => exact ⟨[], records_nil⟩
  | append_singleton qs q ih =>
    obtain ⟨log, hlog⟩ := ih hreturns.init fun p hp => hfail p (List.mem_append_left _ hp)
    obtain ⟨entry, h⟩ := hlog.concat hreturns hi hsource hmax
      (hfail q (List.mem_append_right _ (List.mem_singleton_self q)))
    exact ⟨_, h⟩

/-! ## 5. A tag that moves

Its backend counts its calls and fails in all of them. Two failures open its breaker. -/

namespace Moving

def outside : Surroundings Nat where
  network _ n := (n, none, .failed ⟨true, "no network"⟩)
  program _ _ n := (n, .missing "no programs")
  custom _ _ n := (n + 1, ⟨some 3, .error (.http "HTTP 500")⟩)
  close _ n := n
  pace := 1000000

def engine : Engine :=
  ⟨{ Config.standard with maxFailures := 2 },
    Registry.empty.withAlias "a".toList (.custom 0 "a".toList)⟩

def state : State Nat := engine.start 0 [] 1

def request : Request := .ofParts Request.get .root .empty

def query (before : String) : Query :=
  ⟨5, request, .empty, Text.utf8 (before ++ "<esi:include src='a'/>").toList, .never⟩

def found : Include := (Include.ofRaw ⟨Text.utf8 "include src='a'".toList, 0, 22⟩).read.1

def kept : ParsedPage := ⟨0, Page.ofTags [⟨Text.utf8 "include src='a'".toList, 0, 22⟩]⟩

def only : Source := ⟨0, .literal ['a'], false⟩

theorem keepsFailing : engine.resolver.KeepsFailing outside ⟨⟨0, 0, found⟩, request,
    .never⟩ only [] := by
  intro b hb outside' now
  have hmem := Registry.mem_of_find hb
  rw [show engine.resolver.registry.backends = [.custom 0 ['a']] from rfl,
    List.mem_singleton] at hmem
  subst hmem
  exact ⟨_, rfl, rfl⟩

end Moving

open Moving in
theorem breaker_outlives_requests_sample :
    ∃ log, engine.Records outside kept 0 found only state [query "", query "", query ""] log ∧
      log[2]? = some none := by
  have hload : (state.pages.load (engine.fingerprint request) (query "").body).2.toOption =
      some kept := by decide +kernel
  have htexts : texts [query "", query "", query ""] = [query "", query "", query ""] := by
    rw [texts, List.filter_eq_self]
    simp only [List.mem_cons, List.not_mem_nil, or_false, or_self]
    rintro q rfl
    decide +kernel
  obtain ⟨log, h⟩ := breaker_outlives_requests engine outside (engine.fingerprint request) kept 0
    found only state [query "", query "", query ""] (by decide +kernel) (by decide +kernel)
    { fingerprint := by simp [query]
      first := fun q hq => by
        rw [htexts] at hq
        obtain rfl := Option.some.inj hq
        cases hl : (state.pages.load (engine.fingerprint request) (query "").body).2 with
        | error err =>
          rw [hl] at hload
          cases hload
        | ok page =>
          rw [hl] at hload
          exact congrArg Except.ok (Option.some.inj hload)
      fits := fun k q hq => by
        rw [htexts] at hq
        have hmem := List.mem_of_getElem? hq
        simp only [List.mem_cons, List.not_mem_nil, or_false, or_self] at hmem
        subst hmem
        decide +kernel }
    (fun q hq => by
      simp only [List.mem_cons, List.not_mem_nil, or_false, or_self] at hq
      subst hq
      exact keepsFailing)
    (by decide)
  refine ⟨log, h, ?_⟩
  obtain ⟨entry, hentry, htells⟩ := h.tells 2 (query "") rfl
  have hnone : engine.attemptsFor outside kept 0
      (engine.answerAll outside state [query "", query ""]) (query "") = 0 := by decide +kernel
  cases entry with
  | none => exact hentry
  | some t => cases hnone.symm.trans htells.attempts

open Moving in
/-- **A breaker does not outlive its page.** After two failures, which open the breaker, a third
request for the page calls the backend again, long before the waiting time is over, for its tag
stands one byte further on; with the body of the first two it does not. -/
theorem exists_forgotten_breaker :
    (query "-").body = Text.utf8 ['-'] ++ (query "").body ∧
    engine.config.maxFailures = 2 ∧
    (engine.answerAll outside state [query "", query ""]).world.breaker ⟨0, 0, 0⟩ = ⟨2, 6000011⟩ ∧
    (engine.answerAll outside state [query "", query ""]).world.reach.outside = 2 ∧
    (engine.answerAll outside state [query "", query "", query ""]).world.reach.outside = 2 ∧
    (engine.answerAll outside state [query "", query "", query "-"]).world.reach.outside = 3 ∧
    (engine.answerAll outside state [query "", query "", query "-"]).world.now <
      6000011 + engine.config.breakers.wait 2 := by
  decide +kernel

end Engine

end EdgeInclude

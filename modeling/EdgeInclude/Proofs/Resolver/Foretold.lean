import EdgeInclude.Proofs.Resolver.Frame
import EdgeInclude.Proofs.Resolver.Turns

/-!
# What can be foretold of a tag

Each source of a tag has a breaker of its own, and one turn. So what comes of a tag for which
nothing is cached is told by the breakers that it has at first and by what its backends answer,
unless something that it waits for ends by time alone. When the backends answer, as long as that is
in time, and what other tags do meanwhile is of no matter.

* `Resolver.Steady` — the backends of a tag answer in time, and what depends on the call alone.
* `Resolver.Timeless` — between two times of the clock, no deadline limits a tag, and none of its
  breakers begins to let requests through.
* `Outlook` — what is known at first; `Outlook.ending` — how a turn ends then.
* `Outlook.fate`, `Outlook.count` — what comes of a tag, and how many failures its breakers count.
* `Outlook.fits_ask` — a trial of a source comes to what has been foretold.
* `Outlook.LeadsTo` — so does a visit, however far it has come: `Outlook.leadsTo_start` and
  `Outlook.LeadsTo.resume` for what it does itself, `Outlook.LeadsTo.congr` for what others do.
-/

namespace EdgeInclude

variable {σ : Type}

/-! ## 1. Answers and times -/

namespace Resolver

/-- What a backend answers to a call. -/
abbrev Replies := Backend → Call → Except Failure Response

/-- The call of the backend of a source, at a time of the clock. -/
def callAt (v : Resolver) (e : Errand) (s : Source) (now : Nat) : Call :=
  v.call e (address e s) (v.budget e.seat.tag e.request now).1

/-- At a time of the clock, and with some stores, the backends of a tag answer before the time of
the fetch is over, whatever has happened outside, and what they answer does not depend on it. -/
def Steady (v : Resolver) (o : Surroundings σ) (e : Errand) (stores : List (Nat × Store))
    (now : Nat) (replies : Replies) : Prop :=
  ∀ s ∈ e.seat.tag.sources, ∀ b, v.registry.find (address e s) s.isUrl = .ok b →
    ∀ outside, ∃ d ≤ (v.budget e.seat.tag e.request now).1.ceilMillis,
      (b.fetch o ⟨outside, stores⟩ (v.callAt e s now)).2 = ⟨some d, replies b (v.callAt e s now)⟩

/-- Between two times of the clock, nothing that a tag waits for ends by time alone: no deadline
limits its fetches, and a breaker that lets nothing through at first does not do so later on. -/
structure Timeless (v : Resolver) (e : Errand) (breaker : SourceId → Breaker) (now til : Nat) :
    Prop where
  unlimited : (v.budget e.seat.tag e.request til).2 = false
  refusing : ∀ s ∈ e.seat.tag.sources,
    ((breaker (e.seat.source s)).grant v.breakers now).2 = none →
      ((breaker (e.seat.source s)).grant v.breakers til).2 = none

variable {v : Resolver} {o : Surroundings σ} {e : Errand} {w u : World σ} {s : Source} {f : Fetch}
  {breaker : SourceId → Breaker} {stores : List (Nat × Store)} {replies : Replies}
  {now til t t' : Nat}

/-- A deadline that does not limit a fetch later on does not limit it now. -/
theorem budget_of_unlimited {tag : Include} {r : Request} (h : (v.budget tag r til).2 = false)
    (ht : t ≤ til) : v.budget tag r t = v.budget tag r til := by
  unfold budget Request.remaining? at h ⊢
  cases hd : r.deadline with
  | none => rfl
  | some deadline =>
    rw [hd] at h
    simp only [Option.map_some] at h ⊢
    generalize (if tag.timeout == 0 then v.timeout else tag.timeout) = limit at h ⊢
    by_cases hlate : deadline - til < limit
    · rw [if_pos hlate] at h
      cases h
    · have hearly : ¬ deadline - t < limit :=
        fun hlt => hlate (Nat.lt_of_le_of_lt (Nat.sub_le_sub_left ht _) hlt)
      rw [if_neg hlate, if_neg hearly]

namespace Timeless

variable (h : v.Timeless e breaker now til)

include h

theorem budget_eq (hnow : now ≤ t) (ht : t ≤ til) :
    v.budget e.seat.tag e.request t = v.budget e.seat.tag e.request now :=
  (budget_of_unlimited h.unlimited ht).trans
    (budget_of_unlimited h.unlimited (Nat.le_trans hnow ht)).symm

theorem bound_eq (hnow : now ≤ til) : (v.budget e.seat.tag e.request now).2 = false := by
  rw [budget_of_unlimited h.unlimited hnow]
  exact h.unlimited

/-- **What a breaker refuses at first it refuses all the time**, and nothing else. -/
theorem refused_iff (hs : s ∈ e.seat.tag.sources) (hnow : now ≤ t) (ht : t ≤ til) :
    ((breaker (e.seat.source s)).grant v.breakers t).2 = none ↔
      ((breaker (e.seat.source s)).grant v.breakers now).2 = none :=
  ⟨fun hn => Breaker.grant_none_earlier hn hnow,
    fun hn => Breaker.grant_none_earlier (h.refusing s hs hn) ht⟩

end Timeless

/-! ## 2. One source -/

theorem lookup_of_uncached (h : v.Uncached e w) (key : Text) :
    v.lookup e.seat.tag key w = (w, none) := by
  unfold lookup
  split
  · rfl
  · rename_i hl
    rcases h with h | h
    · unfold World.cached
      rw [h]
    · exact absurd (beq_iff_eq.2 h) hl

theorem ask_of_uncached (h : v.Uncached e w) (o : Surroundings σ) (s : Source) (time : Nat) :
    v.ask o e s time w =
      if (v.budget e.seat.tag e.request w.now).1 == 0 then (w, .late)
      else match ((w.breaker (e.seat.source s)).grant v.breakers w.now).2 with
        | none => (w.count (·.skip), .passedOver)
        | some a => v.launch o e s (address e s) time (v.budget e.seat.tag e.request w.now) a
            (w.setBreaker (e.seat.source s)
              ((w.breaker (e.seat.source s)).grant v.breakers w.now).1) := by
  rw [ask_eq]
  unfold found? allowance granted searched
  rewrite [lookup_of_uncached h]
  rfl

end Resolver

/-- How a turn ends in which a backend answers in time, if no deadline limits the fetch. -/
def Ending.replied : Except Failure Response → Ending
  | .ok r => .won r
  | .error err => if err.isCancelled then .cancelled err else .failed err

theorem Fetch.ending_of_unlimited {f : Fetch} (h : f.bound = false) :
    f.ending = .replied f.outcome := by
  unfold Fetch.ending
  rw [h]
  cases f.outcome with
  | ok r => rfl
  | error err => simp only [Bool.and_false, Bool.false_eq_true, if_false, Ending.replied]

namespace Ending

variable {ending : Ending} {now now' : Nat} {b : Breaker}

/-- A turn without an attempt leaves no mark. -/
theorem mark_of_untried (h : ending.attempts = 0) (now : Nat) (b : Breaker) :
    ending.mark now b = b := by
  cases ending <;> first | rfl | cases h

end Ending

namespace Resolver

variable {v : Resolver} {o : Surroundings σ} {e : Errand} {w u : World σ} {s : Source} {f : Fetch}
  {stores : List (Nat × Store)} {replies : Replies} {now : Nat}

/-- The fetch of a backend that answers in time ends with its answer. -/
theorem launch_of_steady (ho : v.Steady o e stores now replies) (hd : e.departure = .never)
    (hs : s ∈ e.seat.tag.sources) (hw : w.reach.stores = stores) {b : Backend}
    (hb : v.registry.find (address e s) s.isUrl = .ok b) (time : Nat) (a : Admission)
    (hl : (v.budget e.seat.tag e.request now).2 = false) :
    ∃ reach f, v.launch o e s (address e s) time (v.budget e.seat.tag e.request now) a w =
        ({ w with reach }, .fetching f) ∧
      f.source = s ∧ f.admission = a ∧ f.ending = .replied (replies b (v.callAt e s now)) := by
  obtain ⟨d, hle, hfetch⟩ := ho s hs b hb w.reach.outside
  have hreach : (⟨w.reach.outside, stores⟩ : Reach σ) = w.reach := by rw [← hw]
  rw [hreach] at hfetch
  have hend : ending (address e s) (v.budget e.seat.tag e.request now).1 time
      ⟨some d, replies b (v.callAt e s now)⟩ = (time + d, replies b (v.callAt e s now)) :=
    if_pos hle
  unfold launch
  rw [hb]
  unfold callAt at hfetch hend ⊢
  dsimp only
  rw [hfetch, hend, hd, hl]
  exact ⟨_, _, rfl, rfl, rfl, Fetch.ending_of_unlimited rfl⟩

/-- **The end of a fetch counts on the breaker of its source** as if nothing had been granted. -/
theorem failures_settle {b b' : Breaker} {p : BreakerPolicy} {called : Nat}
    (hg : b.grant p called = (b', some f.admission))
    (hu : u.breaker (e.seat.source f.source) = b') (now : Nat) :
    ((v.settle e f u).1.breaker (e.seat.source f.source)).failures =
      (f.ending.mark now b).failures := by
  have hb : b'.failures = b.failures := by
    rw [← Breaker.failures_grant b p called, hg]
  rw [fst_settle]
  rcases f.ending_cases with ⟨r, -, he⟩ | ⟨err, -, ⟨-, he⟩ | ⟨-, -, he⟩ | ⟨-, -, he⟩⟩ <;>
    simp only [he, breaker_store, World.breaker_count, World.breaker_onBreaker_self,
      World.breaker_reaching, hu, Ending.mark]
  · rw [Breaker.failures_succeed, Breaker.failures_succeed]
  · exact (Breaker.failures_release ..).trans hb
  · exact (Breaker.failures_release ..).trans hb
  · unfold blame
    split
    · unfold Breaker.fail
      rw [hb]
    · exact (Breaker.failures_release ..).trans hb

end Resolver

/-! ## 3. What is foretold -/

/-- The sources that a tag tries: none, if it is omitted or faulty. -/
def Errand.tried (e : Errand) : List Source :=
  if Visit.isWanted e && e.seat.tag.fault.isNone then e.seat.tag.sources else []

/-- What is known before the tags of a page are resolved: what the backends answer, the breakers,
and the time. -/
structure Outlook where
  resolver : Resolver
  replies : Resolver.Replies
  breaker : SourceId → Breaker
  now : Nat

namespace Outlook

/-- How the turn of a source ends. -/
def ending (k : Outlook) (e : Errand) (s : Source) : Ending :=
  if (k.resolver.budget e.seat.tag e.request k.now).1 == 0 then .expired
  else match ((k.breaker (e.seat.source s)).grant k.resolver.breakers k.now).2 with
    | none => .refused
    | some _ =>
      match k.resolver.registry.find (Resolver.address e s) s.isUrl with
      | .error _ => .unserved
      | .ok b => .replied (k.replies b (k.resolver.callAt e s k.now))

/-- The outcome of sources that have their turns behind `n` attempts. -/
def outcome (k : Outlook) (e : Errand) : List Source → Nat → Resolver.Outcome
  | [], n => Resolver.giveUp e.seat.tag n
  | s :: rest, n =>
    if (k.ending e s).passesOn then k.outcome e rest (n + (k.ending e s).attempts)
    else (k.ending e s).close e.seat.tag (n + (k.ending e s).attempts)

/-- How many failures the breaker of a source counts behind the turn of another one, or its own, if
it has counted `n` before. -/
def countBehind (k : Outlook) (e : Errand) (s : Source) (id : SourceId) (n : Nat) : Nat :=
  if e.seat.source s = id then ((k.ending e s).mark k.now (k.breaker id)).failures else n

/-- The same behind the turns that sources have. -/
def counts (k : Outlook) (e : Errand) (id : SourceId) : List Source → Nat → Nat
  | [], n => n
  | s :: rest, n =>
    if (k.ending e s).passesOn then k.counts e id rest (k.countBehind e s id n)
    else k.countBehind e s id n

/-- What comes of a tag; nothing, if it is omitted. -/
def fate (k : Outlook) (e : Errand) : Option Resolver.Outcome :=
  if Visit.isWanted e then some (k.outcome e e.tried 0) else none

/-- How many failures a breaker of a tag counts when the tag is resolved. -/
def count (k : Outlook) (e : Errand) (id : SourceId) : Nat :=
  k.counts e id e.tried (k.breaker id).failures

/-- What is foretold of a tag comes true, if its backends answer so with some surroundings and
stores, its request is not given up, and nothing that it waits for ends by time alone. -/
structure Holds (k : Outlook) (o : Surroundings σ) (e : Errand) (stores : List (Nat × Store))
    (til : Nat) : Prop where
  built : e.seat.tag.Built
  stays : e.departure = .never
  steady : k.resolver.Steady o e stores k.now k.replies
  timeless : k.resolver.Timeless e k.breaker k.now til

/-- A world in which nothing is cached for a tag, not before the time of an outlook. -/
structure Opens (k : Outlook) (e : Errand) (stores : List (Nat × Store)) (w : World σ) : Prop where
  since : k.now ≤ w.now
  stores : w.reach.stores = stores
  uncached : k.resolver.Uncached e w

variable {k : Outlook} {o : Surroundings σ} {e e' : Errand} {s : Source} {rest : List Source}
  {stores : List (Nat × Store)} {til n time : Nat} {w w' : World σ} {f : Fetch} {p : Progress}

theorem Opens.spends (h : k.Opens e stores w) (hm : k.resolver.Spends e' w w')
    (hu : k.resolver.Uncached e' w) : k.Opens e stores w' := by
  refine ⟨Nat.le_trans h.since hm.le_now, hm.stores.trans h.stores, ?_⟩
  have huncached := h.uncached
  unfold Resolver.Uncached at huncached ⊢
  rwa [hm.fragments hu]

/-! ## 4. One trial -/

/-- A trial of a source comes to what has been foretold of its turn. -/
inductive Fits (k : Outlook) (e : Errand) (s : Source) (w w' : World σ) :
    Resolver.Asked → Prop where
  | late (ending : k.ending e s = .expired) (same : ∀ id, w'.breaker id = w.breaker id) :
      Fits k e s w w' .late
  | passedOver (passes : (k.ending e s).passesOn = true) (untried : (k.ending e s).attempts = 0)
      (same : ∀ id, w'.breaker id = w.breaker id) : Fits k e s w w' .passedOver
  | fetching {f : Fetch} {called : Nat} (source : f.source = s) (ending : f.ending = k.ending e s)
      (granted : (k.breaker (e.seat.source s)).grant k.resolver.breakers called =
        (w'.breaker (e.seat.source s), some f.admission))
      (others : ∀ id, e.seat.source s ≠ id → w'.breaker id = w.breaker id) :
      Fits k e s w w' (.fetching f)

/-- **A trial of a source comes to what has been foretold**, at whatever time it takes place. -/
theorem fits_ask (hk : k.Holds o e stores til) (hw : k.Opens e stores w) (htil : w.now ≤ til)
    (hs : s ∈ e.seat.tag.sources)
    (hb : w.breaker (e.seat.source s) = k.breaker (e.seat.source s)) (time : Nat) :
    k.Fits e s w (k.resolver.ask o e s time w).1 (k.resolver.ask o e s time w).2 := by
  have hbound := hk.timeless.bound_eq (Nat.le_trans hw.since htil)
  have hrefused := hk.timeless.refused_iff hs hw.since htil
  rw [Resolver.ask_of_uncached hw.uncached, hb, hk.timeless.budget_eq hw.since htil]
  by_cases hover : (k.resolver.budget e.seat.tag e.request k.now).1 == 0
  · rw [if_pos hover]
    exact .late (if_pos hover) fun _ => rfl
  · rw [if_neg hover]
    cases hg : ((k.breaker (e.seat.source s)).grant k.resolver.breakers w.now).2 with
    | none =>
      have hending : k.ending e s = .refused := by
        unfold ending
        rw [if_neg hover, hrefused.1 hg]
      exact .passedOver (by rw [hending]; rfl) (by rw [hending]; rfl) fun _ => rfl
    | some a =>
      obtain ⟨a₀, ha₀⟩ := Option.ne_none_iff_exists'.1 fun hn =>
        Option.some_ne_none a (hg.symm.trans (hrefused.2 hn))
      have hgrant : (k.breaker (e.seat.source s)).grant k.resolver.breakers w.now =
          (((k.breaker (e.seat.source s)).grant k.resolver.breakers w.now).1, some a) :=
        Prod.ext rfl hg
      dsimp only
      generalize ((k.breaker (e.seat.source s)).grant k.resolver.breakers w.now).1 = b' at hgrant ⊢
      cases hf : k.resolver.registry.find (Resolver.address e s) s.isUrl with
      | error err =>
        have hending : k.ending e s = .unserved := by
          unfold ending
          rw [if_neg hover, ha₀]
          dsimp only
          rw [hf]
        have hsame : ∀ id, ((w.setBreaker (e.seat.source s) b').onBreaker (e.seat.source s)
            (·.release a)).breaker id = w.breaker id := by
          intro id
          by_cases hid : e.seat.source s = id
          · subst hid
            rw [World.breaker_onBreaker_self, World.breaker_setBreaker_self, hb]
            exact Breaker.release_grant hgrant
          · rw [World.breaker_onBreaker_of_ne hid, World.breaker_setBreaker_of_ne hid]
        unfold Resolver.launch
        rw [hf]
        exact .passedOver (by rw [hending]; rfl) (by rw [hending]; rfl) hsame
      | ok backend =>
        have hending : k.ending e s =
            .replied (k.replies backend (k.resolver.callAt e s k.now)) := by
          unfold ending
          rw [if_neg hover, ha₀]
          dsimp only
          rw [hf]
        obtain ⟨reach, f, hl, hsource, hadmission, hend⟩ := Resolver.launch_of_steady
          (w := w.setBreaker (e.seat.source s) b') hk.steady hk.stays hs hw.stores hf time a hbound
        have hleft : (k.breaker (e.seat.source s)).grant k.resolver.breakers w.now =
            ((w.setBreaker (e.seat.source s) b').breaker (e.seat.source s), some f.admission) := by
          rw [World.breaker_setBreaker_self, hadmission]
          exact hgrant
        rw [hl]
        exact .fetching hsource (hend.trans hending.symm) hleft fun id hid =>
          World.breaker_setBreaker_of_ne hid

/-! ## 5. The sources that are left -/

/-- The breakers of a tag count as many failures behind the turns of some sources as have been
foretold. -/
def Counts (k : Outlook) (e : Errand) (rest : List Source) (w : World σ) : Prop :=
  ∀ id, e.seat.Owns id → k.counts e id rest (w.breaker id).failures = k.count e id

/-- The sources that are left lead to what has been foretold. -/
structure Remains (k : Outlook) (e : Errand) (rest : List Source) (n : Nat) (w : World σ) :
    Prop where
  suffix : rest <:+ e.seat.tag.sources
  fate : k.fate e = some (k.outcome e rest n)
  counts : k.Counts e rest w

theorem Counts.congr (h : k.Counts e rest w)
    (hsame : ∀ id, e.seat.Owns id → (w'.breaker id).failures = (w.breaker id).failures) :
    k.Counts e rest w' := by
  intro id hid
  rw [hsame id hid]
  exact h id hid

theorem Remains.congr (h : k.Remains e rest n w)
    (hsame : ∀ id, e.seat.Owns id → (w'.breaker id).failures = (w.breaker id).failures) :
    k.Remains e rest n w' := ⟨h.suffix, h.fate, h.counts.congr hsame⟩

/-- The sources behind another one have other breakers. -/
theorem Remains.source_ne (h : k.Remains e (s :: rest) n w) (hb : e.seat.tag.Built) :
    ∀ s' ∈ rest, e.seat.source s ≠ e.seat.source s' := by
  have hn : ((s :: rest).map (·.index)).Nodup := hb.nodup.sublist (h.suffix.sublist.map _)
  rw [List.map_cons, List.nodup_cons] at hn
  refine fun s' hs => Seat.source_ne fun heq => hn.1 ?_
  rw [heq]
  exact List.mem_map_of_mem hs

/-- A turn that passes on leaves the sources behind it. -/
theorem Remains.passes (h : k.Remains e (s :: rest) n w) (hp : (k.ending e s).passesOn = true)
    (hcount : ∀ id, (w'.breaker id).failures = k.countBehind e s id (w.breaker id).failures) :
    k.Remains e rest (n + (k.ending e s).attempts) w' := by
  refine ⟨(List.suffix_cons s rest).trans h.suffix, ?_, fun id hid => ?_⟩
  · rw [h.fate, outcome, if_pos hp]
  · have hc := h.counts id hid
    rw [Outlook.counts, if_pos hp] at hc
    rw [hcount]
    exact hc

/-- A turn that does not pass on is the end of the tag. -/
theorem Remains.closes (h : k.Remains e (s :: rest) n w) (hp : (k.ending e s).passesOn = false)
    (hcount : ∀ id, (w'.breaker id).failures = k.countBehind e s id (w.breaker id).failures) :
    k.fate e = some ((k.ending e s).close e.seat.tag (n + (k.ending e s).attempts)) ∧
      k.Counts e [] w' := by
  have hp : ¬ (k.ending e s).passesOn = true := ne_true_of_eq_false hp
  refine ⟨?_, fun id hid => ?_⟩
  · rw [h.fate, outcome, if_neg hp]
  · have hc := h.counts id hid
    rw [Outlook.counts, if_neg hp] at hc
    rw [Outlook.counts, hcount]
    exact hc

/-- A turn without an attempt counts nothing. -/
theorem countBehind_of_untried (hn : (k.ending e s).attempts = 0)
    (hb : w.breaker (e.seat.source s) = k.breaker (e.seat.source s))
    (hsame : ∀ id, w'.breaker id = w.breaker id) (id : SourceId) :
    (w'.breaker id).failures = k.countBehind e s id (w.breaker id).failures := by
  rw [hsame, countBehind]
  split
  · rename_i hid
    rw [Ending.mark_of_untried hn, ← hid, hb]
  · rfl

/-- A fetch is under way behind `n` attempts, and some sources are left behind it. -/
structure Awaits (k : Outlook) (e : Errand) (f : Fetch) (n : Nat) (rest : List Source)
    (w : World σ) : Prop where
  remains : k.Remains e (f.source :: rest) n w
  untouched : ∀ s ∈ rest, w.breaker (e.seat.source s) = k.breaker (e.seat.source s)
  ending : f.ending = k.ending e f.source
  granted : ∃ called, (k.breaker (e.seat.source f.source)).grant k.resolver.breakers called =
    (w.breaker (e.seat.source f.source), some f.admission)

theorem Awaits.congr (h : k.Awaits e f n rest w)
    (hsame : ∀ id, e.seat.Owns id → w'.breaker id = w.breaker id) : k.Awaits e f n rest w' := by
  refine ⟨h.remains.congr fun id hid => congrArg _ (hsame id hid), fun s hs => ?_, h.ending, ?_⟩
  · rw [hsame _ (e.seat.owns_source s)]
    exact h.untouched s hs
  · rw [hsame _ (e.seat.owns_source f.source)]
    exact h.granted

/-- The end of a fetch counts what has been foretold. -/
theorem Awaits.count_eq (h : k.Awaits e f n rest w) (id : SourceId) :
    ((k.resolver.settle e f w).1.breaker id).failures =
      k.countBehind e f.source id (w.breaker id).failures := by
  obtain ⟨called, hg⟩ := h.granted
  unfold countBehind
  split
  · rename_i hid
    subst hid
    rw [Resolver.failures_settle hg rfl k.now, h.ending]
  · rename_i hid
    rw [Resolver.breaker_settle_of_ne hid]

/-- The breakers of the sources behind a fetch are as they were at first. -/
theorem Awaits.untouched_settle (h : k.Awaits e f n rest w) (hb : e.seat.tag.Built) :
    ∀ s ∈ rest, (k.resolver.settle e f w).1.breaker (e.seat.source s) =
      k.breaker (e.seat.source s) := fun s hs =>
  (Resolver.breaker_settle_of_ne (h.remains.source_ne hb s hs)).trans (h.untouched s hs)

/-! ## 6. Visits -/

/-- A visit leads to what has been foretold of its tag, outcome and counts. -/
def LeadsTo (k : Outlook) (e : Errand) (w : World σ) : Progress → Prop
  | .omitted => k.fate e = none ∧ k.Counts e [] w
  | .done out => k.fate e = some out ∧ k.Counts e [] w
  | .fetching f n rest => ∃ m, n = m + 1 ∧ k.Awaits e f m rest w

/-- **What other tags do is of no matter.** -/
theorem LeadsTo.congr (h : k.LeadsTo e w p)
    (hsame : ∀ id, e.seat.Owns id → w'.breaker id = w.breaker id) : k.LeadsTo e w' p := by
  have hcounts : k.Counts e [] w → k.Counts e [] w' :=
    fun hc => hc.congr fun id hid => congrArg _ (hsame id hid)
  cases p with
  | omitted => exact ⟨h.1, hcounts h.2⟩
  | done out => exact ⟨h.1, hcounts h.2⟩
  | fetching f n rest =>
    obtain ⟨m, hn, hm⟩ := h
    exact ⟨m, hn, hm.congr hsame⟩

/-- **The end of a fetch** is that of its tag, or leaves the sources behind it. -/
theorem Awaits.settle (h : k.Awaits e f n rest w) :
    match (k.resolver.settle e f w).2 with
    | .won r => k.LeadsTo e (k.resolver.settle e f w).1 (.done ⟨n + 1, .ok r⟩)
    | .gone err => k.LeadsTo e (k.resolver.settle e f w).1 (.done ⟨n + 1, .error err⟩)
    | .late =>
      k.LeadsTo e (k.resolver.settle e f w).1 (.done (Resolver.giveUp e.seat.tag (n + 1)))
    | .next => k.Remains e rest (n + 1) (k.resolver.settle e f w).1 := by
  have hcloses := fun hp => h.remains.closes hp h.count_eq
  have hpasses := fun hp => h.remains.passes hp h.count_eq
  rw [← h.ending] at hcloses hpasses
  rw [Resolver.snd_settle]
  rcases f.ending_cases with ⟨r, -, he⟩ | ⟨err, -, ⟨-, he⟩ | ⟨-, -, he⟩ | ⟨-, -, he⟩⟩
  · rw [he] at hcloses ⊢
    exact hcloses rfl
  · rw [he] at hcloses ⊢
    exact hcloses rfl
  · rw [he] at hcloses ⊢
    exact hcloses rfl
  · rw [he] at hpasses ⊢
    exact hpasses rfl

/-- **Going on with sources leads to what has been foretold**, if the clock has not gone too far
then. -/
theorem leadsTo_advance (hk : k.Holds o e stores til) (hw : k.Opens e stores w)
    (hr : k.Remains e rest n w)
    (hb : ∀ s ∈ rest, w.breaker (e.seat.source s) = k.breaker (e.seat.source s))
    (htil : (Visit.advance k.resolver o e rest time n w).1.now ≤ til) :
    k.LeadsTo e (Visit.advance k.resolver o e rest time n w).1
      (Visit.advance k.resolver o e rest time n w).2 := by
  induction rest generalizing n w with
  | nil => exact ⟨hr.fate, hr.counts⟩
  | cons s rest ih =>
    obtain ⟨hbs, hbrest⟩ := List.forall_mem_cons.1 hb
    have hspends := Visit.spends_advance k.resolver o e (s :: rest) time n w
    have hfits := fits_ask hk hw (Nat.le_trans hspends.le_now htil)
      (hr.suffix.subset List.mem_cons_self) hbs time
    have hask := k.resolver.spends_ask o e s time w
    unfold Visit.advance at htil ⊢
    generalize k.resolver.ask o e s time w = asked at hfits hask htil ⊢
    obtain ⟨w₁, asked⟩ := asked
    dsimp only at hfits hask htil ⊢
    have hw₁ := hw.spends hask hw.uncached
    cases hfits with
    | late ending same =>
      have hclose := hr.closes (by rw [ending]; rfl)
        (countBehind_of_untried (by rw [ending]; rfl) hbs same)
      rw [ending] at hclose
      exact hclose
    | passedOver passes untried same =>
      have hrest := hr.passes passes (countBehind_of_untried untried hbs same)
      rw [untried] at hrest
      exact ih hw₁ hrest (fun s hs => (same _).trans (hbrest s hs)) htil
    | @fetching f called source ending granted others =>
      subst source
      have hawaits : k.Awaits e f n rest w₁ := by
        refine ⟨hr.congr fun id _ => ?_, fun s hs => ?_, ending, called, granted⟩
        · by_cases hid : e.seat.source f.source = id
          · have hf := Breaker.failures_grant (k.breaker id) k.resolver.breakers called
            rw [← hid, granted] at hf
            rw [← hid, hbs]
            exact hf
          · rw [others id hid]
        · rw [others _ (hr.source_ne hk.built s hs)]
          exact hbrest s hs
      dsimp only at htil ⊢
      split at htil
      · rename_i hlt
        rw [if_pos hlt]
        exact ⟨n, rfl, hawaits⟩
      · rename_i hlt
        rw [if_neg hlt]
        have hsettle := hawaits.settle
        have hleft := hawaits.untouched_settle hk.built
        have hspent := k.resolver.spends_settle e f w₁
        generalize k.resolver.settle e f w₁ = settled at hsettle hleft hspent htil ⊢
        obtain ⟨w₂, settled⟩ := settled
        dsimp only at hsettle hleft hspent htil ⊢
        cases settled with
        | next => exact ih (hw₁.spends hspent hw₁.uncached) hsettle hleft htil
        | _ => exact hsettle

/-- **A visit that begins leads to what has been foretold.** -/
theorem leadsTo_start (hk : k.Holds o e stores til) (hw : k.Opens e stores w)
    (hb : ∀ id, e.seat.Owns id → w.breaker id = k.breaker id)
    (htil : (Visit.start k.resolver o e w).1.now ≤ til) :
    k.LeadsTo e (Visit.start k.resolver o e w).1 (Visit.start k.resolver o e w).2 := by
  have hcount : k.Counts e e.tried w := fun id hid => by rw [hb id hid, count]
  unfold Visit.start at htil ⊢
  cases hi : Visit.isWanted e with
  | false =>
    have htried : e.tried = [] := by
      unfold Errand.tried
      rw [hi, Bool.false_and, if_neg Bool.false_ne_true]
    refine ⟨?_, htried ▸ hcount⟩
    unfold fate
    rw [hi, if_neg Bool.false_ne_true]
  | true =>
    have hfate : k.fate e = some (k.outcome e e.tried 0) := by
      unfold fate
      rw [hi, if_pos rfl]
    have htried : e.tried = if e.seat.tag.fault.isNone then e.seat.tag.sources else [] := by
      unfold Errand.tried
      rw [hi, Bool.true_and]
    rw [hi, Bool.not_true, if_neg Bool.false_ne_true] at htil
    rw [Bool.not_true, if_neg Bool.false_ne_true]
    unfold Resolver.refusal? at htil ⊢
    rw [hk.stays] at htil ⊢
    cases hf : e.seat.tag.fault with
    | some fault =>
      rw [hf] at htried
      rw [htried] at hfate hcount
      exact ⟨hfate, hcount⟩
    | none =>
      rw [hf] at htried htil
      have htried : e.tried = e.seat.tag.sources := htried
      rw [htried] at hfate hcount
      exact leadsTo_advance hk hw ⟨List.suffix_refl _, hfate, hcount⟩
        (fun s _ => hb _ (e.seat.owns_source s)) htil

/-- **A visit that goes on leads to what has been foretold.** -/
theorem LeadsTo.resume (h : k.LeadsTo e w p) (hk : k.Holds o e stores til)
    (hw : k.Opens e stores w) (htil : (Visit.resume k.resolver o e w p).1.now ≤ til) :
    k.LeadsTo e (Visit.resume k.resolver o e w p).1 (Visit.resume k.resolver o e w p).2 := by
  cases p with
  | omitted => exact h
  | done out => exact h
  | fetching f n rest =>
    obtain ⟨m, rfl, hawaits⟩ := h
    have hsettle := hawaits.settle
    have hleft := hawaits.untouched_settle hk.built
    have hspent := k.resolver.spends_settle e f w
    unfold Visit.resume at htil ⊢
    dsimp only at htil ⊢
    generalize k.resolver.settle e f w = settled at hsettle hleft hspent htil ⊢
    obtain ⟨w', settled⟩ := settled
    dsimp only at hsettle hleft hspent htil ⊢
    cases settled with
    | next => exact leadsTo_advance hk (hw.spends hspent hw.uncached) hsettle hleft htil
    | _ => exact hsettle

/-- What has come of a tag, as the progress of a visit that has ended. -/
def ended : Option Resolver.Outcome → Progress
  | none => .omitted
  | some out => .done out

/-- **A visit that has ended has come to what has been foretold.** -/
theorem LeadsTo.progress_eq {visit : Visit} (h : k.LeadsTo visit.errand w visit.progress)
    (he : visit.ends? = none) : visit.progress = ended (k.fate visit.errand) := by
  obtain ⟨party, e, p⟩ := visit
  cases p with
  | omitted => exact (congrArg ended h.1).symm
  | done out => exact (congrArg ended h.1).symm
  | fetching f n rest => cases he

theorem LeadsTo.count_eq {visit : Visit} (h : k.LeadsTo visit.errand w visit.progress)
    (he : visit.ends? = none) {id : SourceId} (hid : visit.errand.seat.Owns id) :
    (w.breaker id).failures = k.count visit.errand id := by
  obtain ⟨party, e, p⟩ := visit
  cases p with
  | omitted => exact h.2 id hid
  | done out => exact h.2 id hid
  | fetching f n rest => cases he

end Outlook

end EdgeInclude

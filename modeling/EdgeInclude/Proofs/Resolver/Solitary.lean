import EdgeInclude.Proofs.Resolver.Foretold
import EdgeInclude.Proofs.Resolver.AnyOrder
import EdgeInclude.Proofs.Resolver.Blame

/-!
# A tag whose only source keeps failing

A request asks the backend of such a tag at most once, and only if the breaker lets it through. The
fetch fails, which is one failure more on the breaker, or it ends with the request, which leaves the
breaker as it was. In between, the other tags of the page, and their order, are of no matter.

* `Resolver.KeepsFailing` — the backend of a source answers with failures that count.
* `Resolver.EndsWithRequest` — why a fetch of such a source may end without one.
* `Fetch.Loses` — how it ends.
* `Resolver.Trial`, `Resolver.Leaves` — what a request makes of the breaker.
* `Visit.Standing` — where the visit of such a tag stands; `Agenda.Watched` — in the run of a page.
* `Resolver.exists_trial` — what has become of the breaker when the page is resolved.
-/

namespace EdgeInclude

variable {σ : Type}

/-- How a fetch ends that brings no answer: with a failure that counts, or, if there is a reason for
it, with the request. -/
inductive Fetch.Loses (why : Prop) (f : Fetch) : Prop where
  | failed {err : Failure} (ending : f.ending = .failed err) (counts : err.tripsBreaker = true)
  | withdrawn (ending : f.ending.IsWithdrawal) (reason : why)

theorem Fetch.Loses.ne_won {why : Prop} {f : Fetch} (h : f.Loses why) (r : Response) :
    f.ending ≠ .won r := by
  intro hr
  cases h with
  | failed ending => cases ending.symm.trans hr
  | withdrawn ending => exact ending.ne_won r hr

namespace Resolver

/-! ## 1. Fetches that fail -/

/-- With some stores, the backend of a source answers every call with a failure that counts. -/
def KeepsFailing (v : Resolver) (o : Surroundings σ) (e : Errand) (s : Source)
    (stores : List (Nat × Store)) : Prop :=
  ∀ b, v.registry.find (address e s) s.isUrl = .ok b → ∀ outside now, ∃ err,
    (b.fetch o ⟨outside, stores⟩ (v.callAt e s now)).2.result = .error err ∧ err.tripsBreaker = true

/-- An answer says that some time is over, or it does not come before the time of its fetch is. -/
def SaysLate (limit : Duration) (a : Answer) : Prop :=
  (∃ err, a.result = .error err ∧ isTimeout err = true) ∨
    ∀ d, a.after = some d → limit.ceilMillis < d

/-- Why a fetch that begins at a time of the clock may end with its request: the request is given up
some time, or its deadline limits the fetch and the backend is late or says so. -/
inductive EndsWithRequest (v : Resolver) (o : Surroundings σ) (e : Errand) (s : Source)
    (stores : List (Nat × Store)) (now : Nat) : Prop where
  | givenUp (leaves : e.departure ≠ .never)
  | outOfTime {b : Backend} {outside : σ} (bound : (v.budget e.seat.tag e.request now).2 = true)
      (known : v.registry.find (address e s) s.isUrl = .ok b)
      (late : SaysLate (v.budget e.seat.tag e.request now).1
        (b.fetch o ⟨outside, stores⟩ (v.callAt e s now)).2)

variable {v : Resolver} {o : Surroundings σ} {e : Errand} {s : Source} {w w₀ u : World σ}
  {stores : List (Nat × Store)} {time n : Nat} {f : Fetch} {answer : Answer} {err : Failure}
  {why : Prop}

/-- A fetch whose outcome is a failure that counts. -/
theorem loses_of_error (ho : f.outcome = .error err) (hc : err.tripsBreaker = true)
    (hb : f.bound = true → isTimeout err = true → why) : f.Loses why := by
  have hending : f.ending = if isTimeout err && f.bound then .outOfTime err else .failed err := by
    unfold Fetch.ending
    rw [ho]
    dsimp only
    rw [isCancelled_of_counts hc, if_neg Bool.false_ne_true]
  by_cases hbound : (isTimeout err && f.bound) = true
  · rw [if_pos hbound] at hending
    obtain ⟨htime, hlimit⟩ := (Bool.and_eq_true ..).mp hbound
    exact .withdrawn (hending ▸ trivial) (hb hlimit htime)
  · rw [if_neg hbound] at hending
    exact .failed hending hc

/-- **A fetch whose backend answers with a failure that counts.** -/
theorem loses_fetchOf (hr : answer.result = .error err) (hc : err.tripsBreaker = true)
    (hgone : e.departure ≠ .never → why)
    (hlate : (v.allowance e s w).2 = true → SaysLate (v.allowance e s w).1 answer → why)
    (time : Nat) (a : Admission) : (v.fetchOf o e s w time a answer).Loses why := by
  have hend : ∃ err', (ending (address e s) (v.allowance e s w).1 time answer).2 = .error err' ∧
      err'.tripsBreaker = true ∧
        (isTimeout err' = true → SaysLate (v.allowance e s w).1 answer) := by
    unfold ending SaysLate
    dsimp only
    cases answer.after with
    | none =>
      refine ⟨_, rfl, rfl, fun _ => .inr fun d hd => ?_⟩
      cases hd
    | some d =>
      dsimp only
      split
      · exact ⟨err, hr, hc, fun ht => .inl ⟨err, hr, ht⟩⟩
      · rename_i hd
        refine ⟨_, rfl, rfl, fun _ => .inr fun d' hd' => ?_⟩
        exact Option.some.inj hd' ▸ Nat.lt_of_not_le hd
  obtain ⟨err', herr, hc', hover⟩ := hend
  have hbound : (v.fetchOf o e s w time a answer).bound = true → isTimeout err' = true → why :=
    fun hb ht => hlate hb (hover ht)
  have hout : (v.fetchOf o e s w time a answer).outcome = (cutShort (address e s) e.departure
      (ending (address e s) (v.allowance e s w).1 time answer)).2 := rfl
  by_cases hd : e.departure = .never
  · rw [hd] at hout
    exact loses_of_error (hout.trans herr) hc' hbound
  · rcases cutShort_cases (address e s) e.departure
      (ending (address e s) (v.allowance e s w).1 time answer) with hcut | ⟨m, hcut⟩
    · rw [hcut] at hout
      exact loses_of_error (hout.trans herr) hc' hbound
    · rw [hcut] at hout
      exact .withdrawn (Fetch.isWithdrawal_of_cancelled hout) (hgone hd)

/-! ## 2. Trials -/

/-- A call of the backend of a source: when the breaker has let it through, and when it has failed,
if it has not ended with the request. -/
structure Trial where
  called : Nat
  failed : Option Nat
  deriving DecidableEq, Repr

/-- What a request between two times makes of the breaker of a source: nothing, if it does not call
the backend, or if there is a reason for the call to end with the request; and else one failure
more. -/
inductive Leaves (p : BreakerPolicy) (why : Nat → Prop) (b : Breaker) (lo hi : Nat) :
    Option Trial → Breaker → Prop where
  | untried (le : lo ≤ hi) : Leaves p why b lo hi none b
  | withdrawn {called : Nat} {b' : Breaker} {a : Admission}
      (granted : b.grant p called = (b', some a)) (since : lo ≤ called) (til : called ≤ hi)
      (reason : why called) : Leaves p why b lo hi (some ⟨called, none⟩) b
  | failed {called failed : Nat} {b' : Breaker} {a : Admission}
      (granted : b.grant p called = (b', some a)) (since : lo ≤ called) (took : called ≤ failed)
      (til : failed ≤ hi) : Leaves p why b lo hi (some ⟨called, some failed⟩) (b.fail failed)

section Leaves

variable {p : BreakerPolicy} {why : Nat → Prop} {b b' : Breaker} {lo hi hi' : Nat} {t : Trial}
  {entry : Option Trial}

theorem Leaves.mono (h : Leaves p why b lo hi entry b') (hle : hi ≤ hi') :
    Leaves p why b lo hi' entry b' := by
  cases h with
  | untried le => exact .untried (Nat.le_trans le hle)
  | withdrawn granted since til reason =>
    exact .withdrawn granted since (Nat.le_trans til hle) reason
  | failed granted since took til => exact .failed granted since took (Nat.le_trans til hle)

/-- The breaker has gone through the failure of the trial, and through nothing else. -/
theorem Leaves.breaker_eq (h : Leaves p why b lo hi entry b') :
    b' = (entry.bind (·.failed)).toList.foldl Breaker.fail b := by
  cases h <;> rfl

theorem Leaves.le (h : Leaves p why b lo hi entry b') : lo ≤ hi := by
  cases h with
  | untried le => exact le
  | withdrawn _ since til => exact Nat.le_trans since til
  | failed _ since took til => exact Nat.le_trans since (Nat.le_trans took til)

theorem Leaves.granted (h : Leaves p why b lo hi (some t) b') :
    ∃ left a, b.grant p t.called = (left, some a) := by
  cases h with
  | withdrawn granted => exact ⟨_, _, granted⟩
  | failed granted => exact ⟨_, _, granted⟩

theorem Leaves.since (h : Leaves p why b lo hi (some t) b') : lo ≤ t.called := by
  cases h with
  | withdrawn _ since => exact since
  | failed _ since => exact since

theorem Leaves.til (h : Leaves p why b lo hi (some t) b') : t.called ≤ hi := by
  cases h with
  | withdrawn _ _ til => exact til
  | failed _ _ took til => exact Nat.le_trans took til

theorem Leaves.ends (h : Leaves p why b lo hi (some t) b') :
    ∀ f ∈ t.failed, t.called ≤ f ∧ f ≤ hi := by
  cases h with
  | withdrawn => exact fun _ hf => absurd hf (Option.not_mem_none _)
  | failed _ _ took til =>
    intro f hf
    cases hf
    exact ⟨took, til⟩

theorem Leaves.reason (h : Leaves p why b lo hi (some t) b') (hf : t.failed = none) :
    why t.called := by
  cases h with
  | withdrawn _ _ _ reason => exact reason
  | failed => cases hf

end Leaves

/-- The end of a fetch of a source that keeps failing. -/
theorem exists_leaves_settle {b b' : Breaker} {called lo : Nat} {why : Nat → Prop}
    (hf : f.Loses (why called)) (hg : b.grant v.breakers called = (b', some f.admission))
    (hu : u.breaker (e.seat.source f.source) = b') (hlo : lo ≤ called) (hle : called ≤ u.now) :
    ∃ t, Leaves v.breakers why b lo (v.settle e f u).1.now (some t)
      ((v.settle e f u).1.breaker (e.seat.source f.source)) := by
  have hnow := (v.spends_settle e f u).le_now
  rw [breaker_settle hg hu fun r hr => absurd hr (hf.ne_won r)]
  cases hf with
  | @failed err ending counts =>
    have hmark : ∀ now, f.ending.mark now b = b.fail now := fun now => by
      rw [ending]
      exact if_pos counts
    rw [hmark]
    exact ⟨_, .failed hg hlo (Nat.le_trans hle hnow) (Nat.le_refl _)⟩
  | withdrawn ending reason =>
    rw [ending.mark_eq]
    exact ⟨_, .withdrawn hg hlo (Nat.le_trans hle hnow) reason⟩

/-- What comes of trying a source: its breaker is as it was, or lets through a fetch that fails. -/
def Tries (v : Resolver) (o : Surroundings σ) (e : Errand) (s : Source) (w w' : World σ) :
    Asked → Prop
  | .fetching f => f.source = s ∧
      ∃ called, f.Loses (v.EndsWithRequest o e s w.reach.stores called) ∧ w.now ≤ called ∧
        called ≤ w'.now ∧ (w.breaker (e.seat.source s)).grant v.breakers called =
          (w'.breaker (e.seat.source s), some f.admission)
  | _ => w'.breaker (e.seat.source s) = w.breaker (e.seat.source s)

theorem tries_launch {a : Admission} (hfail : v.KeepsFailing o e s w.reach.stores)
    (hg : v.granted e s w = ((v.granted e s w).1, some a)) (time : Nat) :
    let asked := v.launch o e s (address e s) time (v.allowance e s w) a
      ((v.searched e s w).setBreaker (e.seat.source s) (v.granted e s w).1)
    Tries v o e s w asked.1 asked.2 := by
  have hsearch := v.spends_lookup e (fragmentKey e s) w
  unfold granted at hg
  rw [breaker_searched] at hg
  dsimp only
  rw [launch_eq]
  cases hk : v.registry.find (address e s) s.isUrl with
  | error err =>
    -- nothing is called, and a probe that has been granted is given back
    show World.breaker (World.onBreaker _ _ _) _ = _
    rw [World.breaker_onBreaker_self, World.breaker_setBreaker_self]
    unfold granted
    rw [breaker_searched]
    exact Breaker.release_grant hg
  | ok backend =>
    obtain ⟨err, hr, hc⟩ := hfail backend hk w.reach.outside (v.searched e s w).now
    have hreach : (v.searched e s w).reach = ⟨w.reach.outside, w.reach.stores⟩ := reach_searched ..
    rw [← hreach] at hr
    refine ⟨rfl, (v.searched e s w).now, loses_fetchOf hr hc .givenUp ?_ time a, hsearch.le_now,
      Nat.le_refl _, ?_⟩
    · intro hbound hlate
      rw [hreach] at hlate
      exact .outOfTime hbound hk hlate
    · show _ = (World.breaker (World.setBreaker _ _ _) _, _)
      rw [World.breaker_setBreaker_self]
      unfold granted
      rw [breaker_searched]
      exact hg

/-- **A trial of a source that keeps failing.** -/
theorem tries_ask (hfail : v.KeepsFailing o e s w.reach.stores) (time : Nat) :
    Tries v o e s w (v.ask o e s time w).1 (v.ask o e s time w).2 := by
  have hb : (v.searched e s w).breaker (e.seat.source s) = w.breaker (e.seat.source s) :=
    breaker_searched ..
  rw [ask_eq]
  split
  · exact hb
  · split
    · exact hb
    · split
      · exact hb
      · rename_i a ha
        exact tries_launch hfail (Prod.ext rfl ha) time

end Resolver

/-! ## 3. The visit of the tag -/

namespace Visit

/-- Where the visit of a tag with one source stands, in a run from a world on: either its breaker
has let a fetch through that is under way, or what its request makes of the breaker has been done.
-/
def Standing (v : Resolver) (o : Surroundings σ) (e : Errand) (s : Source) (w₀ w : World σ) :
    Progress → Prop
  | .omitted => w.breaker (e.seat.source s) = w₀.breaker (e.seat.source s)
  | .done out => ∃ t, Resolver.Leaves v.breakers (v.EndsWithRequest o e s w₀.reach.stores)
      (w₀.breaker (e.seat.source s)) w₀.now w.now t (w.breaker (e.seat.source s)) ∧
        out.attempts = if t.isSome then 1 else 0
  | .fetching f n rest => n = 1 ∧ rest = [] ∧ f.source = s ∧
      ∃ called, f.Loses (v.EndsWithRequest o e s w₀.reach.stores called) ∧ w₀.now ≤ called ∧
        called ≤ w.now ∧ (w₀.breaker (e.seat.source s)).grant v.breakers called =
          (w.breaker (e.seat.source s), some f.admission)

variable {v : Resolver} {o : Surroundings σ} {e e' : Errand} {s : Source} {w w' w₀ : World σ}
  {p : Progress} {n : Nat} {f : Fetch}

/-- What other tags do is of no matter. -/
theorem Standing.frame (h : Standing v o e s w₀ w p) (hm : v.Spends e' w w')
    (hne : ¬ e'.seat.Owns (e.seat.source s)) : Standing v o e s w₀ w' p := by
  have hb := hm.breaker _ hne
  cases p with
  | omitted => exact hb.trans h
  | done out =>
    obtain ⟨t, ht, hout⟩ := h
    refine ⟨t, ?_, hout⟩
    rw [hb]
    exact ht.mono hm.le_now
  | fetching f n rest =>
    obtain ⟨hn, hrest, hs, called, hf, hlo, hle, hg⟩ := h
    refine ⟨hn, hrest, hs, called, hf, hlo, Nat.le_trans hle hm.le_now, ?_⟩
    rw [hb]
    exact hg

/-- The visit whose breaker is as it was has made no call. -/
theorem standing_of_breaker_eq (h : w.breaker (e.seat.source s) = w₀.breaker (e.seat.source s))
    (hle : w₀.now ≤ w.now)
    (out : Resolver.Outcome) (ho : out.attempts = 0) : Standing v o e s w₀ w (.done out) :=
  ⟨none, h ▸ .untried hle, ho⟩

/-- The end of the only fetch is the end of the tag. -/
theorem standing_settle {called : Nat} (hs : f.source = s)
    (hf : f.Loses (v.EndsWithRequest o e s w₀.reach.stores called)) (hlo : w₀.now ≤ called)
    (hle : called ≤ w.now) (hg : (w₀.breaker (e.seat.source s)).grant v.breakers called =
      (w.breaker (e.seat.source s), some f.admission)) (out : Resolver.Outcome)
    (ho : out.attempts = 1) : Standing v o e s w₀ (v.settle e f w).1 (.done out) := by
  subst hs
  obtain ⟨t, ht⟩ := Resolver.exists_leaves_settle hf hg rfl hlo hle
  exact ⟨some t, ht, ho⟩

/-- **The visit of the tag goes on.** -/
theorem Standing.resume (h : Standing v o e s w₀ w p) :
    Standing v o e s w₀ (resume v o e w p).1 (resume v o e w p).2 := by
  cases p with
  | omitted => exact h
  | done out => exact h
  | fetching f n rest =>
    obtain ⟨rfl, rfl, hs, called, hf, hlo, hle, hg⟩ := h
    have hend := standing_settle hs hf hlo hle hg
    unfold Visit.resume
    dsimp only
    generalize v.settle e f w = settled at hend
    obtain ⟨u, settled⟩ := settled
    cases settled <;> exact hend _ rfl

/-- **The only source of the tag is tried.** -/
theorem standing_advance (hfail : v.KeepsFailing o e s w₀.reach.stores)
    (hb : w.breaker (e.seat.source s) = w₀.breaker (e.seat.source s)) (hle : w₀.now ≤ w.now)
    (hst : w.reach.stores = w₀.reach.stores) :
    Standing v o e s w₀ (advance v o e [s] 0 0 w).1 (advance v o e [s] 0 0 w).2 := by
  have hask := Resolver.tries_ask (hst ▸ hfail) 0
  have hnow := Nat.le_trans hle (v.spends_ask o e s 0 w).le_now
  unfold advance
  generalize v.ask o e s 0 w = asked at hask hnow
  obtain ⟨w', asked⟩ := asked
  cases asked with
  | fetching f =>
    obtain ⟨hs, called, hf, hlo, hhi, hg⟩ := hask
    rw [hst] at hf
    dsimp only at hhi hg ⊢
    rw [hb] at hg
    split
    · exact ⟨rfl, rfl, hs, called, hf, Nat.le_trans hle hlo, hhi, hg⟩
    · have hend := standing_settle hs hf (Nat.le_trans hle hlo) hhi hg
      generalize v.settle e f w' = settled at hend
      obtain ⟨u, settled⟩ := settled
      cases settled <;> exact hend _ rfl
  | _ => exact standing_of_breaker_eq (Eq.trans hask hb) hnow _ rfl

/-- **The visit of the tag begins.** -/
theorem standing_start (hsource : e.seat.tag.sources = [s])
    (hfail : v.KeepsFailing o e s w₀.reach.stores)
    (hb : w.breaker (e.seat.source s) = w₀.breaker (e.seat.source s)) (hle : w₀.now ≤ w.now)
    (hst : w.reach.stores = w₀.reach.stores) :
    Standing v o e s w₀ (start v o e w).1 (start v o e w).2 := by
  unfold start
  split
  · exact hb
  · split
    · exact standing_of_breaker_eq hb hle _ rfl
    · rw [hsource]
      exact standing_advance hfail hb hle hst

end Visit

/-! ## 4. The run of the page -/

namespace Agenda

/-- A scene of the run of a page, with the visit of its tag at `i`. -/
structure Watched (v : Resolver) (o : Surroundings σ) (i : Nat) (e : Errand) (s : Source)
    (w₀ : World σ) (c : Scene σ) : Prop where
  waits : c.visits.length ≤ i →
    c.world.breaker (e.seat.source s) = w₀.breaker (e.seat.source s)
  standing : ∀ visit, c.visits[i]? = some visit → Visit.Standing v o e s w₀ c.world visit.progress

variable {v : Resolver} {o : Surroundings σ} {es : List Errand} {i : Nat} {e e' : Errand}
  {s : Source} {w w' w₀ : World σ} {a : Agenda} {c : Scene σ} {visit : Visit}

/-- **A tag begins.** -/
theorem Watched.begins (apart : AreApart es) (hi : es[i]? = some e)
    (hsource : e.seat.tag.sources = [s]) (hfail : v.KeepsFailing o e s w₀.reach.stores)
    (before : AnyOrder v o es w₀ ⟨w, a⟩) (h : Watched v o i e s w₀ ⟨w, a⟩)
    (next : es[a.length]? = some e') :
    Watched v o i e s w₀ ⟨(Visit.start v o e' w).1, a ++ [⟨0, e', (Visit.start v o e' w).2⟩]⟩ := by
  have hm := Visit.spends_start v o e' w
  have hlength : (a ++ [(⟨0, e', (Visit.start v o e' w).2⟩ : Visit)]).length = a.length + 1 :=
    List.length_append
  have hne : i ≠ a.length → ¬ e'.seat.Owns (e.seat.source s) := fun hne =>
    apart.disjoint hi next hne (e.seat.owns_source s)
  refine ⟨fun hle => ?_, fun visit hv => ?_⟩
  · rw [hlength] at hle
    exact (hm.breaker _ (hne (Nat.ne_of_gt hle))).trans (h.waits (Nat.le_of_succ_le hle))
  · rcases get_concat_cases hv with ⟨hlt, hv⟩ | ⟨rfl, rfl⟩
    · exact (h.standing visit hv).frame hm (hne (Nat.ne_of_lt hlt))
    · obtain rfl := Option.some.inj (next.symm.trans hi)
      obtain ⟨hnow, hstores⟩ := before.spent
      exact Visit.standing_start hsource hfail (h.waits (Nat.le_refl _)) hnow hstores

/-- **A tag goes on.** -/
theorem Watched.goesOn (apart : AreApart es) (hi : es[i]? = some e)
    (before : AnyOrder v o es w₀ ⟨w, a⟩) (h : Watched v o i e s w₀ ⟨w, a⟩) {j : Nat}
    (at_j : a[j]? = some visit) :
    Watched v o i e s w₀ ⟨(Visit.resume v o visit.errand w visit.progress).1,
      a.set j { visit with
        progress := (Visit.resume v o visit.errand w visit.progress).2 }⟩ := by
  have hm := Visit.spends_resume v o visit.errand w visit.progress
  have hj := (before.errand_at at_j).1
  have hne : i ≠ j → ¬ visit.errand.seat.Owns (e.seat.source s) := fun hne =>
    apart.disjoint hi hj hne (e.seat.owns_source s)
  obtain ⟨hlt, -⟩ := List.getElem?_eq_some_iff.1 at_j
  refine ⟨fun hle => ?_, fun visit' hv => ?_⟩
  · rw [List.length_set] at hle
    exact (hm.breaker _ (hne (Nat.ne_of_gt (Nat.lt_of_lt_of_le hlt hle)))).trans (h.waits hle)
  · -- it is the tag itself that goes on, or one that has no breaker in common with it
    rcases get_set_cases hv with ⟨rfl, rfl⟩ | ⟨hij, hv⟩
    · rw [hj] at hi
      cases hi
      exact (h.standing visit at_j).resume
    · exact (h.standing visit' hv).frame hm (hne hij)

/-- **In runs of any order, the breaker of the tag is the tag's alone.** -/
theorem watched_of_anyOrder (apart : AreApart es) (hi : es[i]? = some e)
    (hsource : e.seat.tag.sources = [s]) (hfail : v.KeepsFailing o e s w₀.reach.stores)
    (h : AnyOrder v o es w₀ c) : Watched v o i e s w₀ c := by
  induction h with
  | start =>
    refine ⟨fun _ => rfl, fun visit hv => ?_⟩
    rw [List.getElem?_nil] at hv
    cases hv
  | begins before next ih => exact ih.begins apart hi hsource hfail before next
  | goesOn before at_i _ ih => exact ih.goesOn apart hi before at_i

end Agenda

namespace Resolver

variable {v : Resolver} {o : Surroundings σ} {es : List Errand} {i : Nat} {e : Errand} {s : Source}
  {w : World σ}

/-- How often the backends of the tag at `i` have been asked when all tags are resolved. -/
def attemptsAt (v : Resolver) (o : Surroundings σ) (es : List Errand) (i : Nat) (w : World σ) :
    Nat :=
  (((v.visitAll o es w).2[i]?).map Visit.attempts).getD 0

/-- **What becomes of the breaker of a tag** whose only source keeps failing, when its page is
resolved. -/
theorem exists_trial (apart : Agenda.AreApart es) (hi : es[i]? = some e)
    (hsource : e.seat.tag.sources = [s]) (hfail : v.KeepsFailing o e s w.reach.stores) :
    ∃ t, v.attemptsAt o es i w = (if t.isSome then 1 else 0) ∧
      Leaves v.breakers (v.EndsWithRequest o e s w.reach.stores) (w.breaker (e.seat.source s))
        w.now (v.visitAll o es w).1.now t ((v.visitAll o es w).1.breaker (e.seat.source s)) ∧
      (v.visitAll o es w).1.reach.stores = w.reach.stores := by
  obtain ⟨c, h, hc, hvisit⟩ := v.exists_anyOrder o es w
  have hw := Agenda.watched_of_anyOrder apart hi hsource hfail h
  obtain ⟨hnow, hstores⟩ := h.spent
  have hlt : i < c.visits.length := hc.begun ▸ (List.getElem?_eq_some_iff.1 hi).1
  have hget := List.getElem?_eq_getElem hlt
  have hstanding := hw.standing _ hget
  have hended := hc.ended _ (List.mem_of_getElem? hget)
  unfold attemptsAt
  rw [hvisit, hget]
  generalize c.visits[i] = visit at hstanding hended
  obtain ⟨party, e', p⟩ := visit
  cases p with
  | omitted =>
    refine ⟨none, rfl, ?_, hstores⟩
    have hb : (countFallbacks c.visits c.world).breaker (e.seat.source s) =
        w.breaker (e.seat.source s) := hstanding
    rw [hb]
    exact .untried hnow
  | done out =>
    obtain ⟨t, ht, hout⟩ := hstanding
    exact ⟨t, hout, ht, hstores⟩
  | fetching f n rest => cases hended

end Resolver

end EdgeInclude

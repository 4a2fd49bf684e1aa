import EdgeInclude.Proofs.Resolver.Withdrawal

/-!
# What is blamed on a source

The backend of a source answers in time with a failure that counts. As a rule, that is one failure
more on the breaker of the source, and the next source has its turn. The exception is an error that
says that some time is over, while the fetch has no more than the time left for its request: it is
taken for the end of that time, although this has not come.

* `Resolver.Errs` — a backend answers in time with a failure that counts.
* `Resolver.Blames` — the failure is one more on the breaker of its source, and the next one has its
  turn.
* `Resolver.Course.split` — behind a turn that passes on, the rest of the sources has its course.
* `Resolver.blames_or_withdraws` — so ends each turn in which a backend errs.
* `Resolver.exists_unblamed` — a timeout that no time has run out for, and that is not counted.
-/

namespace EdgeInclude

variable {σ : Type}

namespace Resolver

/-! ## 1. Errors of backends -/

/-- Nothing is cached for a source, its backend is called, and answers while the fetch has time with
a failure that counts. -/
structure Errs (v : Resolver) (o : Surroundings σ) (e : Errand) (t : Stop σ) (err : Failure) :
    Prop where
  bare : ∀ data, ¬ v.Kept e t.source t.start data
  left : (v.allowance e t.source t.start).1 ≠ 0
  called : ∃ backend answer, v.Called o e t.source t.start backend answer ∧
    answer.result = .error err ∧
      ∃ d, answer.after = some d ∧ d ≤ (v.allowance e t.source t.start).1.ceilMillis
  counts : err.tripsBreaker = true

/-- A failure is one more on the breaker of the source whose turn it ends, and the source behind it,
if there is one, has its turn next. -/
structure Blames (e : Errand) (w : World σ) (stops : List (Stop σ)) (t : Stop σ) (w' : World σ)
    (err : Failure) : Prop where
  ending : t.ending = .failed err
  breaker : w'.breaker (e.seat.source t.source) =
    (w.breaker (e.seat.source t.source)).fail t.final.now
  next : ∃ tried later left, stops = tried ++ t :: later ∧
    e.seat.tag.sources = tried.map (·.source) ++ t.source :: left ∧
      later.head?.map (fun t' => (t'.source, t'.start)) = left.head?.map fun s => (s, t.final)

variable {v : Resolver} {o : Surroundings σ} {e : Errand} {env : World σ → World σ → Prop}
  {rest : List Source} {s : Source} {time : Nat} {w w' : World σ} {stops : List (Stop σ)}
  {t : Stop σ} {answer : Answer} {err : Failure}

/-! ## 2. The end of a turn -/

/-- An answer in time ends the fetch, unless the request has been given up before. -/
theorem outcome_of_soon {d : Nat} (ha : answer.after = some d)
    (hd : d ≤ (v.allowance e s w).1.ceilMillis) (time : Nat) (a : Admission) :
    (v.fetchOf o e s w time a answer).outcome = answer.result ∨
      (∃ n, e.departure = .after n) ∧ (v.fetchOf o e s w time a answer).outcome =
        .error (.cancelled (String.ofList (address e s))) := by
  have hend : ending (address e s) (v.allowance e s w).1 time answer =
      (time + d, answer.result) := by
    unfold ending
    rw [ha]
    exact if_pos hd
  unfold fetchOf
  rw [hend]
  cases e.departure with
  | never => exact .inl rfl
  | already => exact .inl rfl
  | after n =>
    by_cases hn : n < time + d
    · refine .inr ⟨⟨n, rfl⟩, ?_⟩
      dsimp only [cutShort]
      rw [if_pos hn]
    · refine .inl ?_
      dsimp only [cutShort]
      rw [if_neg hn]

theorem isCancelled_of_counts (h : err.tripsBreaker = true) : err.isCancelled = false := by
  cases err <;> first | rfl | cases h

/-- **The turn in which a backend errs** ends with its failure, but for a timeout while the deadline
of the request limits the fetch: that ends the turn with the time of the request. -/
theorem Errs.ending_eq {time' : Nat} (h : v.Errs o e t err)
    (turn : Turn v o e env t.source time t.start t.ending t.call t.final time') :
    (∃ n detail, e.departure = .after n ∧ t.ending = .cancelled (.cancelled detail)) ∨
      t.ending = if isTimeout err && (v.allowance e t.source t.start).2 then .outOfTime err
        else .failed err := by
  obtain ⟨s, w, call, ending, w'⟩ := t
  obtain ⟨bare, left, ⟨backend, answer, called, hres, d, hafter, hd⟩, counts⟩ := h
  dsimp only at bare left called hd turn ⊢
  cases turn with
  | served found => exact absurd (found?_eq_some_iff.1 found) (bare _)
  | expired _ spent => exact absurd spent left
  | refused _ _ refusal =>
    obtain ⟨a, ha⟩ := called.admitted
    cases refusal.symm.trans ha
  | unserved _ _ _ unknown => cases unknown.symm.trans called.known
  | @fetched b a backend' reach answer' u missed _ admitted known answers wait =>
    cases called.unique (.of_fetch admitted known answers)
    unfold Fetch.ending
    rcases outcome_of_soon hafter hd time a with hout | ⟨⟨n, hn⟩, hout⟩
    · rw [hout, hres]
      right
      dsimp only
      rw [isCancelled_of_counts counts, if_neg Bool.false_ne_true]
      rfl
    · rw [hout]
      exact .inl ⟨n, _, hn, rfl⟩

/-- **Behind a turn that passes on, the rest of the sources has its course.** -/
theorem Course.split (h : Course v o e env rest time w stops w') (ht : t ∈ stops)
    (hp : t.ending.passesOn = true) :
    ∃ tried later left time', stops = tried ++ t :: later ∧
      rest = tried.map (·.source) ++ t.source :: left ∧
        Course v o e env left time' t.final later w' := by
  induction h with
  | exhausted => cases ht
  | decided turn decides =>
    obtain rfl := List.mem_singleton.1 ht
    exact absurd hp (ne_true_of_eq_false decides)
  | @next s rest time time' w w₁ w' ending call stops turn passes more ih =>
    rcases List.mem_cons.1 ht with rfl | ht
    · exact ⟨[], stops, rest, time', rfl, rfl, more⟩
    · obtain ⟨tried, later, left, time'', hstops, hrest, hc⟩ := ih ht
      refine ⟨⟨s, w, call, ending, w₁⟩ :: tried, later, left, time'', ?_, ?_, hc⟩
      · rw [hstops, List.cons_append]
      · rw [hrest, List.map_cons, List.cons_append]

/-- The first source has its turn at once. -/
theorem Course.head?_eq (h : Course v o e env rest time w stops w') :
    stops.head?.map (fun t => (t.source, t.start)) = rest.head?.map fun s => (s, w) := by
  cases h <;> rfl

theorem Course.blames (hb : e.seat.tag.Built) (henv : e.Spares env)
    (h : Course v o e env e.seat.tag.sources time w stops w') (ht : t ∈ stops)
    (he : t.ending = .failed err) (hc : err.tripsBreaker = true) : Blames e w stops t w' err := by
  obtain ⟨-, hmarked⟩ := h.breaker_visited henv hb.nodup (fun _ hs => hs) ht
    fun r hr => absurd (he.symm.trans hr) nofun
  obtain ⟨tried, later, left, _, hstops, hsources, hleft⟩ := h.split ht (by rw [he]; rfl)
  refine ⟨he, ?_, tried, later, left, hstops, hsources, hleft.head?_eq⟩
  rw [hmarked, he]
  exact if_pos hc

/-! ## 3. Blame -/

/-- **A failure that counts is blamed on its source**, for every tag, breaker and request, with or
without a deadline: the breaker of the source has one failure more, and the next source has its
turn, unless the request has been given up before the backend has answered. The exception is a
timeout of the backend while the deadline of the request limits the fetch: although that deadline
has not come, the turn ends as if it had, with no mark on the source, and no other source has its
turn. During a fetch others may change the world, the clock with it, as long as they leave the
breakers of the tag alone. -/
theorem blames_or_withdraws (v : Resolver) (o : Surroundings σ) (e : Errand) (w : World σ)
    (hb : e.seat.tag.Built) :
    (∃ stops, v.Resolves o e Eq w stops (v.resolve o e w).1 (v.resolve o e w).2) ∧
    ∀ env stops w' out, e.Spares env → v.Resolves o e env w stops w' out →
      ∀ t ∈ stops, ∀ err, v.Errs o e t err →
        (∃ n detail, e.departure = .after n ∧ t.ending = .cancelled (.cancelled detail)) ∨
        (¬ (isTimeout err = true ∧ (v.allowance e t.source t.start).2 = true) ∧
          Blames e w stops t w' err) ∨
        (isTimeout err = true ∧ (v.allowance e t.source t.start).2 = true ∧
          t.ending = .outOfTime err ∧ v.LeavesNoMark e env w stops t w') := by
  refine ⟨v.exists_resolves o e w, fun env stops w' out henv h t ht err herr => ?_⟩
  unfold Resolves at h
  cases hr : refusal? e with
  | some f =>
    rw [hr] at h
    obtain ⟨rfl, -, -⟩ := h
    cases ht
  | none =>
    rw [hr] at h
    obtain ⟨hc, -⟩ := h
    obtain ⟨_, _, turn⟩ := hc.exists_turn ht
    refine (herr.ending_eq turn).imp_right fun he => ?_
    by_cases hbound : (isTimeout err && (v.allowance e t.source t.start).2) = true
    · rw [if_pos hbound] at he
      obtain ⟨htime, hlimit⟩ := (Bool.and_eq_true ..).mp hbound
      exact .inr ⟨htime, hlimit, he, hc.leavesNoMark hb henv ht (he ▸ trivial)⟩
    · rw [if_neg hbound] at he
      refine .inl ⟨fun hboth => hbound ((Bool.and_eq_true ..).mpr hboth), ?_⟩
      exact hc.blames hb henv ht he herr.counts

/-! ## 4. A backend that says that it has timed out

It says so after three milliseconds, long before the time of the fetch is over. -/

namespace Impatient

def outside : Surroundings Unit where
  network _ s := (s, none, .failed ⟨true, "no network"⟩)
  program _ _ s := (s, .missing "no programs")
  custom _ _ s := (s, ⟨some 3, .error (.timeout "slow")⟩)
  close _ s := s
  pace := 1000000

def errand (deadline : Option Nat) : Errand :=
  ⟨⟨0, 0, Falling.tag⟩, { Request.ofParts Request.get .root .empty with deadline }, .never⟩

def world : World Unit := World.new () [(0, Store.ofList [("k".toList, Text.utf8 ['+'])])] 9000 none

def first : Source := ⟨0, .literal ['a'], false⟩

/-- In its first turn, the backend errs, if the fetch has three milliseconds. -/
theorem exists_errs {deadline : Option Nat} {stops : List (Stop Unit)} {w' : World Unit}
    {out : Outcome} (h : Falling.resolver.Resolves outside (errand deadline) Eq world stops w' out)
    (hl : (Falling.resolver.allowance (errand deadline) first world).1 ≠ 0)
    (hd : 3 ≤ (Falling.resolver.allowance (errand deadline) first world).1.ceilMillis) :
    ∃ t ∈ stops, t.source = first ∧ t.start = world ∧
      Falling.resolver.Errs outside (errand deadline) t (.timeout "slow") := by
  have hsources : (errand deadline).seat.tag.sources.head? = some first := by
    show Falling.tag.sources.head? = _
    decide +kernel
  have hhead := (h.course (show Falling.tag.fault = none by decide +kernel) nofun).1.head?_eq
  rw [hsources] at hhead
  cases stops with
  | nil => cases hhead
  | cons t later =>
    obtain ⟨hs, hw⟩ := Prod.mk.inj (Option.some.inj hhead)
    refine ⟨t, List.mem_cons_self, hs, hw, ?_⟩
    obtain ⟨s, w, call, ending, final⟩ := t
    dsimp only at hs hw
    subst hs hw
    have hbare : Falling.resolver.lifetimeOf Falling.tag = 0 := by decide +kernel
    have hgrant : (Falling.resolver.granted (errand deadline) first world).2 = some .normal := by
      unfold granted
      rw [breaker_searched]
      exact Breaker.grant_normal_iff.2 (show 0 < 2 by decide)
    exact
      { bare := fun data hk => hk.1 hbare
        left := hl
        called := ⟨.custom 0 ['a'], ⟨some 3, .error (.timeout "slow")⟩,
          ⟨⟨.normal, hgrant⟩, rfl, rfl⟩, rfl, 3, rfl, hd⟩
        counts := rfl }

end Impatient

open Impatient in
/-- Without a deadline, the timeout is blamed on the source. -/
theorem blames_or_withdraws_sample : ∃ stops t, t ∈ stops ∧ t.source = first ∧
    Blames (errand none) world stops t (Falling.resolver.resolve outside (errand none) world).1
      (.timeout "slow") := by
  obtain ⟨⟨stops, h⟩, hall⟩ :=
    blames_or_withdraws Falling.resolver outside (errand none) world (.read (.raw _))
  obtain ⟨t, ht, hs, hw, herr⟩ := exists_errs h (by decide +kernel) (by decide +kernel)
  rcases hall Eq stops _ _ (errand none).spares_eq h t ht _ herr with
    ⟨n, -, hgone, -⟩ | ⟨-, hblames⟩ | ⟨-, hbound, -⟩
  · cases hgone
  · exact ⟨stops, t, ht, hs, hblames⟩
  · rw [hs, hw] at hbound
    cases hbound

open Impatient in
/-- **Not every timeout of a backend is blamed on its source.** With half a second left for the
request, which is not given up, one after three milliseconds is not counted, and ends the tag. -/
theorem exists_unblamed : ∃ stops t,
    Falling.resolver.Resolves outside (errand (some 500009000)) Eq world stops
      (Falling.resolver.resolve outside (errand (some 500009000)) world).1
      (Falling.resolver.resolve outside (errand (some 500009000)) world).2 ∧
    t ∈ stops ∧ (errand (some 500009000)).departure = .never ∧
    Falling.resolver.Errs outside (errand (some 500009000)) t (.timeout "slow") ∧
    (Falling.resolver.resolve outside (errand (some 500009000)) world).1.breaker ⟨0, 0, 0⟩ =
      .fresh ∧
    (Falling.resolver.resolve outside (errand (some 500009000)) world).2.attempts = 1 ∧
    ¬ Blames (errand (some 500009000)) world stops t
      (Falling.resolver.resolve outside (errand (some 500009000)) world).1 (.timeout "slow") := by
  obtain ⟨stops, h⟩ := Falling.resolver.exists_resolves outside (errand (some 500009000)) world
  obtain ⟨t, ht, hs, -, herr⟩ := exists_errs h (by decide +kernel) (by decide +kernel)
  have hfresh : (Falling.resolver.resolve outside (errand (some 500009000)) world).1.breaker
      ⟨0, 0, 0⟩ = .fresh := by decide +kernel
  refine ⟨stops, t, h, ht, rfl, herr, hfresh, by decide +kernel, fun hblames => ?_⟩
  have hcount := hblames.breaker
  rw [hs] at hcount
  cases hfresh.symm.trans hcount

end Resolver

end EdgeInclude

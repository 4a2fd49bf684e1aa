import EdgeInclude.Proofs.Resolver.Fallback

/-!
# Requests that are given up

A request that is given up, or whose time is over, says nothing about its sources. What it has taken
from a breaker it gives back, and it keeps no fragment.

* `Ending.IsWithdrawal` — the turns that end with the request; `Resolver.OutOfTime` — its time ends
  them.
* `Resolver.LeavesNoMark` — what such an end leaves behind.
* `Resolver.withdrawal_leavesNoMark` — so ends each request that is given up or out of time.
-/

namespace EdgeInclude

variable {σ : Type}

/-! ## 1. Withdrawal -/

/-- The turn of a source ends with the request: its time is over, or it has been given up. -/
def Ending.IsWithdrawal : Ending → Prop
  | .expired | .cancelled _ | .outOfTime _ => True
  | _ => False

namespace Ending

variable {ending : Ending}

theorem IsWithdrawal.passesOn (h : ending.IsWithdrawal) : ending.passesOn = false := by
  cases ending <;> first | rfl | cases h

theorem IsWithdrawal.mark_eq (h : ending.IsWithdrawal) (now : Nat) (b : Breaker) :
    ending.mark now b = b := by
  cases ending <;> first | rfl | cases h

theorem IsWithdrawal.ne_won (h : ending.IsWithdrawal) (r : Response) : ending ≠ .won r := by
  rintro rfl
  cases h

theorem ne_won_of_passesOn (h : ending.passesOn = true) (r : Response) : ending ≠ .won r := by
  rintro rfl
  cases h

theorem eq_cancelled_of_close {tag : Include} {n : Nat} {detail : String}
    (h : (ending.close tag n).result = .error (.cancelled detail)) :
    ending = .cancelled (.cancelled detail) := by
  cases ending with
  | cancelled err =>
    cases h
    rfl
  | _ => cases h

end Ending

namespace Fetch

variable {f : Fetch} {detail : String}

theorem isWithdrawal_of_cancelled (h : f.outcome = .error (.cancelled detail)) :
    f.ending.IsWithdrawal := by
  unfold ending
  rw [h]
  trivial

theorem isWithdrawal_of_timeout (h : f.outcome = .error (.timeout detail)) (hb : f.bound = true) :
    f.ending.IsWithdrawal := by
  unfold ending
  rw [h, hb]
  trivial

end Fetch

namespace Resolver

/-! ## 2. The end of the request -/

/-- The time of the request ends the turn of a source without a cached fragment: it is over when the
turn begins, or while the backend, whose time it limits, is silent. -/
inductive OutOfTime (v : Resolver) (o : Surroundings σ) (e : Errand) (t : Stop σ) : Prop where
  | passed (bare : ∀ data, ¬ v.Kept e t.source t.start data)
      (spent : (v.allowance e t.source t.start).1 = 0) : OutOfTime v o e t
  | silent {backend : Backend} {answer : Answer} (bare : ∀ data, ¬ v.Kept e t.source t.start data)
      (called : v.Called o e t.source t.start backend answer)
      (bound : (v.allowance e t.source t.start).2 = true)
      (late : ∀ d, answer.after = some d → (v.allowance e t.source t.start).1.ceilMillis < d) :
      OutOfTime v o e t

variable {v : Resolver} {o : Surroundings σ} {e : Errand} {env : World σ → World σ → Prop}
  {rest : List Source} {s : Source} {time n : Nat} {w w' : World σ} {stops : List (Stop σ)}
  {t : Stop σ} {out : Outcome} {f : Failure} {answer : Answer}

theorem cutShort_cases (url : Text) (departure : Departure) (x : Nat × Except Failure Response) :
    cutShort url departure x = x ∨
      ∃ n, cutShort url departure x = (n, .error (.cancelled (String.ofList url))) := by
  unfold cutShort
  split
  · split
    · exact .inr ⟨_, rfl⟩
    · exact .inl rfl
  · exact .inl rfl

theorem isWithdrawal_of_late (hb : (v.allowance e s w).2 = true)
    (hl : ∀ d, answer.after = some d → (v.allowance e s w).1.ceilMillis < d) (a : Admission) :
    (v.fetchOf o e s w time a answer).ending.IsWithdrawal := by
  have hlate : (ending (address e s) (v.allowance e s w).1 time answer).2 =
      .error (.timeout
        s!"{String.ofList (address e s)} exceeded {(v.allowance e s w).1.text}") := by
    unfold ending
    cases ha : answer.after with
    | none => rfl
    | some d =>
      dsimp only
      rw [if_neg (Nat.not_le.2 (hl d ha))]
  have hout : (v.fetchOf o e s w time a answer).outcome = (cutShort (address e s) e.departure
      (ending (address e s) (v.allowance e s w).1 time answer)).2 := rfl
  rcases cutShort_cases (address e s) e.departure
    (ending (address e s) (v.allowance e s w).1 time answer) with hcut | ⟨m, hcut⟩
  · rw [hcut, hlate] at hout
    exact Fetch.isWithdrawal_of_timeout hout hb
  · rw [hcut] at hout
    exact Fetch.isWithdrawal_of_cancelled hout

/-- **A request that is out of time is withdrawn.** -/
theorem OutOfTime.isWithdrawal (h : v.OutOfTime o e t) {time' : Nat}
    (turn : Turn v o e env t.source time t.start t.ending t.call t.final time') :
    t.ending.IsWithdrawal := by
  obtain ⟨s, w, call, ending, w'⟩ := t
  dsimp only at turn ⊢
  cases h with
  | passed bare spent =>
    cases turn with
    | served found => exact absurd (found?_eq_some_iff.1 found) (bare _)
    | expired => trivial
    | refused _ left => exact absurd spent left
    | unserved _ left => exact absurd spent left
    | fetched _ left => exact absurd spent left
  | silent bare called bound late =>
    cases turn with
    | served found => exact absurd (found?_eq_some_iff.1 found) (bare _)
    | expired => trivial
    | refused _ _ refusal =>
      obtain ⟨a, ha⟩ := called.admitted
      cases refusal.symm.trans ha
    | unserved _ _ _ unknown => cases unknown.symm.trans called.known
    | fetched missed left admitted known answers wait =>
      rw [called.unique (.of_fetch admitted known answers)] at late
      exact isWithdrawal_of_late bound late _

/-- A course whose outcome is that the request has been given up has a turn that has ended so. -/
theorem Course.exists_cancelled (h : Course v o e env rest time w stops w') {tag : Include}
    {detail : String} (hout : (outcomeOf tag n stops).result = .error (.cancelled detail)) :
    ∃ t ∈ stops, t.ending = .cancelled (.cancelled detail) := by
  induction h generalizing n with
  | exhausted => cases hout
  | decided turn decides =>
    rw [outcomeOf_decided _ _ decides] at hout
    exact ⟨_, List.mem_singleton_self _, Ending.eq_cancelled_of_close hout⟩
  | next turn passes _ ih =>
    rw [outcomeOf_next _ _ passes] at hout
    obtain ⟨t, ht, he⟩ := ih hout
    exact ⟨t, List.mem_cons_of_mem _ ht, he⟩

theorem departure_of_refusal (h : refusal? e = some f) (hf : f.isCancelled = true) :
    e.departure = .already := by
  unfold refusal? at h
  split at h
  · cases h
    cases hf
  · split at h
    · rename_i hd
      exact beq_iff_eq.1 hd
    · cases h

theorem departure_of_no_refusal (h : refusal? e = none) : e.departure ≠ .already := by
  intro hd
  unfold refusal? at h
  rw [hd] at h
  split at h <;> cases h

/-! ## 3. What is left behind -/

/-- What a turn that ends with the request leaves behind, when its course goes from a world to
another one. -/
structure LeavesNoMark (v : Resolver) (e : Errand) (env : World σ → World σ → Prop) (w : World σ)
    (stops : List (Stop σ)) (t : Stop σ) (w' : World σ) : Prop where
  /-- No other source has a turn after it. -/
  last : ∃ tried, stops = tried ++ [t] ∧ ∀ t' ∈ tried, t'.ending.passesOn = true
  /-- The breaker of the source has the failures and the time that it has had. -/
  breaker : w'.breaker (e.seat.source t.source) = w.breaker (e.seat.source t.source)
  /-- A probe that it has granted can be had again at once. -/
  probe : ∀ previous claimed,
    (v.granted e t.source t.start).2 = some (.probe previous claimed) → ∀ now, claimed ≤ now →
      ((w'.breaker (e.seat.source t.source)).grant v.breakers now).2 = some (.probe previous now)
  /-- The breakers of the sources behind are as they were. -/
  left : ∀ s ∈ e.seat.tag.sources.drop stops.length,
    w'.breaker (e.seat.source s) = w.breaker (e.seat.source s)
  /-- No fragment has been cached, but by others. -/
  fragments : ∀ f ∈ w'.fragmentList, f ∈ w.fragmentList ∨
    ∃ x y, env x y ∧ f ∉ x.fragmentList ∧ f ∈ y.fragmentList

theorem Course.leavesNoMark (hb : e.seat.tag.Built) (henv : e.Spares env)
    (h : Course v o e env e.seat.tag.sources time w stops w') (ht : t ∈ stops)
    (hw : t.ending.IsWithdrawal) : v.LeavesNoMark e env w stops t w' := by
  obtain ⟨tried, hlast, hall⟩ := h.last_of_decides ht hw.passesOn
  obtain ⟨hfound, hmarked⟩ := h.breaker_visited henv hb.nodup (fun _ hs => hs) ht
    fun r hr => absurd hr (hw.ne_won r)
  rw [hw.mark_eq] at hmarked
  -- none before has had an answer, since each has been passed
  have hwon : ∀ t' ∈ stops, ∀ r, t'.ending ≠ .won r := by
    intro t' ht' r
    rw [hlast] at ht'
    rcases List.mem_append.1 ht' with ht' | ht'
    · exact Ending.ne_won_of_passesOn (hall t' ht') r
    · rw [List.mem_singleton.1 ht']
      exact hw.ne_won r
  exact
    { last := ⟨tried, hlast, hall⟩
      breaker := hmarked
      probe := fun previous claimed hg now hle => by
        unfold granted at hg
        rw [breaker_searched, hfound] at hg
        rw [hmarked]
        exact Breaker.grant_probe_later hg hle
      left := fun s hs => h.breaker_left henv hb.nodup (fun _ hs => hs) hs
      fragments := fun f hf => h.mem_fragmentList hwon hf }

/-- **A request that is given up, or whose time is over, leaves no mark on the source whose turn it
ends**, nor on those behind, and no fragment, whatever the tag, its breakers and its backends are.
One that has been given up before leaves everything as it is. During a fetch others may change the
world, the clock with it, as long as they leave the breakers of the tag alone. -/
theorem withdrawal_leavesNoMark (v : Resolver) (o : Surroundings σ) (e : Errand) (w : World σ)
    (hb : e.seat.tag.Built) :
    (∃ stops, v.Resolves o e Eq w stops (v.resolve o e w).1 (v.resolve o e w).2) ∧
    ∀ env stops w' out, e.Spares env → v.Resolves o e env w stops w' out →
      (e.departure = .already → stops = [] ∧ w' = w) ∧
      (∀ detail, out.result = .error (.cancelled detail) →
        (e.departure = .already ∧ stops = [] ∧ w' = w) ∨
          ∃ t ∈ stops, t.ending = .cancelled (.cancelled detail)) ∧
      (∀ t ∈ stops, v.OutOfTime o e t → t.ending.IsWithdrawal) ∧
      ∀ t ∈ stops, t.ending.IsWithdrawal → v.LeavesNoMark e env w stops t w' := by
  refine ⟨v.exists_resolves o e w, fun env stops w' out henv h => ?_⟩
  unfold Resolves at h
  cases hr : refusal? e with
  | some f =>
    rw [hr] at h
    obtain ⟨rfl, rfl, rfl⟩ := h
    refine ⟨fun _ => ⟨rfl, rfl⟩, fun detail hd => .inl ⟨?_, rfl, rfl⟩, List.forall_mem_nil _,
      List.forall_mem_nil _⟩
    cases hd
    exact departure_of_refusal hr rfl
  | none =>
    rw [hr] at h
    obtain ⟨hc, rfl⟩ := h
    refine ⟨fun hd => absurd hd (departure_of_no_refusal hr),
      fun detail hd => .inr (hc.exists_cancelled hd), fun t ht hlate => ?_,
      fun t ht hw => hc.leavesNoMark hb henv ht hw⟩
    obtain ⟨_, _, turn⟩ := hc.exists_turn ht
    exact hlate.isWithdrawal turn

/-! ## 4. A probe that is given up

The request is given up while the backend of its first source, whose breaker is half-open, has yet
to answer. -/

namespace Falling

def leaving : Errand := { errand with departure := .after 2 }

end Falling

open Falling in
theorem withdrawal_leavesNoMark_sample : ∃ stops t, t ∈ stops ∧
    t.ending = .cancelled (.cancelled "a") ∧
    resolver.LeavesNoMark leaving Eq world stops t (resolver.resolve outside leaving world).1 := by
  have hgone : (resolver.resolve outside leaving world).2.result = .error (.cancelled "a") := by
    decide +kernel
  obtain ⟨⟨stops, h⟩, hall⟩ :=
    withdrawal_leavesNoMark resolver outside leaving world (.read (.raw _))
  obtain ⟨-, hcancelled, -, hleaves⟩ := hall Eq stops _ _ leaving.spares_eq h
  rcases hcancelled "a" hgone with ⟨hd, -, -⟩ | ⟨t, ht, he⟩
  · cases hd
  · exact ⟨stops, t, ht, he, hleaves t ht (he ▸ trivial)⟩

end Resolver

end EdgeInclude

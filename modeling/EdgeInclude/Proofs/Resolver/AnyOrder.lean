import EdgeInclude.Proofs.Resolver.Frame
import EdgeInclude.Proofs.Resolver.Spans

/-!
# Fetches that end in any order

The tags of a page begin one after the other. Then any of the fetches that are under way may be the
next one to end. The run of a page, in which it is the one that ends first, is one of many.

* `Agenda.AnyOrder` — the scenes of such runs; `Scene.IsComplete` — no fetch is under way.
* `Agenda.AnyOrder.errand_at`, `Agenda.AnyOrder.spent`, `Agenda.AnyOrder.fragments_eq` — what all
  their scenes have in common.
* `Agenda.AreApart` — tags that stand in different places; those of a page do
  (`Resolver.areApart_errands`).
* `Resolver.exists_anyOrder` — resolving a page ends in a complete scene of such a run.
-/

namespace EdgeInclude

variable {σ : Type} {v : Resolver} {o : Surroundings σ} {es : List Errand} {w w₀ : World σ}

/-- All tags have begun, and no fetch is under way. -/
structure Scene.IsComplete (es : List Errand) (c : Scene σ) : Prop where
  begun : c.visits.length = es.length
  ended : ∀ visit ∈ c.visits, visit.ends? = none

/-- What is in a list that has got one more item is where it was, or is that item. -/
theorem get_concat_cases {α : Type} {l : List α} {x y : α} {j : Nat}
    (h : (l ++ [x])[j]? = some y) : (j < l.length ∧ l[j]? = some y) ∨ (j = l.length ∧ y = x) := by
  rw [List.getElem?_append] at h
  split at h
  · rename_i hlt
    exact .inl ⟨hlt, h⟩
  · rename_i hge
    rw [List.getElem?_singleton] at h
    split at h
    · exact .inr ⟨by omega, (Option.some.inj h).symm⟩
    · cases h

namespace Agenda

/-! ## 1. Runs -/

/-- The scenes of a page whose tags are resolved together, with fetches that end in any order. -/
inductive AnyOrder (v : Resolver) (o : Surroundings σ) (es : List Errand) (w₀ : World σ) :
    Scene σ → Prop where
  | start : AnyOrder v o es w₀ ⟨w₀, []⟩
  | begins {w : World σ} {a : Agenda} {e : Errand} (before : AnyOrder v o es w₀ ⟨w, a⟩)
      (next : es[a.length]? = some e) :
      AnyOrder v o es w₀ ⟨(Visit.start v o e w).1, a ++ [⟨0, e, (Visit.start v o e w).2⟩]⟩
  | goesOn {w : World σ} {a : Agenda} {i t : Nat} {visit : Visit}
      (before : AnyOrder v o es w₀ ⟨w, a⟩) (at_i : a[i]? = some visit)
      (underWay : visit.ends? = some t) :
      AnyOrder v o es w₀ ⟨(Visit.resume v o visit.errand w visit.progress).1,
        a.set i { visit with progress := (Visit.resume v o visit.errand w visit.progress).2 }⟩

variable {a : Agenda}

/-- The tags that are left begin one after the other. -/
theorem AnyOrder.startAll {rest : List Errand} (h : AnyOrder v o es w₀ ⟨w, a⟩)
    (hr : es.drop a.length = rest) :
    AnyOrder v o es w₀ ⟨(startAll v o 0 rest w).1, a ++ (startAll v o 0 rest w).2⟩ := by
  induction rest generalizing w a with
  | nil =>
    unfold Agenda.startAll
    rwa [List.append_nil]
  | cons e rest ih =>
    have hnext : es[a.length]? = some e := by
      rw [← List.head?_drop, hr]
      rfl
    rw [startAll_cons]
    dsimp only
    rw [List.append_cons]
    refine ih (h.begins hnext) ?_
    rw [List.length_append, List.length_singleton, ← List.drop_drop, hr]
    rfl

/-- The fetch that ends first is one that may end next. -/
theorem AnyOrder.steps (h : AnyOrder v o es w₀ ⟨w, a⟩) (n : Nat) :
    AnyOrder v o es w₀ ⟨(steps v o n a w).1, (steps v o n a w).2⟩ := by
  induction n generalizing w a with
  | zero => exact h
  | succ n ih =>
    rw [steps_succ]
    split
    · exact h
    · rename_i i t hf
      obtain ⟨-, visit, hv, he⟩ := get_of_first? hf
      rw [Nat.sub_zero] at hv
      have hnext := h.goesOn hv he
      rw [resumeAt_of_get hv]
      exact ih hnext

/-- The visit that is put in a place is there, and all others are where they were. -/
theorem get_set_cases {i j : Nat} {x visit : Visit} (h : (a.set i x)[j]? = some visit) :
    (j = i ∧ visit = x) ∨ (j ≠ i ∧ a[j]? = some visit) := by
  rw [List.getElem?_set] at h
  split at h
  · rename_i hij
    split at h
    · exact .inl ⟨hij.symm, (Option.some.inj h).symm⟩
    · cases h
  · rename_i hij
    exact .inr ⟨fun heq => hij heq.symm, h⟩

/-- The visits are those of the tags that have begun, in their order. -/
theorem AnyOrder.errand_at {c : Scene σ} {i : Nat} {visit : Visit} (h : AnyOrder v o es w₀ c)
    (hi : c.visits[i]? = some visit) : es[i]? = some visit.errand ∧ visit.party = 0 := by
  induction h generalizing i visit with
  | start =>
    rw [List.getElem?_nil] at hi
    cases hi
  | begins _ next ih =>
    rcases get_concat_cases hi with ⟨-, hi⟩ | ⟨rfl, rfl⟩
    · exact ih hi
    · exact ⟨next, rfl⟩
  | @goesOn w a j t before _ at_j _ ih =>
    rcases get_set_cases hi with ⟨rfl, rfl⟩ | ⟨-, hi⟩
    · exact @ih i before at_j
    · exact ih hi

/-- The clock does not go back, and the stores are as they were. -/
theorem AnyOrder.spent {c : Scene σ} (h : AnyOrder v o es w₀ c) :
    w₀.now ≤ c.world.now ∧ c.world.reach.stores = w₀.reach.stores := by
  induction h with
  | start => exact ⟨Nat.le_refl _, rfl⟩
  | @begins w a e _ _ ih =>
    have hm := Visit.spends_start v o e w
    exact ⟨Nat.le_trans ih.1 hm.le_now, hm.stores.trans ih.2⟩
  | @goesOn w a i t visit _ _ _ ih =>
    have hm := Visit.spends_resume v o visit.errand w visit.progress
    exact ⟨Nat.le_trans ih.1 hm.le_now, hm.stores.trans ih.2⟩

/-- Where nothing is cached, the cached fragments are as they were. -/
theorem AnyOrder.fragments_eq {c : Scene σ} (h : AnyOrder v o es w₀ c)
    (hu : ∀ e ∈ es, v.Uncached e w₀) : c.world.fragments = w₀.fragments := by
  have hkeep : ∀ {w w' : World σ} {e : Errand}, e ∈ es → w.fragments = w₀.fragments →
      v.Spends e w w' → w'.fragments = w₀.fragments := by
    intro w w' e he hw hm
    have hun := hu e he
    unfold Resolver.Uncached at hun
    rw [← hw] at hun
    exact (hm.fragments hun).trans hw
  induction h with
  | start => rfl
  | begins _ next ih => exact hkeep (List.mem_of_getElem? next) ih (Visit.spends_start ..)
  | goesOn before at_i _ ih =>
    exact hkeep (List.mem_of_getElem? (before.errand_at at_i).1) ih (Visit.spends_resume ..)

/-! ## 2. Places -/

/-- The tags stand in different places, so that no two have a breaker in common. -/
def AreApart (es : List Errand) : Prop :=
  es.Pairwise fun e e' => ∀ id, e.seat.Owns id → ¬ e'.seat.Owns id

theorem AreApart.disjoint {i j : Nat} {e e' : Errand} (h : AreApart es) (hi : es[i]? = some e)
    (hj : es[j]? = some e') (hij : i ≠ j) {id : SourceId} (hid : e.seat.Owns id) :
    ¬ e'.seat.Owns id := by
  obtain ⟨hil, rfl⟩ := List.getElem?_eq_some_iff.1 hi
  obtain ⟨hjl, rfl⟩ := List.getElem?_eq_some_iff.1 hj
  rcases Nat.lt_or_gt_of_ne hij with hlt | hlt
  · exact List.pairwise_iff_getElem.1 h i j hil hjl hlt id hid
  · exact fun hid' => List.pairwise_iff_getElem.1 h j i hjl hil hlt id hid' hid

end Agenda

namespace Resolver

theorem pairwise_index_ofPage (page index : Nat) (tags : Page) :
    (Seat.ofPage page index tags).Pairwise fun s s' => s.index < s'.index := by
  induction tags generalizing index with
  | nil => exact .nil
  | cons t rest ih => exact List.pairwise_cons.2 ⟨fun s hs => le_index_of_mem hs, ih (index + 1)⟩

/-- **The tags of a page stand in different places.** -/
theorem areApart_errands (page : Nat) (tags : Page) (r : Request) (d : Departure) :
    Agenda.AreApart (errands page tags r d) := by
  unfold Agenda.AreApart errands
  rw [List.pairwise_map]
  refine (pairwise_index_ofPage page 0 tags).imp fun hlt id hid hid' => ?_
  exact absurd (hid.2.symm.trans hid'.2) (Nat.ne_of_lt hlt)

/-! ## 3. The run of a page -/

/-- **Resolving a page ends in a complete scene.** -/
theorem exists_anyOrder (v : Resolver) (o : Surroundings σ) (es : List Errand) (w : World σ) :
    ∃ c, Agenda.AnyOrder v o es w c ∧ c.IsComplete es ∧
      v.visitAll o es w = (countFallbacks c.visits c.world, c.visits) := by
  have hstart : Agenda.AnyOrder v o es w ⟨w, []⟩ := .start
  have hrun := (hstart.startAll (show es.drop 0 = es from rfl)).steps
    (Agenda.startAll v o 0 es w).2.weight
  refine ⟨_, hrun, ⟨?_, Agenda.ended_run v o _ _⟩, rfl⟩
  have hmap := congrArg List.length (errands_visitAll (v := v) (o := o) es w)
  rwa [List.length_map] at hmap

end Resolver

end EdgeInclude

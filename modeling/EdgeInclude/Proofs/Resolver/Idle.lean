import EdgeInclude.Proofs.Resolver.Spans
import Mathlib.Data.List.InsertIdx

/-!
# Tags that wait for nothing

A tag for which no fetch is made takes no part in what the tags of a page do together: the others
come to the same with it and without it.

* `Agenda.past` — the place of a visit once another one is put in.
* `Agenda.first?_insertIdx` — an idle visit does not change which fetch ends first.
* `Agenda.resumeAt_insertIdx`, `Agenda.steps_insertIdx` — a step leaves it alone, and so does a run.
* `Resolver.visitAll_insertIdx` — a tag that nothing is done for among the tags of a page.
* `Resolver.AddsOnly` — one more replacement in a page, and nothing else;
  `Resolver.addsOnly_of_idle` — so it is with such a tag.
-/

namespace EdgeInclude

/-! ## 1. Idle visits -/

theorem Visit.weight_of_ends? {visit : Visit} (h : visit.ends? = none) : visit.weight = 0 := by
  obtain ⟨party, e, p⟩ := visit
  cases p with
  | fetching f n rest => cases h
  | _ => rfl

namespace Agenda

variable {σ : Type} {v : Resolver} {o : Surroundings σ} {a : Agenda} {visit : Visit}

/-- Where the visit at `j` is found once another visit is put in at `k`. -/
def past (k j : Nat) : Nat := if j < k then j else j + 1

theorem weight_insertIdx (h : visit.ends? = none) (k : Nat) (a : Agenda) :
    weight (a.insertIdx k visit) = weight a := by
  induction a generalizing k with
  | nil =>
    cases k with
    | zero => exact Visit.weight_of_ends? h
    | succ k => rfl
  | cons x rest ih =>
    cases k with
    | zero =>
      rw [List.insertIdx_zero, weight_cons, Visit.weight_of_ends? h, Nat.zero_add]
    | succ k => rw [List.insertIdx_succ_cons, weight_cons, weight_cons, ih]

theorem first?_cons_of_none (h : visit.ends? = none) (i : Nat) (a : Agenda) :
    first? i (visit :: a) = first? (i + 1) a := by
  rw [first?, h]

theorem first?_succ (i : Nat) (a : Agenda) :
    first? (i + 1) a = (first? i a).map fun p => (p.1 + 1, p.2) := by
  induction a generalizing i with
  | nil => rfl
  | cons x rest ih =>
    rw [first?, first?, ih (i + 1)]
    cases x.ends? with
    | none => rfl
    | some t =>
      cases first? (i + 1) rest with
      | none => rfl
      | some p =>
        dsimp only [Option.map_some]
        split <;> rfl

/-- **An idle visit does not change which fetch ends first.** -/
theorem first?_insertIdx (h : visit.ends? = none) (i k : Nat) :
    first? i (a.insertIdx k visit) = (first? i a).map fun p => (past (i + k) p.1, p.2) := by
  induction a generalizing i k with
  | nil =>
    cases k with
    | zero => exact first?_cons_of_none h i []
    | succ k => rfl
  | cons x rest ih =>
    cases k with
    | zero =>
      -- all places from `i` on are behind the idle visit
      rw [List.insertIdx_zero, first?_cons_of_none h, first?_succ]
      cases hf : first? i (x :: rest) with
      | none => rfl
      | some p =>
        have hbehind : past (i + 0) p.1 = p.1 + 1 := if_neg (Nat.not_lt.2 (get_of_first? hf).1)
        simp only [Option.map_some, hbehind]
    | succ k =>
      rw [List.insertIdx_succ_cons, first?, first?, ih, Nat.add_right_comm, Nat.add_assoc]
      have hhere : past (i + (k + 1)) i = i := if_pos (Nat.lt_add_of_pos_right (Nat.succ_pos k))
      cases x.ends? with
      | none => rfl
      | some t =>
        cases first? (i + 1) rest with
        | none => simp only [Option.map_none, Option.map_some, hhere]
        | some p =>
          simp only [Option.map_some]
          split <;> simp only [Option.map_some, hhere]

theorem getElem?_past (a : Agenda) (visit : Visit) (k j : Nat) :
    (a.insertIdx k visit)[past k j]? = a[j]? := by
  rw [List.getElem?_insertIdx, past]
  by_cases hj : j < k
  · rw [if_pos hj, if_pos hj]
  · rw [if_neg hj, if_neg (by omega), if_neg (by omega), Nat.add_sub_cancel]

theorem set_past (a : Agenda) (visit x : Visit) (k j : Nat) :
    (a.insertIdx k visit).set (past k j) x = (a.set j x).insertIdx k visit := by
  induction a generalizing k j with
  | nil => cases k <;> rfl
  | cons y rest ih =>
    cases k with
    | zero => rfl
    | succ k =>
      cases j with
      | zero => rfl
      | succ j =>
        have hpast : past (k + 1) (j + 1) = past k j + 1 := by
          unfold past
          split <;> split <;> omega
        rw [List.insertIdx_succ_cons, hpast, List.set_cons_succ, List.set_cons_succ,
          List.insertIdx_succ_cons, ih]

theorem resumeAt_insertIdx (a : Agenda) (visit : Visit) (k j : Nat) (w : World σ) :
    resumeAt v o (past k j) (a.insertIdx k visit) w =
      ((resumeAt v o j a w).1, (resumeAt v o j a w).2.insertIdx k visit) := by
  unfold resumeAt
  rw [getElem?_past]
  cases a[j]? with
  | none => rfl
  | some x => exact congrArg (Prod.mk _) (set_past a visit _ k j)

/-- **An idle visit stays what it is, and the others come to the same without it.** -/
theorem steps_insertIdx (h : visit.ends? = none) (n k : Nat) (a : Agenda) (w : World σ) :
    steps v o n (a.insertIdx k visit) w =
      ((steps v o n a w).1, (steps v o n a w).2.insertIdx k visit) := by
  induction n generalizing a w with
  | zero => rfl
  | succ n ih =>
    rw [steps_succ, steps_succ, first?_insertIdx h, Nat.zero_add]
    cases first? 0 a with
    | none => rfl
    | some p =>
      dsimp only [Option.map_some]
      rw [resumeAt_insertIdx]
      exact ih _ _

theorem run_insertIdx (h : visit.ends? = none) (k : Nat) (a : Agenda) (w : World σ) :
    run v o (a.insertIdx k visit) w =
      ((run v o a w).1, (run v o a w).2.insertIdx k visit) := by
  unfold run
  rw [weight_insertIdx h, steps_insertIdx h]

theorem startAll_insertIdx {e : Errand} {p : Progress} (es : List Errand)
    (h : ∀ w, Visit.start v o e w = (w, p)) (party k : Nat) (w : World σ) :
    startAll v o party (es.insertIdx k e) w =
      ((startAll v o party es w).1, (startAll v o party es w).2.insertIdx k ⟨party, e, p⟩) := by
  induction es generalizing k w with
  | nil =>
    cases k with
    | zero =>
      rw [List.insertIdx_zero, startAll_cons, h]
      rfl
    | succ k => rfl
  | cons x rest ih =>
    cases k with
    | zero =>
      rw [List.insertIdx_zero, startAll_cons, h]
      rfl
    | succ k =>
      rw [List.insertIdx_succ_cons, startAll_cons, startAll_cons, ih]
      rfl

end Agenda

/-! ## 2. Idle tags -/

namespace Resolver

variable {σ : Type} {v : Resolver} {o : Surroundings σ} {e : Errand} {p : Progress}
  {es : List Errand} {vs : List Visit} {visit : Visit} {k : Nat}

theorem countFallbacks_eq (vs : List Visit) (w : World σ) :
    countFallbacks vs w = w.count (FetchCounts.fallback^[vs.countP fellBack]) := by
  unfold countFallbacks
  refine congrArg w.count (funext fun c => ?_)
  rw [List.foldl_const, List.countP_eq_length_filter]

theorem countP_insertIdx (hk : k ≤ vs.length) :
    (vs.insertIdx k visit).countP fellBack = vs.countP fellBack + (fellBack visit).toNat := by
  rw [(List.perm_insertIdx visit vs hk).countP_eq, List.countP_cons]
  cases fellBack visit <;> rfl

theorem countFallbacks_insertIdx (hk : k ≤ vs.length) (w : World σ) :
    countFallbacks (vs.insertIdx k visit) w =
      if fellBack visit then (countFallbacks vs w).count (·.fallback) else countFallbacks vs w := by
  rw [countFallbacks_eq, countFallbacks_eq, countP_insertIdx hk]
  cases fellBack visit with
  | false => rfl
  | true =>
    show w.count (FetchCounts.fallback^[vs.countP fellBack + 1]) = _
    rw [Function.iterate_succ']
    rfl

theorem length_visitAll (es : List Errand) (w : World σ) :
    (v.visitAll o es w).2.length = es.length := by
  have h := congrArg List.length (errands_visitAll (v := v) (o := o) es w)
  rwa [List.length_map] at h

/-- **A tag that nothing is done for leaves the other tags of its page alone.** -/
theorem visitAll_insertIdx (h : ∀ w, Visit.start v o e w = (w, p))
    (hp : Visit.ends? ⟨0, e, p⟩ = none) (hk : k ≤ es.length) (w : World σ) :
    v.visitAll o (es.insertIdx k e) w =
      (if fellBack ⟨0, e, p⟩ then (v.visitAll o es w).1.count (·.fallback)
        else (v.visitAll o es w).1, (v.visitAll o es w).2.insertIdx k ⟨0, e, p⟩) := by
  have hlength := length_visitAll (v := v) (o := o) es w
  unfold visitAll at hlength ⊢
  rw [Agenda.startAll_insertIdx es h]
  dsimp only at hlength ⊢
  rw [Agenda.run_insertIdx hp]
  dsimp only
  rw [countFallbacks_insertIdx (by rw [hlength]; exact hk)]

/-! ## 3. One more replacement -/

/-- What is put into a page in the place of some of its tags. -/
def resolveThese (v : Resolver) (o : Surroundings σ) (es : List Errand) (w : World σ) :
    World σ × Except Failure Resolution :=
  ((v.visitAll o es w).1, assemble (v.visitAll o es w).2)

theorem resolveThese_errands (page : Nat) (tags : Page) (r : Request) (d : Departure)
    (w : World σ) :
    v.resolveThese o (errands page tags r d) w = v.resolveAll o page tags r d w := rfl

/-- One more replacement is put into a page, and nothing else is different from `others`. It is
counted if it is a fallback text. -/
structure AddsOnly (k : Nat) (patch : Patch) (counted : Bool)
    (others all : World σ × Except Failure Resolution) : Prop where
  world : all.1 = if counted then others.1.count (·.fallback) else others.1
  failed : ∀ err, others.2 = .error err → all.2 = .error err
  resolved : ∀ res, others.2 = .ok res → ∃ res', all.2 = .ok res' ∧
    res'.tags.patches[k]? = some patch ∧ res'.tags.patches.eraseIdx k = res.tags.patches ∧
    res'.headers = res.headers ∧ res'.fallbacks = res.fallbacks + counted.toNat

theorem mapM_insertIdx {α β : Type} {f : α → Except Failure β} {a : α} {b : β} (h : f a = .ok b)
    (k : Nat) (l : List α) :
    (l.insertIdx k a).mapM f = (l.mapM f).map (·.insertIdx k b) := by
  induction l generalizing k with
  | nil =>
    cases k with
    | zero =>
      rw [List.insertIdx_zero, List.mapM_cons, h]
      rfl
    | succ k => rfl
  | cons x rest ih =>
    cases k with
    | zero =>
      rw [List.insertIdx_zero, List.mapM_cons, h]
      cases (x :: rest).mapM f <;> rfl
    | succ k =>
      rw [List.insertIdx_succ_cons, List.mapM_cons, List.mapM_cons, ih]
      cases f x with
      | error err => rfl
      | ok y => cases rest.mapM f <;> rfl

theorem foldl_appendAll_insertIdx {part : Replacement × Headers} (h : part.2 = .empty) (k : Nat)
    (parts : List (Replacement × Headers)) (init : Headers) :
    (parts.insertIdx k part).foldl (fun h p => h.appendAll p.2) init =
      parts.foldl (fun h p => h.appendAll p.2) init := by
  have hnone : ∀ init : Headers, init.appendAll part.2 = init := fun _ => by
    rw [h]
    rfl
  induction parts generalizing k init with
  | nil =>
    cases k with
    | zero => exact hnone init
    | succ k => rfl
  | cons x rest ih =>
    cases k with
    | zero => rw [List.insertIdx_zero, List.foldl_cons, hnone]
    | succ k => rw [List.insertIdx_succ_cons, List.foldl_cons, List.foldl_cons, ih]

theorem assemble_of_error {err : Failure} (h : vs.mapM replacement = .error err) :
    assemble vs = .error err := by
  unfold assemble
  rw [h]
  rfl

/-- **A tag that comes to a text adds its replacement to those of the others**, if the tags stand in
order: the page fails with it if and only if it fails without it. -/
theorem assemble_insertIdx {part : Replacement × Headers} (h : replacement visit = .ok part)
    (hheaders : part.2 = .empty) (hk : k ≤ vs.length)
    (ho : ((vs.insertIdx k visit).map (·.errand.seat.tag.raw)).Pairwise
      fun a b => a.stop ≤ b.start) :
    (∀ err, assemble vs = .error err → assemble (vs.insertIdx k visit) = .error err) ∧
    ∀ res, assemble vs = .ok res → ∃ res', assemble (vs.insertIdx k visit) = .ok res' ∧
      res'.tags.patches[k]? = some part.1.patch ∧
      res'.tags.patches.eraseIdx k = res.tags.patches ∧ res'.headers = res.headers ∧
      res'.fallbacks = res.fallbacks + (fellBack visit).toNat := by
  have hmap := mapM_insertIdx h k vs
  cases hothers : vs.mapM replacement with
  | error err =>
    rw [hothers] at hmap
    rw [assemble_of_error hothers, assemble_of_error hmap]
    exact ⟨fun _ he => he, nofun⟩
  | ok parts =>
    rw [hothers] at hmap
    have hsub : (vs.map (·.errand.seat.tag.raw)).Sublist
        ((vs.insertIdx k visit).map (·.errand.seat.tag.raw)) := by
      have hsub := List.eraseIdx_sublist (vs.insertIdx k visit) k
      rw [List.eraseIdx_insertIdx_self] at hsub
      exact hsub.map _
    obtain ⟨_, hres⟩ := assemble_of_parts hothers (ho.sublist hsub)
    obtain ⟨_, hall⟩ := assemble_of_parts hmap ho
    rw [hres, hall]
    have hlength : k ≤ ((parts.map (·.1)).map Replacement.patch).length := by
      rw [List.length_map, List.length_map, ← (forall₂_of_mapM_ok hothers).length_eq]
      exact hk
    have hpatches : ((parts.insertIdx k part).map (·.1)).map Replacement.patch =
        ((parts.map (·.1)).map Replacement.patch).insertIdx k part.1.patch := by
      rw [List.map_insertIdx, List.map_insertIdx]
    refine ⟨nofun, fun res he => ⟨_, rfl, ?_⟩⟩
    cases he
    refine ⟨?_, ?_, foldl_appendAll_insertIdx hheaders k parts .empty, countP_insertIdx hk⟩
    · show (((parts.insertIdx k part).map (·.1)).map Replacement.patch)[k]? = _
      rw [hpatches, List.getElem?_insertIdx_self, if_pos hlength]
    · show (((parts.insertIdx k part).map (·.1)).map Replacement.patch).eraseIdx k = _
      rw [hpatches, List.eraseIdx_insertIdx_self]
      rfl

/-- **A tag that nothing is done for adds its text to the page**, and nothing else is different. -/
theorem addsOnly_of_idle {text : Bytes} (h : ∀ w, Visit.start v o e w = (w, p))
    (hp : Visit.ends? ⟨0, e, p⟩ = none) (ht : standIn ⟨0, e, p⟩ = .ok ⟨.empty, text⟩)
    (hk : k ≤ es.length)
    (ho : ((es.insertIdx k e).map (·.seat.tag.raw)).Pairwise fun a b => a.stop ≤ b.start)
    (hw : e.seat.tag.raw.start < e.seat.tag.raw.stop) (w : World σ) :
    AddsOnly k ⟨e.seat.tag.raw.start, e.seat.tag.raw.stop, text⟩ (fellBack ⟨0, e, p⟩)
      (v.resolveThese o es w) (v.resolveThese o (es.insertIdx k e) w) := by
  have hvisits := visitAll_insertIdx (v := v) (o := o) h hp hk w
  have hlength := length_visitAll (v := v) (o := o) es w
  have hraws : (((v.visitAll o es w).2.insertIdx k ⟨0, e, p⟩).map (·.errand.seat.tag.raw)).Pairwise
      fun a b => a.stop ≤ b.start := by
    have herrands := errands_visitAll (v := v) (o := o) (es.insertIdx k e) w
    rw [hvisits] at herrands
    rw [← herrands, List.map_map] at ho
    exact ho
  obtain ⟨hfailed, hresolved⟩ := assemble_insertIdx (replacement_of_standIn ht hw) rfl
    (by rw [hlength]; exact hk) hraws
  unfold resolveThese
  rw [hvisits]
  exact ⟨rfl, hfailed, hresolved⟩

end Resolver

end EdgeInclude

import EdgeInclude.Proofs.Resolver.Runs
import EdgeInclude.Resolver.Agenda

/-!
# Tags that are resolved together

The tags of a page are resolved in one run: they begin one after the other, and then the one whose
fetch ends first goes on. Each tag yields what it yields while the other tags of this run change the
world during its fetches; and there is an end to it.

* `Scene`, `Agenda.Move`, `Agenda.Reach` — the run of a page, move by move; there is only one
  (`Move.unique`).
* `Agenda.Until`, `Resolver.YieldsAmong` — the worlds that a tag finds in this run, and what it
  yields in them; alone it yields what `resolve` gives (`YieldsAmong.eq_resolve`).
* `Visit.OnCourse` — where a visit stands, and what it can still lead to.
* `Agenda.Sound` — all visits of a scene are on course; a move keeps this (`Sound.move`).
* `Agenda.weight_resumeAt_lt`, `Agenda.ended_run` — each end of a fetch takes weight off.
* `Resolver.ends_visitAll` — what has come of each tag of a page.
-/

namespace EdgeInclude

variable {σ : Type} {v : Resolver} {o : Surroundings σ} {e : Errand} {es : List Errand}
  {env : World σ → World σ → Prop} {later later' : World σ → Prop} {Y : Resolver.Outcome → Prop}
  {rest : List Source} {time n : Nat} {w u w₀ : World σ} {p : Progress}

/-! ## 1. The run of a page -/

/-- A page whose tags are being resolved: the world, and the visits that have begun. -/
structure Scene (σ : Type) where
  world : World σ
  visits : Agenda

namespace Agenda

/-- One move of a tag of a page: the tags begin in order, and when all of them have begun, the one
whose fetch ends first goes on. -/
inductive Move (v : Resolver) (o : Surroundings σ) (es : List Errand) :
    Scene σ → Errand → Scene σ → Prop where
  | begins {w : World σ} {a : Agenda} {e : Errand} (next : es[a.length]? = some e) :
      Move v o es ⟨w, a⟩ e ⟨(Visit.start v o e w).1, a ++ [⟨0, e, (Visit.start v o e w).2⟩]⟩
  | goesOn {w : World σ} {a : Agenda} {i t : Nat} {visit : Visit} (all : a.length = es.length)
      (first : first? 0 a = some (i, t)) (at_i : a[i]? = some visit) :
      Move v o es ⟨w, a⟩ visit.errand ⟨(Visit.resume v o visit.errand w visit.progress).1,
        a.set i { visit with progress := (Visit.resume v o visit.errand w visit.progress).2 }⟩

/-- The scenes of the run of a page from a world on. -/
inductive Reach (v : Resolver) (o : Surroundings σ) (es : List Errand) (w₀ : World σ) :
    Scene σ → Prop where
  | start : Reach v o es w₀ ⟨w₀, []⟩
  | move {c c' : Scene σ} {e : Errand} (reach : Reach v o es w₀ c) (move : Move v o es c e c') :
      Reach v o es w₀ c'

/-- The world in which a tag makes its next move, behind any number of moves of other tags. -/
inductive Until (v : Resolver) (o : Surroundings σ) (es : List Errand) (e : Errand) :
    Scene σ → World σ → Prop where
  | here {c c' : Scene σ} (own : Move v o es c e c') : Until v o es e c c.world
  | after {c c' : Scene σ} {e' : Errand} {u : World σ} (other : Move v o es c e' c') (ne : e' ≠ e)
      (later : Until v o es e c' u) : Until v o es e c u

variable {c c' : Scene σ} {a : Agenda} {i : Nat}

/-- **A page has only one run.** -/
theorem Move.unique {e₁ e₂ : Errand} {c₁ c₂ : Scene σ} (m₁ : Move v o es c e₁ c₁)
    (m₂ : Move v o es c e₂ c₂) : e₁ = e₂ ∧ c₁ = c₂ := by
  have hdone : ∀ {a : Agenda} {e : Errand}, es[a.length]? = some e → a.length ≠ es.length :=
    fun h => Nat.ne_of_lt (List.getElem?_eq_some_iff.1 h).1
  cases m₁ with
  | begins next₁ =>
    cases m₂ with
    | begins next₂ =>
      cases next₁.symm.trans next₂
      exact ⟨rfl, rfl⟩
    | goesOn all => exact absurd all (hdone next₁)
  | goesOn all first₁ get₁ =>
    cases m₂ with
    | begins next₂ => exact absurd all (hdone next₂)
    | goesOn _ first₂ get₂ =>
      cases first₁.symm.trans first₂
      cases get₁.symm.trans get₂
      exact ⟨rfl, rfl⟩

/-- The visits that have begun are those of the first tags, in order. -/
theorem Move.errands_eq (h : c.visits.map (·.errand) = es.take c.visits.length)
    (m : Move v o es c e c') : c'.visits.map (·.errand) = es.take c'.visits.length := by
  cases m with
  | begins next =>
    dsimp only at h ⊢
    rw [List.map_append, h, List.length_append, List.length_singleton,
      List.take_add_one, next]
    rfl
  | goesOn all first at_i =>
    dsimp only at h ⊢
    rw [List.length_set, ← h]
    refine List.ext_getElem? fun j => ?_
    rw [List.getElem?_map, List.getElem?_set, List.getElem?_map]
    split
    · rename_i hij
      subst hij
      obtain ⟨hi, -⟩ := List.getElem?_eq_some_iff.1 at_i
      rw [if_pos hi, at_i]
      rfl
    · rfl

theorem Reach.errands_eq (h : Reach v o es w₀ c) :
    c.visits.map (·.errand) = es.take c.visits.length := by
  induction h with
  | start => rfl
  | move _ m ih => exact m.errands_eq ih

theorem Reach.errand_at {visit : Visit} (h : Reach v o es w₀ c) (hv : c.visits[i]? = some visit) :
    es[i]? = some visit.errand := by
  have hm : (c.visits.map (·.errand))[i]? = some visit.errand := by
    rw [List.getElem?_map, hv]
    rfl
  obtain ⟨hi, -⟩ := List.getElem?_eq_some_iff.1 hv
  rwa [h.errands_eq, List.getElem?_take_of_lt hi] at hm

theorem Reach.mem_of_move (h : Reach v o es w₀ c) (m : Move v o es c e c') : e ∈ es := by
  cases m with
  | begins next => exact List.mem_of_getElem? next
  | goesOn all first at_i => exact List.mem_of_getElem? (h.errand_at at_i)

theorem Move.visits_ne_nil (m : Move v o es c e c') : c'.visits ≠ [] := by
  cases m with
  | begins next => exact List.append_ne_nil_of_right_ne_nil _ (List.cons_ne_nil _ _)
  | goesOn all first at_i =>
    intro hnil
    obtain ⟨hi, -⟩ := List.getElem?_eq_some_iff.1 at_i
    have hl := congrArg List.length hnil
    rw [List.length_set, List.length_nil] at hl
    omega

end Agenda

namespace Resolver

/-- What the other tags of a page make of a world, until a tag goes on in the run of the page. -/
def Others (v : Resolver) (o : Surroundings σ) (es : List Errand) (w₀ : World σ) (e : Errand)
    (w u : World σ) : Prop :=
  ∃ a, Agenda.Reach v o es w₀ ⟨w, a⟩ ∧ Agenda.Until v o es e ⟨w, a⟩ u

/-- What a tag yields in the run of its page: from the world in which it begins, while the other
tags change the world during its fetches. -/
def YieldsAmong (v : Resolver) (o : Surroundings σ) (es : List Errand) (w₀ : World σ) (e : Errand)
    (out : Outcome) : Prop :=
  ∃ w a, Agenda.Reach v o es w₀ ⟨w, a⟩ ∧ es[a.length]? = some e ∧
    v.Yields o e (v.Others o es w₀ e) w out

theorem YieldsAmong.isFinal {out : Outcome} (hg : v.registry.NeverCancels o)
    (hd : e.departure = .never) (h : v.YieldsAmong o es w₀ e out) : out.IsFinal e.seat.tag := by
  obtain ⟨_, _, _, _, hy⟩ := h
  exact hy.isFinal hg hd

/-- The only tag of a page goes on in the world that it has left. -/
theorem eq_of_others_singleton (h : v.Others o [e] w₀ e w u) : w = u := by
  obtain ⟨a, hr, hu⟩ := h
  generalize hc : (⟨w, a⟩ : Scene σ) = c at hr hu
  cases hu with
  | here own => rw [← hc]
  | after other ne later => exact absurd (List.mem_singleton.1 (hr.mem_of_move other)) ne

/-- **The only tag of a page yields what `resolve` gives.** -/
theorem YieldsAmong.eq_resolve {out : Outcome} (h : v.YieldsAmong o [e] w₀ e out) :
    (v.resolve o e w₀).2 = out := by
  obtain ⟨w, a, hr, hnext, hy⟩ := h
  have hlt : a.length < 1 := (List.getElem?_eq_some_iff.1 hnext).1
  have ha : a = [] := List.length_eq_zero_iff.1 (Nat.lt_one_iff.1 hlt)
  subst ha
  have hw : w = w₀ := by
    cases hr with
    | start => rfl
    | move _ m => exact absurd rfl m.visits_ne_nil
  subst hw
  exact yields_eq_iff.1 (hy.mono fun _ _ => eq_of_others_singleton)

end Resolver

/-! ## 2. One tag -/

namespace Visit

/-- Where a visit stands, and that it leads to an outcome in `Y` from each world of `later`, in
which its fetch may end. -/
def OnCourse (v : Resolver) (o : Surroundings σ) (e : Errand) (env : World σ → World σ → Prop)
    (later : World σ → Prop) (Y : Resolver.Outcome → Prop) : Progress → Prop
  | .omitted => isWanted e = false
  | .done out => isWanted e = true ∧ Y out
  | .fetching f n rest => isWanted e = true ∧
      ∀ u out, later u → v.Closes o e env f n rest u out → Y out

theorem OnCourse.mono (hl : ∀ u, later' u → later u) (h : OnCourse v o e env later Y p) :
    OnCourse v o e env later' Y p := by
  cases p with
  | omitted => exact h
  | done out => exact h
  | fetching f n rest => exact ⟨h.1, fun u out hu hc => h.2 u out (hl u hu) hc⟩

theorem onCourse_advance (hg : v.registry.NeverCancels o) (hd : e.departure = .never)
    (hi : isWanted e = true) (hY : ∀ out, v.Runs o e env rest time n w out → Y out) :
    (∀ u, later u → env (advance v o e rest time n w).1 u) →
      OnCourse v o e env later Y (advance v o e rest time n w).2 := by
  induction rest generalizing time n w with
  | nil => exact fun _ => ⟨hi, hY _ .exhausted⟩
  | cons s rest ih =>
    unfold advance
    split
    · rename_i ha
      exact fun _ => ⟨hi, hY _ (.served ha)⟩
    · rename_i ha
      exact fun _ => ⟨hi, hY _ (.late ha)⟩
    · rename_i ha
      exact ih fun out ho => hY _ (.passedOver ha ho)
    · rename_i f ha
      split
      · rename_i hlt
        exact fun hl => ⟨hi, fun u out hu hc =>
          hY _ (.of_closes ha (Resolver.meanwhile_of_lt hlt (hl u hu)) hc)⟩
      · -- the fetch has ended where it began
        rename_i hlt
        have hm := fun w => @Resolver.meanwhile_of_not_lt _ env time w f hlt
        have hends : f.ends = time :=
          Nat.le_antisymm (Nat.le_of_not_lt hlt) (Resolver.isWanted_of_ask hg hd ha).le_ends
        split
        · rename_i hs
          exact fun _ => ⟨hi, hY _ (.won ha (hm _) hs)⟩
        · rename_i hs
          exact fun _ => ⟨hi, hY _ (.gone ha (hm _) hs)⟩
        · rename_i hs
          exact fun _ => ⟨hi, hY _ (.timedOut ha (hm _) hs)⟩
        · rename_i hs
          refine ih fun out ho => hY _ (.next ha (hm _) hs ?_)
          rw [hends]
          exact ho

/-- **A visit that goes on stays on course.** -/
theorem onCourse_resume (hg : v.registry.NeverCancels o) (hd : e.departure = .never)
    (hw : later w) (h : OnCourse v o e env later Y p)
    (hl : ∀ u, later' u → env (resume v o e w p).1 u) :
    OnCourse v o e env later' Y (resume v o e w p).2 := by
  cases p with
  | omitted => exact h
  | done out => exact h
  | fetching f n rest =>
    obtain ⟨hi, hY⟩ := h
    have hc := fun out => hY w out hw
    cases hs : v.settle e f w with
    | mk w' settled =>
      cases settled with
      | won r =>
        simp only [Resolver.Closes, hs] at hc
        simp only [resume, hs]
        exact ⟨hi, hc _ rfl⟩
      | gone err =>
        simp only [Resolver.Closes, hs] at hc
        simp only [resume, hs]
        exact ⟨hi, hc _ rfl⟩
      | late =>
        simp only [Resolver.Closes, hs] at hc
        simp only [resume, hs]
        exact ⟨hi, hc _ rfl⟩
      | next =>
        simp only [Resolver.Closes, hs] at hc
        simp only [resume, hs] at hl ⊢
        exact onCourse_advance hg hd hi hc hl

/-- **A visit that begins is on course to what its tag yields.** -/
theorem onCourse_start (hg : v.registry.NeverCancels o) (hd : e.departure = .never)
    (hY : ∀ out, v.Yields o e env w out → Y out)
    (hl : ∀ u, later u → env (start v o e w).1 u) :
    OnCourse v o e env later Y (start v o e w).2 := by
  unfold Resolver.Yields at hY
  unfold start at hl ⊢
  cases hi : isWanted e with
  | false => exact hi
  | true =>
    rw [hi, Bool.not_true, if_neg Bool.false_ne_true] at hl
    rw [Bool.not_true, if_neg Bool.false_ne_true]
    cases hf : Resolver.refusal? e with
    | some f =>
      rw [hf] at hY
      exact ⟨hi, hY _ rfl⟩
    | none =>
      rw [hf] at hY hl
      exact onCourse_advance hg hd hi hY hl

end Visit

/-! ## 3. All tags -/

namespace Agenda

variable {c c' : Scene σ} {a : Agenda} {i : Nat}

/-- A visit is on course in the run of its page. -/
def OnCourse (v : Resolver) (o : Surroundings σ) (es : List Errand) (w₀ : World σ) (c : Scene σ)
    (visit : Visit) : Prop :=
  Visit.OnCourse v o visit.errand (v.Others o es w₀ visit.errand) (Until v o es visit.errand c)
    (v.YieldsAmong o es w₀ visit.errand) visit.progress

theorem OnCourse.move {visit : Visit} (m : Move v o es c e c') (hne : e ≠ visit.errand)
    (h : OnCourse v o es w₀ c visit) : OnCourse v o es w₀ c' visit :=
  Visit.OnCourse.mono (fun _ => .after m hne) h

/-- A scene of the run of a page in which all visits are on course. -/
structure Sound (v : Resolver) (o : Surroundings σ) (es : List Errand) (w₀ : World σ)
    (c : Scene σ) : Prop where
  reach : Reach v o es w₀ c
  onCourse : ∀ visit ∈ c.visits, OnCourse v o es w₀ c visit

/-- **A move keeps all visits on course.** -/
theorem Sound.move (hg : v.registry.NeverCancels o) (hd : ∀ e ∈ es, e.departure = .never)
    (hn : es.Nodup) (h : Sound v o es w₀ c) (m : Move v o es c e c') : Sound v o es w₀ c' := by
  have hreach : Reach v o es w₀ c' := h.reach.move m
  have he : e ∈ es := h.reach.mem_of_move m
  refine ⟨hreach, fun visit hm => ?_⟩
  have hsame : ∀ {i j : Nat} {e' : Errand}, es[i]? = some e → es[j]? = some e' → e = e' → i = j :=
    fun {i j e'} hi hj heq => by
      obtain ⟨hlt, -⟩ := List.getElem?_eq_some_iff.1 hi
      exact (List.getElem?_inj hlt hn).1 (by rw [hi, hj, heq])
  have hl : ∀ u, Until v o es e c' u → v.Others o es w₀ e c'.world u := fun u hu =>
    ⟨c'.visits, hreach, hu⟩
  cases m with
  | begins next =>
    rename_i w a
    rcases List.mem_append.1 hm with hm | hm
    · obtain ⟨j, hj⟩ := List.mem_iff_getElem?.1 hm
      obtain ⟨hlt, -⟩ := List.getElem?_eq_some_iff.1 hj
      refine OnCourse.move (.begins next) (fun heq => ?_) (h.onCourse visit hm)
      have := hsame next (h.reach.errand_at hj) heq
      omega
    · obtain rfl := List.mem_singleton.1 hm
      exact Visit.onCourse_start hg (hd e he) (fun out ho => ⟨w, a, h.reach, next, ho⟩) hl
  | goesOn all first at_i =>
    rename_i w a i t own
    have hei := h.reach.errand_at at_i
    obtain ⟨j, hj⟩ := List.mem_iff_getElem?.1 hm
    rw [List.getElem?_set] at hj
    split at hj
    · obtain ⟨hlt, -⟩ := List.getElem?_eq_some_iff.1 at_i
      rename_i hij
      subst hij
      rw [if_pos hlt] at hj
      cases hj
      exact Visit.onCourse_resume hg (hd _ he) (.here (.goesOn all first at_i))
        (h.onCourse own (List.mem_of_getElem? at_i)) hl
    · rename_i hij
      exact OnCourse.move (.goesOn all first at_i)
        (fun heq => hij (hsame hei (h.reach.errand_at hj) heq))
        (h.onCourse visit (List.mem_of_getElem? hj))

theorem startAll_cons (party : Nat) (e : Errand) (rest : List Errand) (w : World σ) :
    startAll v o party (e :: rest) w =
      ((startAll v o party rest (Visit.start v o e w).1).1,
        ⟨party, e, (Visit.start v o e w).2⟩ ::
          (startAll v o party rest (Visit.start v o e w).1).2) := rfl

/-- The tags that are left begin one after the other. -/
theorem Sound.startAll (hg : v.registry.NeverCancels o) (hd : ∀ e ∈ es, e.departure = .never)
    (hn : es.Nodup) {rest : List Errand} (h : Sound v o es w₀ ⟨w, a⟩)
    (hr : es.drop a.length = rest) :
    Sound v o es w₀ ⟨(startAll v o 0 rest w).1, a ++ (startAll v o 0 rest w).2⟩ ∧
      (a ++ (startAll v o 0 rest w).2).length = es.length := by
  induction rest generalizing w a with
  | nil =>
    have hle := List.drop_eq_nil_iff.1 hr
    have htake := congrArg List.length h.reach.errands_eq
    rw [List.length_map, List.length_take] at htake
    dsimp only at htake
    unfold Agenda.startAll
    rw [List.append_nil]
    exact ⟨h, by omega⟩
  | cons e rest ih =>
    have hnext : es[a.length]? = some e := by
      rw [← List.head?_drop, hr]
      rfl
    rw [startAll_cons]
    dsimp only
    rw [List.append_cons]
    refine ih (h.move hg hd hn (.begins hnext)) ?_
    rw [List.length_append, List.length_singleton, ← List.drop_drop, hr]
    rfl

theorem resumeAt_of_get {visit : Visit} (h : a[i]? = some visit) (w : World σ) :
    resumeAt v o i a w = ((Visit.resume v o visit.errand w visit.progress).1,
      a.set i { visit with progress := (Visit.resume v o visit.errand w visit.progress).2 }) := by
  unfold resumeAt
  rw [h]

theorem steps_succ (n : Nat) (a : Agenda) (w : World σ) :
    steps v o (n + 1) a w =
      match first? 0 a with
      | none => (w, a)
      | some (i, _) => steps v o n (resumeAt v o i a w).2 (resumeAt v o i a w).1 := rfl

/-! ## 4. The end -/

theorem weight_advance (v : Resolver) (o : Surroundings σ) (e : Errand) (party : Nat)
    (rest : List Source) (time n : Nat) (w : World σ) :
    (Visit.weight ⟨party, e, (Visit.advance v o e rest time n w).2⟩) ≤ rest.length := by
  induction rest generalizing time n w with
  | nil => exact Nat.zero_le _
  | cons s rest ih =>
    have hle : ∀ {k}, k ≤ rest.length → k ≤ (s :: rest).length := fun h => Nat.le_succ_of_le h
    unfold Visit.advance
    split
    · exact Nat.zero_le _
    · exact Nat.zero_le _
    · exact hle (ih ..)
    · split
      · exact Nat.le_refl _
      · split
        · exact Nat.zero_le _
        · exact Nat.zero_le _
        · exact Nat.zero_le _
        · exact hle (ih ..)

/-- The end of a fetch takes its source off. -/
theorem weight_resume_lt {visit : Visit} {t : Nat} (h : visit.ends? = some t) (w : World σ) :
    ({ visit with
      progress := (Visit.resume v o visit.errand w visit.progress).2 } : Visit).weight <
        visit.weight := by
  obtain ⟨party, e, p⟩ := visit
  cases p with
  | omitted => cases h
  | done out => cases h
  | fetching f n rest =>
    show Visit.weight ⟨party, e, (Visit.resume v o e w (.fetching f n rest)).2⟩ < rest.length + 1
    unfold Visit.resume
    dsimp only
    split
    · exact Nat.succ_pos _
    · exact Nat.succ_pos _
    · exact Nat.succ_pos _
    · exact Nat.lt_succ_of_le (weight_advance ..)

theorem weight_cons (visit : Visit) (a : Agenda) :
    weight (visit :: a) = visit.weight + weight a := rfl

theorem weight_set_lt {visit visit' : Visit} (h : a[i]? = some visit)
    (hw : visit'.weight < visit.weight) : weight (a.set i visit') < weight a := by
  induction a generalizing i with
  | nil => cases h
  | cons x rest ih =>
    cases i with
    | zero =>
      cases h
      rw [List.set_cons_zero, weight_cons, weight_cons]
      exact Nat.add_lt_add_right hw _
    | succ i =>
      rw [List.set_cons_succ, weight_cons, weight_cons]
      exact Nat.add_lt_add_left (ih h) _

/-- The fetch that ends first is under way. -/
theorem get_of_first? {index j t : Nat} (h : first? index a = some (j, t)) :
    index ≤ j ∧ ∃ visit, a[j - index]? = some visit ∧ visit.ends? = some t := by
  induction a generalizing index j t with
  | nil => cases h
  | cons x rest ih =>
    have hlater : first? (index + 1) rest = some (j, t) →
        index ≤ j ∧ ∃ visit, (x :: rest)[j - index]? = some visit ∧ visit.ends? = some t := by
      intro hr
      obtain ⟨hle, visit, hg, he⟩ := ih hr
      refine ⟨by omega, visit, ?_, he⟩
      rw [show j - index = (j - (index + 1)) + 1 by omega, List.getElem?_cons_succ]
      exact hg
    have hhere : ∀ {u}, x.ends? = some u → some (index, u) = some (j, t) →
        index ≤ j ∧ ∃ visit, (x :: rest)[j - index]? = some visit ∧ visit.ends? = some t := by
      intro u hu he
      cases he
      exact ⟨Nat.le_refl _, x, by rw [Nat.sub_self]; rfl, hu⟩
    unfold first? at h
    split at h
    · exact hlater h
    · rename_i hx _
      exact hhere hx h
    · rename_i hx hr
      split at h
      · exact hhere hx h
      · exact hlater (hr.trans h)

theorem ended_of_first? {index : Nat} (h : first? index a = none) :
    ∀ visit ∈ a, visit.ends? = none := by
  induction a generalizing index with
  | nil => exact fun _ hm => absurd hm List.not_mem_nil
  | cons x rest ih =>
    unfold first? at h
    split at h
    · rename_i hx
      intro visit hm
      rcases List.mem_cons.1 hm with rfl | hm
      · exact hx
      · exact ih h visit hm
    · cases h
    · split at h <;> cases h

/-- **The end of a fetch takes weight off an agenda.** -/
theorem weight_resumeAt_lt {t : Nat} (h : first? 0 a = some (i, t)) (w : World σ) :
    weight (resumeAt v o i a w).2 < weight a := by
  obtain ⟨-, visit, hg, he⟩ := get_of_first? h
  rw [Nat.sub_zero] at hg
  rw [resumeAt_of_get hg]
  exact weight_set_lt hg (weight_resume_lt he w)

theorem ended_steps {n : Nat} (h : weight a ≤ n) (w : World σ) :
    ∀ visit ∈ (steps v o n a w).2, visit.ends? = none := by
  induction n generalizing a w with
  | zero =>
    cases hf : first? 0 a with
    | none => exact ended_of_first? hf
    | some next =>
      have hlt := weight_resumeAt_lt (v := v) (o := o) hf w
      omega
  | succ n ih =>
    rw [steps_succ]
    split
    · rename_i hf
      exact ended_of_first? hf
    · rename_i i t hf
      have hlt := weight_resumeAt_lt (v := v) (o := o) hf w
      exact ih (by omega) _

theorem ended_run (v : Resolver) (o : Surroundings σ) (a : Agenda) (w : World σ) :
    ∀ visit ∈ (run v o a w).2, visit.ends? = none := ended_steps (Nat.le_refl _) w

/-- **The run of a page keeps all visits on course**, to its end. -/
theorem Sound.steps (hg : v.registry.NeverCancels o) (hd : ∀ e ∈ es, e.departure = .never)
    (hn : es.Nodup) (h : Sound v o es w₀ ⟨w, a⟩) (ha : a.length = es.length) (n : Nat) :
    Sound v o es w₀ ⟨(steps v o n a w).1, (steps v o n a w).2⟩ ∧
      (steps v o n a w).2.length = es.length := by
  induction n generalizing a w with
  | zero => exact ⟨h, ha⟩
  | succ n ih =>
    rw [steps_succ]
    split
    · exact ⟨h, ha⟩
    · rename_i i t hf
      obtain ⟨-, visit, hv, -⟩ := get_of_first? hf
      rw [Nat.sub_zero] at hv
      have hnext := h.move hg hd hn (.goesOn ha hf hv)
      rw [resumeAt_of_get hv]
      refine ih hnext ?_
      rw [List.length_set]
      exact ha

end Agenda

/-! ## 5. The tags of a page -/

/-- What has come of a tag that waits for nothing. -/
inductive Visit.Ends (v : Resolver) (o : Surroundings σ) (es : List Errand) (w₀ : World σ)
    (visit : Visit) : Prop where
  | omitted (progress : visit.progress = .omitted) (unwanted : isWanted visit.errand = false)
  | done {out : Resolver.Outcome} (progress : visit.progress = .done out)
      (wanted : isWanted visit.errand = true) (yields : v.YieldsAmong o es w₀ visit.errand out)

theorem Agenda.OnCourse.ends {c : Scene σ} {visit : Visit} (h : OnCourse v o es w₀ c visit)
    (he : visit.ends? = none) : visit.Ends v o es w₀ := by
  obtain ⟨party, e, p⟩ := visit
  cases p with
  | omitted => exact .omitted rfl h
  | done out => exact .done rfl h.1 h.2
  | fetching f n rest => cases he

/-- **What has come of each tag of a page**: it is omitted, or has an outcome that it yields among
the others. -/
theorem Resolver.ends_visitAll (hg : v.registry.NeverCancels o)
    (hd : ∀ e ∈ es, e.departure = .never) (hn : es.Nodup) (w : World σ) :
    (v.visitAll o es w).2.map (·.errand) = es ∧
      ∀ visit ∈ (v.visitAll o es w).2, visit.Ends v o es w := by
  have hstart : Agenda.Sound v o es w ⟨w, []⟩ := ⟨.start, fun _ hm => absurd hm List.not_mem_nil⟩
  obtain ⟨hbegun, hall⟩ := hstart.startAll hg hd hn (show es.drop 0 = es from rfl)
  obtain ⟨hs, hl⟩ := hbegun.steps hg hd hn hall (Agenda.startAll v o 0 es w).2.weight
  have he := Agenda.ended_run v o (Agenda.startAll v o 0 es w).2 (Agenda.startAll v o 0 es w).1
  have hmap := hs.reach.errands_eq
  rw [hl, List.take_length] at hmap
  exact ⟨hmap, fun visit hm => (hs.onCourse visit hm).ends (he visit hm)⟩

end EdgeInclude

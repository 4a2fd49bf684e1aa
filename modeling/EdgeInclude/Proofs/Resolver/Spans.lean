import EdgeInclude.Proofs.Resolver.Assembly

/-!
# Where the replacements of a page stand

Whatever comes of the tags of a page, and whether the request for it is given up or not: what is put
into the page is put in the place of one of its tags.

* `Replacements.mem_ofList_iff` — ordering keeps what is ordered.
* `Agenda.errands_run` — going on with a tag leaves all tags what they are.
* `Resolver.exists_tag_of_mem` — every replacement of a page stands at one of its tags.
* `Resolver.resolveAll_nil` — nothing is put into a page without tags.
-/

namespace EdgeInclude

/-! ## 1. Ordering -/

variable {a : Replacement} {rs : List Replacement}

theorem Replacements.mem_ofList_iff {tags : Replacements} (h : ofList rs = .ok tags) :
    a ∈ tags.items ↔ a ∈ rs := by
  rw [items_of_ofList h]
  exact (Replacement.perm_sorted rs).mem_iff

/-! ## 2. Tags that are resolved together -/

namespace Agenda

variable {σ : Type} {v : Resolver} {o : Surroundings σ}

theorem errands_startAll (party : Nat) (es : List Errand) (w : World σ) :
    (startAll v o party es w).2.map (·.errand) = es := by
  induction es generalizing w with
  | nil => rfl
  | cons e rest ih => exact congrArg (e :: ·) (ih _)

theorem errands_resumeAt (i : Nat) (a : Agenda) (w : World σ) :
    (resumeAt v o i a w).2.map (·.errand) = a.map (·.errand) := by
  unfold resumeAt
  split
  · rfl
  · rename_i visit hv
    obtain ⟨hi, rfl⟩ := List.getElem?_eq_some_iff.1 hv
    show (a.set i _).map (·.errand) = a.map (·.errand)
    rw [List.map_set, ← List.map_set (a := a[i]), List.set_getElem_self hi]

/-- **Going on with tags leaves them what they are.** -/
theorem errands_steps (n : Nat) (a : Agenda) (w : World σ) :
    (steps v o n a w).2.map (·.errand) = a.map (·.errand) := by
  induction n generalizing a w with
  | zero => rfl
  | succ n ih =>
    unfold steps
    split
    · rfl
    · exact (ih _ _).trans (errands_resumeAt _ a w)

theorem errands_run (a : Agenda) (w : World σ) :
    (run v o a w).2.map (·.errand) = a.map (·.errand) := errands_steps _ a w

end Agenda

/-! ## 3. Pages -/

namespace Resolver

variable {σ : Type} {v : Resolver} {o : Surroundings σ} {res : Resolution}

theorem errands_visitAll (es : List Errand) (w : World σ) :
    (v.visitAll o es w).2.map (·.errand) = es :=
  (Agenda.errands_run _ _).trans (Agenda.errands_startAll 0 es w)

/-- Every replacement of the visits stands at the tag of one of them. -/
theorem exists_visit_of_mem {vs : List Visit} (h : assemble vs = .ok res) {rep : Replacement}
    (hm : rep ∈ res.tags.items) : ∃ visit ∈ vs, rep.start = visit.errand.seat.tag.raw.start ∧
      rep.stop = visit.errand.seat.tag.raw.stop := by
  obtain ⟨parts, hall, ht, -⟩ := parts_of_assemble h
  obtain ⟨part, hpart, rfl⟩ := List.mem_map.1 ((Replacements.mem_ofList_iff ht).1 hm)
  clear ht hm h
  induction hall with
  | nil => cases hpart
  | cons hr _ ih =>
    rcases List.mem_cons.1 hpart with rfl | hpart
    · obtain ⟨r, -, hstart, hstop, -⟩ := standIn_of_replacement hr
      exact ⟨_, List.mem_cons_self, hstart, hstop⟩
    · obtain ⟨visit, hv, hspan⟩ := ih hpart
      exact ⟨visit, List.mem_cons_of_mem _ hv, hspan⟩

/-- **Every replacement of a page stands at one of its tags**, however the tags are resolved. -/
theorem exists_tag_of_mem {page : Nat} {tags : Page} {r : Request} {d : Departure} {w : World σ}
    (h : (v.resolveAll o page tags r d w).2 = .ok res) {rep : Replacement}
    (hm : rep ∈ res.tags.items) : ∃ t ∈ tags.raws, rep.start = t.start ∧ rep.stop = t.stop := by
  obtain ⟨visit, hv, hspan⟩ := exists_visit_of_mem h hm
  have he : visit.errand ∈ errands page tags r d := by
    rw [← errands_visitAll (v := v) (o := o) (errands page tags r d) w]
    exact List.mem_map_of_mem hv
  have htag : visit.errand.seat.tag ∈ tags := by
    rw [← map_tag_errands page tags r d]
    exact List.mem_map_of_mem he
  exact ⟨visit.errand.seat.tag.raw, List.mem_map_of_mem htag, hspan⟩

/-- Nothing is put into a page without tags. -/
theorem resolveAll_nil (page : Nat) (r : Request) (d : Departure) (w : World σ) :
    (v.resolveAll o page [] r d w).2 = .ok ⟨.empty, .empty, 0⟩ := rfl

end Resolver

end EdgeInclude

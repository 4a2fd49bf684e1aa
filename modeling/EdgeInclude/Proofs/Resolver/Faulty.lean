import EdgeInclude.Proofs.Resolver.Idle
import EdgeInclude.Proofs.Tag.Faults

/-!
# Tags that cannot be read

A tag with a fault fails before anything is done for it: no backend is called for it, no fragment is
looked up, and no breaker is asked. Its fallback text stands in the page in its place, or nothing if
it has none, or if its condition was read before the fault and does not hold. The other tags of the
page come to the same as without it.

* `Resolver.resolve_of_fault`, `Visit.start_of_fault` — nothing is done for a tag with a fault.
* `Resolver.addsOnly_of_fault` — its text is put into the page, and nothing else is different.
* `Resolver.resolve_wrong` — so it is for every tag that something is wrong with.
-/

namespace EdgeInclude

variable {σ : Type}

/-! ## 1. One tag -/

namespace Resolver

theorem refusal?_of_fault {e : Errand} (h : e.seat.tag.fault.isSome = true) :
    refusal? e = some (exhausted e.seat.tag 0) := if_pos h

/-- **Nothing is done for a tag with a fault**, even if its request has been given up. -/
theorem resolve_of_fault {e : Errand} (h : e.seat.tag.fault.isSome = true) (v : Resolver)
    (o : Surroundings σ) (w : World σ) :
    v.resolve o e w = (w, ⟨0, .error (exhausted e.seat.tag 0)⟩) := by
  unfold resolve
  rw [refusal?_of_fault h]

end Resolver

namespace Visit

/-- How far a tag with a fault comes. -/
def refused (e : Errand) : Progress :=
  if isWanted e then .done (Resolver.giveUp e.seat.tag 0) else .omitted

theorem start_of_fault {e : Errand} (h : e.seat.tag.fault.isSome = true) (v : Resolver)
    (o : Surroundings σ) (w : World σ) : start v o e w = (w, refused e) := by
  unfold start refused
  rw [Resolver.refusal?_of_fault h]
  cases isWanted e <;> rfl

theorem ends?_refused (party : Nat) (e : Errand) : ends? ⟨party, e, refused e⟩ = none := by
  unfold refused
  cases isWanted e <;> rfl

theorem isWanted_eq (e : Errand) :
    isWanted e = e.seat.tag.condition.all (·.holds e.request) := by
  unfold isWanted
  cases e.seat.tag.condition <;> rfl

end Visit

namespace Resolver

theorem standIn_refused (party : Nat) (e : Errand) : standIn ⟨party, e, Visit.refused e⟩ =
    .ok ⟨.empty, if Visit.isWanted e then Text.utf8 (e.seat.tag.fallback.getD []) else []⟩ := by
  unfold Visit.refused
  cases Visit.isWanted e <;> rfl

theorem fellBack_refused (party : Nat) (e : Errand) :
    fellBack ⟨party, e, Visit.refused e⟩ = Visit.isWanted e := by
  unfold Visit.refused
  cases Visit.isWanted e <;> rfl

end Resolver

/-! ## 2. Its page -/

namespace Resolver

/-- What is put into a page with a tag that has a fault. -/
theorem addsOnly_of_fault {i : Nat} {es : List Errand} {e : Errand} (he : es[i]? = some e)
    (hf : e.seat.tag.fault.isSome = true)
    (ho : (es.map (·.seat.tag.raw)).Pairwise fun a b => a.stop ≤ b.start)
    (hw : e.seat.tag.raw.start < e.seat.tag.raw.stop) (v : Resolver) (o : Surroundings σ)
    (w : World σ) :
    (v.visitAll o es w).2.eraseIdx i = (v.visitAll o (es.eraseIdx i) w).2 ∧
    AddsOnly i ⟨e.seat.tag.raw.start, e.seat.tag.raw.stop,
        if Visit.isWanted e then Text.utf8 (e.seat.tag.fallback.getD []) else []⟩
      (Visit.isWanted e) (v.resolveThese o (es.eraseIdx i) w) (v.resolveThese o es w) := by
  obtain ⟨hi, rfl⟩ := List.getElem?_eq_some_iff.1 he
  have hes := List.insertIdx_eraseIdx_getElem hi
  have hk : i ≤ (es.eraseIdx i).length := by
    rw [List.length_eraseIdx_of_lt hi]
    omega
  have hstart := Visit.start_of_fault hf v o
  have hends := Visit.ends?_refused 0 es[i]
  have hvisits := visitAll_insertIdx hstart hends hk w
  have hadds := addsOnly_of_idle hstart hends (standIn_refused 0 es[i]) hk (by rwa [hes]) hw w
  rw [hes] at hvisits hadds
  rw [fellBack_refused] at hadds
  refine ⟨?_, hadds⟩
  rw [hvisits, List.eraseIdx_insertIdx_self]

/-- What is put into a page in the place of a tag with a fault: its fallback text, unless `done`
give a condition that does not hold. -/
def standInFor (raw : RawTag) (as done : List Attribute) (r : Request) : Patch :=
  ⟨raw.start, raw.stop, if (Include.conditionOf done).all (·.holds r) then
    Text.utf8 ((Include.fallbackOf as).getD []) else []⟩

/-- **A tag that cannot be read renders its fallback text and nothing else**, whatever is wrong with
it and in whatever order its attributes come. The fault that comes first is the one that is kept,
the fallback text is that of the first `onerror` attribute, and the condition is the last one in
front of the fault. Resolving the tag fails without an attempt and leaves the world as it is. In a
page, its text stands in its place; the other tags come to the same as without it, and the page
fails only if it fails without it. -/
theorem resolve_wrong {raw : RawTag} {kind : Text} {as : List Attribute}
    (h : Include.Tells raw kind as) (hwrong : Include.Wrong kind as) :
    ∃ done f, Include.FirstFault kind as done f ∧
      ((Include.ofRaw raw).read.2 = some f ∧ (Include.ofRaw raw).read.1.fault = some f ∧
        (Include.ofRaw raw).read.1.fallback = Include.fallbackOf as ∧
        (Include.ofRaw raw).read.1.condition = Include.conditionOf done) ∧
      (∀ (σ : Type) (v : Resolver) (o : Surroundings σ) (e : Errand) (w : World σ),
        e.seat.tag = (Include.ofRaw raw).read.1 → v.resolve o e w =
          (w, ⟨0, .error (.exhausted raw.describe 0 (Include.fallbackOf as))⟩)) ∧
      ∀ (σ : Type) (v : Resolver) (o : Surroundings σ) (page i : Nat) (raws : List RawTag)
        (r : Request) (d : Departure) (w : World σ), raws[i]? = some raw →
        (raws.Pairwise fun a b => a.stop ≤ b.start) → (∀ t ∈ raws, t.start < t.stop) →
        (v.visitAll o (errands page (Page.ofTags raws) r d) w).2.eraseIdx i =
          (v.visitAll o ((errands page (Page.ofTags raws) r d).eraseIdx i) w).2 ∧
        AddsOnly i (standInFor raw as done r) ((Include.conditionOf done).all (·.holds r))
          (v.resolveThese o ((errands page (Page.ofTags raws) r d).eraseIdx i) w)
          (v.resolveAll o page (Page.ofTags raws) r d w) ∧
        (d = .never → v.registry.NeverCancels o →
          ∃ res, (v.resolveAll o page (Page.ofTags raws) r d w).2 = .ok res ∧
            res.tags.patches[i]? = some (standInFor raw as done r)) := by
  obtain ⟨done, f, hfirst⟩ := Include.exists_firstFault hwrong
  obtain ⟨hread, hfault, hfallback, hcondition⟩ := Include.read_of_firstFault h hfirst
  have hraw : (Include.ofRaw raw).read.1.raw = raw := Include.raw_read _
  have hsome : (Include.ofRaw raw).read.1.fault.isSome = true := by
    rw [hfault]
    rfl
  refine ⟨done, f, hfirst, ⟨hread, hfault, hfallback, hcondition⟩, ?_, ?_⟩
  · intro σ v o e w he
    rw [resolve_of_fault (by rw [he]; exact hsome), exhausted, he, hraw, hfallback]
  · intro σ v o page i raws r d w hi ho hwidth
    have htag : (Page.ofTags raws)[i]? = some (Include.ofRaw raw).read.1 := by
      rw [Page.ofTags, List.getElem?_map, hi]
      rfl
    have he : (errands page (Page.ofTags raws) r d)[i]? =
        some ⟨⟨page, i, (Include.ofRaw raw).read.1⟩, r, d⟩ := by
      rw [getElem?_errands, htag]
      rfl
    obtain ⟨hothers, hadds⟩ := addsOnly_of_fault he hsome
      (by rw [map_raw_errands, Page.raws_ofTags]; exact ho)
      (by rw [hraw]; exact hwidth raw (List.mem_of_getElem? hi)) v o w
    simp only [Visit.isWanted_eq, hcondition, hfallback, hraw, resolveThese_errands] at hadds
    refine ⟨hothers, hadds, ?_⟩
    rintro rfl hnever
    obtain ⟨res, -, hres, -⟩ := exists_resolveAll (o := o) hnever page r w
      (by rw [Page.raws_ofTags]; exact ho) (by rw [Page.raws_ofTags]; exact hwidth)
    refine ⟨res, hres, ?_⟩
    -- the other tags do not fail the page, or else it would have failed
    cases hrest : (v.resolveThese o ((errands page (Page.ofTags raws) r .never).eraseIdx i)
      w).2 with
    | error err => cases (hadds.failed err hrest).symm.trans hres
    | ok res' =>
      obtain ⟨_, hall, hpatch, -⟩ := hadds.resolved res' hrest
      cases hall.symm.trans hres
      exact hpatch

/-! ## 3. A page with a tag that cannot be read

It gives a time to live that is none, and a fallback text behind that. The other tag of the page has
the same source. -/

namespace Spoiled

def raw : RawTag := ⟨Text.utf8 "include ttl=soon onerror='n/a' src=a".toList, 0, 43⟩

def found : List RawTag := [raw, ⟨Text.utf8 "include src=a".toList, 43, 63⟩]

def attributes : List Attribute :=
  [⟨"ttl".toList, "soon".toList⟩, ⟨"onerror".toList, "n/a".toList⟩, ⟨"src".toList, ['a']⟩]

def outside : Surroundings Unit where
  network _ s := (s, none, .failed ⟨true, "no network"⟩)
  program _ _ s := (s, .missing "no programs")
  custom _ _ s := (s, ⟨some 1, .ok ⟨.empty, Text.utf8 ['+']⟩⟩)
  close _ s := s
  pace := 1000000

def resolver : Resolver where
  registry := Registry.empty.withAlias "a".toList (.custom 0 "a".toList)
  breakers := .standard
  timeout := .ofSeconds 1
  lifetime := 0
  maxBody := 1024

def request : Request := .ofParts Request.get .root .empty

def world : World Unit := .new () [] 9000 none

end Spoiled

open Spoiled in
theorem resolve_wrong_sample : ∃ res,
    (resolver.resolveAll outside 0 (Page.ofTags found) request .never world).2 = .ok res ∧
    res.tags.patches[0]? = some ⟨0, 43, Text.utf8 "n/a".toList⟩ := by
  have htells : Include.Tells raw "include".toList attributes :=
    ⟨"include ttl=soon onerror='n/a' src=a".toList, " ttl=soon onerror='n/a' src=a".toList,
      by decide +kernel, by decide +kernel, by decide +kernel⟩
  have hwrong : Include.Wrong "include".toList attributes :=
    .inr (.inl ⟨_, List.mem_cons_self, fun hfine =>
      hfine _ (.duration (.inr rfl) (by decide +kernel))⟩)
  obtain ⟨done, f, -, ⟨-, -, -, hcondition⟩, -, hpage⟩ := resolve_wrong htells hwrong
  have hnone : (Include.ofRaw raw).read.1.condition = none := by decide +kernel
  obtain ⟨-, -, hok⟩ := hpage Unit resolver outside 0 0 found request .never world rfl (by decide)
    (by decide)
  obtain ⟨res, hres, hpatch⟩ := hok rfl fun _ _ _ _ _ => rfl
  refine ⟨res, hres, hpatch.trans ?_⟩
  rw [standInFor, ← hcondition, hnone]
  decide +kernel

end Resolver

end EdgeInclude

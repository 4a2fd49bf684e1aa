import EdgeInclude.Proofs.Resolver.Together
import EdgeInclude.Proofs.Splice.Bytewise
import Mathlib.Data.List.Forall2
import Mathlib.Data.List.Nodup

/-!
# What is put into a page

What a tag yields decides what stands in the page in its place, and the replacements of all tags
are those of a page, because the tags come in the order of their spans.

* `Share`, `Resolver.StandsIn` — what stands in for a tag, and why.
* `Resolver.standsIn_share` — a tag that waits for nothing has such a share.
* `Resolver.errands_nodup` — the tags of a page are different from each other.
* `Resolver.parts_of_assemble`, `Resolver.assemble_of_parts` — what is put into a page is made of
  the replacements of its tags.
* `Resolver.exists_assemble` — the shares of all tags make the replacements of the page.
-/

namespace EdgeInclude

/-! ## 1. Shares -/

/-- What stands in a page in place of a tag, and whether it is there because the tag has failed. -/
structure Share where
  content : Bytes
  fellBack : Bool
  deriving DecidableEq, Repr

/-- The share of a tag as a patch of its page. -/
def Share.patch (t : RawTag) (s : Share) : Patch := ⟨t.start, t.stop, s.content⟩

namespace Resolver

variable {σ : Type} {v : Resolver} {o : Surroundings σ} {es : List Errand} {w : World σ}

/-- What stands in for a tag of a page: nothing if its condition does not hold, else the content
that it yields among the other tags `es`, else its fallback text, or nothing if it has none. -/
inductive StandsIn (v : Resolver) (o : Surroundings σ) (es : List Errand) (w : World σ)
    (e : Errand) : Share → Prop where
  | omitted (unwanted : Visit.isWanted e = false) : StandsIn v o es w e ⟨[], false⟩
  | resolved {n : Nat} {r : Response} (wanted : Visit.isWanted e = true)
      (yields : v.YieldsAmong o es w e ⟨n, .ok r⟩) : StandsIn v o es w e ⟨r.content, false⟩
  | fallback {n : Nat} (wanted : Visit.isWanted e = true)
      (yields : v.YieldsAmong o es w e ⟨n, .error (exhausted e.seat.tag n)⟩) :
      StandsIn v o es w e ⟨Text.utf8 (e.seat.tag.fallback.getD []), true⟩

/-- The share of a visit. -/
def share (visit : Visit) : Share :=
  ⟨match standIn visit with
    | .ok r => r.content
    | .error _ => [],
    fellBack visit⟩

theorem standIn_of_ok {visit : Visit} {r : Response} (h : outcome visit = .ok r) :
    standIn visit = .ok r := by
  unfold standIn
  rw [h]

theorem share_of_ok {visit : Visit} {r : Response} (h : outcome visit = .ok r) :
    share visit = ⟨r.content, false⟩ := by
  unfold share fellBack
  rw [standIn_of_ok h, h]

/-- A tag whose sources have all failed has its fallback text. -/
theorem standIn_of_exhausted {visit : Visit} {tag : Include} {n : Nat}
    (h : outcome visit = .error (exhausted tag n)) :
    standIn visit = .ok ⟨.empty, Text.utf8 (tag.fallback.getD [])⟩ := by
  unfold standIn
  rw [h]
  rfl

theorem share_of_exhausted {visit : Visit} {tag : Include} {n : Nat}
    (h : outcome visit = .error (exhausted tag n)) :
    share visit = ⟨Text.utf8 (tag.fallback.getD []), true⟩ := by
  unfold share fellBack
  rw [standIn_of_exhausted h, h]
  rfl

/-- **A tag of a request that is not given up has a share**; nothing that happens to it fails the
page. -/
theorem standsIn_share (hg : v.registry.NeverCancels o) {visit : Visit}
    (hd : visit.errand.departure = .never) (h : visit.Ends v o es w) :
    StandsIn v o es w visit.errand (share visit) ∧ ∃ r, standIn visit = .ok r := by
  cases h with
  | omitted hp hi =>
    have ho : outcome visit = .ok ⟨.empty, []⟩ := by
      unfold outcome
      rw [hp]
    rw [share_of_ok ho]
    exact ⟨.omitted hi, _, standIn_of_ok ho⟩
  | @done out hp hi hy =>
    have ho : outcome visit = out.result := by
      unfold outcome
      rw [hp]
    rcases hy.isFinal hg hd with ⟨r, hr⟩ | hr
    · obtain ⟨n, result⟩ := out
      have hok : result = .ok r := hr
      subst hok
      rw [share_of_ok ho]
      exact ⟨.resolved hi hy, _, standIn_of_ok ho⟩
    · obtain ⟨n, result⟩ := out
      have herr : result = .error (exhausted visit.errand.seat.tag n) := hr
      subst herr
      rw [share_of_exhausted ho]
      exact ⟨.fallback hi hy, _, standIn_of_exhausted ho⟩

/-! ## 2. The tags of a page -/

theorem map_tag_ofPage (page index : Nat) (tags : Page) :
    (Seat.ofPage page index tags).map (·.tag) = tags := by
  induction tags generalizing index with
  | nil => rfl
  | cons t rest ih => exact congrArg (t :: ·) (ih (index + 1))

theorem le_index_of_mem {page index : Nat} {tags : Page} {s : Seat}
    (h : s ∈ Seat.ofPage page index tags) : index ≤ s.index := by
  induction tags generalizing index with
  | nil => cases h
  | cons t rest ih =>
    rcases List.mem_cons.1 h with rfl | h
    · exact Nat.le_refl _
    · exact Nat.le_of_succ_le (ih h)

theorem nodup_ofPage (page index : Nat) (tags : Page) :
    (Seat.ofPage page index tags).Nodup := by
  induction tags generalizing index with
  | nil => exact .nil
  | cons t rest ih =>
    refine List.nodup_cons.2 ⟨fun h => ?_, ih (index + 1)⟩
    have := le_index_of_mem h
    exact absurd this (Nat.not_succ_le_self index)

theorem errands_nodup (page : Nat) (tags : Page) (r : Request) (d : Departure) :
    (errands page tags r d).Nodup := by
  have hinj : Function.Injective fun s : Seat => (⟨s, r, d⟩ : Errand) := fun s s' h =>
    congrArg Errand.seat h
  exact List.Nodup.map hinj (nodup_ofPage page 0 tags)

theorem map_tag_errands (page : Nat) (tags : Page) (r : Request) (d : Departure) :
    (errands page tags r d).map (·.seat.tag) = tags := by
  unfold errands
  rw [List.map_map]
  exact map_tag_ofPage page 0 tags

theorem map_raw_errands (page : Nat) (tags : Page) (r : Request) (d : Departure) :
    (errands page tags r d).map (·.seat.tag.raw) = tags.raws := by
  have h := congrArg Page.raws (map_tag_errands page tags r d)
  rwa [Page.raws, List.map_map] at h

theorem departure_of_mem {page : Nat} {tags : Page} {r : Request} {d : Departure} {e : Errand}
    (h : e ∈ errands page tags r d) : e.departure = d := by
  obtain ⟨s, _, rfl⟩ := List.mem_map.1 h
  rfl

theorem getElem?_ofPage (page index i : Nat) (tags : Page) :
    (Seat.ofPage page index tags)[i]? = tags[i]?.map fun t => ⟨page, index + i, t⟩ := by
  induction tags generalizing index i with
  | nil => rfl
  | cons t rest ih =>
    cases i with
    | zero => rfl
    | succ i =>
      show (Seat.ofPage page (index + 1) rest)[i]? = _
      rw [ih, Nat.add_right_comm]
      rfl

theorem getElem?_errands (page i : Nat) (tags : Page) (r : Request) (d : Departure) :
    (errands page tags r d)[i]? = tags[i]?.map fun t => ⟨⟨page, i, t⟩, r, d⟩ := by
  unfold errands
  rw [List.getElem?_map, getElem?_ofPage, Option.map_map, Nat.zero_add]
  rfl

/-! ## 3. The replacements of a page -/

theorem exists_mapM_ok {α β : Type} {f : α → Except Failure β} {q : α → β → Prop} {l : List α}
    (h : ∀ a ∈ l, ∃ b, f a = .ok b ∧ q a b) :
    ∃ bs, l.mapM f = .ok bs ∧ List.Forall₂ q l bs := by
  induction l with
  | nil => exact ⟨[], rfl, .nil⟩
  | cons a rest ih =>
    obtain ⟨b, hb, hq⟩ := h a (by simp)
    obtain ⟨bs, hbs, hqs⟩ := ih fun a ha => h a (.tail _ ha)
    refine ⟨b :: bs, ?_, .cons hq hqs⟩
    rw [List.mapM_cons, hb, hbs]
    rfl

theorem replacement_of_standIn {visit : Visit} {r : Response} (h : standIn visit = .ok r)
    (hw : visit.errand.seat.tag.raw.start < visit.errand.seat.tag.raw.stop) :
    replacement visit = .ok (⟨r.content, visit.errand.seat.tag.raw.start,
      visit.errand.seat.tag.raw.stop, hw⟩, r.headers) := by
  unfold replacement Replacement.make
  rw [h]
  simp only [hw, dif_pos]
  rfl

/-- The replacement of a tag is its share as a patch. -/
theorem exists_replacement {visit : Visit} {r : Response} (h : standIn visit = .ok r)
    (hw : visit.errand.seat.tag.raw.start < visit.errand.seat.tag.raw.stop) :
    ∃ part, replacement visit = .ok part ∧
      part.1.patch = (share visit).patch visit.errand.seat.tag.raw := by
  refine ⟨_, replacement_of_standIn h hw, ?_⟩
  unfold share
  rw [h]
  rfl

theorem forall₂_of_mapM_ok {α β : Type} {f : α → Except Failure β} {l : List α} {bs : List β}
    (h : l.mapM f = .ok bs) : List.Forall₂ (fun a b => f a = .ok b) l bs := by
  induction l generalizing bs with
  | nil =>
    cases h
    exact .nil
  | cons a rest ih =>
    rw [List.mapM_cons] at h
    cases hf : f a with
    | error e =>
      rw [hf] at h
      cases h
    | ok b =>
      cases hr : rest.mapM f with
      | error e =>
        rw [hf, hr] at h
        cases h
      | ok cs =>
        rw [hf, hr] at h
        cases h
        exact .cons hf (ih hr)

/-- A replacement has the span of its tag, and what stands in for the tag. -/
theorem standIn_of_replacement {visit : Visit} {part : Replacement × Headers}
    (h : replacement visit = .ok part) : ∃ r, standIn visit = .ok r ∧
      part.1.start = visit.errand.seat.tag.raw.start ∧
      part.1.stop = visit.errand.seat.tag.raw.stop ∧
      part.1.data = r.content ∧ part.2 = r.headers := by
  unfold replacement at h
  cases hs : standIn visit with
  | error e =>
    rw [hs] at h
    cases h
  | ok r =>
    rw [hs] at h
    unfold Replacement.make at h
    by_cases hw : visit.errand.seat.tag.raw.start < visit.errand.seat.tag.raw.stop
    · simp only [hw, dif_pos] at h
      cases h
      exact ⟨r, rfl, rfl, rfl, rfl, rfl⟩
    · simp only [hw, dif_neg, not_false_eq_true] at h
      cases h

/-- What is put into a page is made of the replacements of all tags. -/
theorem parts_of_assemble {vs : List Visit} {res : Resolution} (h : assemble vs = .ok res) :
    ∃ parts, List.Forall₂ (fun visit part => replacement visit = .ok part) vs parts ∧
      Replacements.ofList (parts.map (·.1)) = .ok res.tags ∧
      res.headers = parts.foldl (fun h p => h.appendAll p.2) .empty ∧
      res.fallbacks = vs.countP fellBack := by
  unfold assemble at h
  cases hp : vs.mapM replacement with
  | error e =>
    rw [hp] at h
    cases h
  | ok parts =>
    rw [hp] at h
    cases ht : Replacements.ofList (parts.map (·.1)) with
    | error e =>
      simp only [bind, Except.bind, ht] at h
      cases h
    | ok tags =>
      simp only [bind, Except.bind, ht] at h
      cases h
      exact ⟨parts, forall₂_of_mapM_ok hp, ht, rfl, rfl⟩

/-- **Replacements of tags that stand in order are what is put into the page**, as they come. -/
theorem assemble_of_parts {vs : List Visit} {parts : List (Replacement × Headers)}
    (h : vs.mapM replacement = .ok parts)
    (ho : (vs.map (·.errand.seat.tag.raw)).Pairwise fun a b => a.stop ≤ b.start) :
    ∃ hp, assemble vs = .ok ⟨⟨parts.map (·.1), hp⟩,
      parts.foldl (fun h p => h.appendAll p.2) .empty, vs.countP fellBack⟩ := by
  have hspans : vs.map (fun visit =>
      (visit.errand.seat.tag.raw.start, visit.errand.seat.tag.raw.stop)) =
        parts.map fun part => (part.1.start, part.1.stop) := by
    rw [← List.forall₂_eq_eq_eq, List.forall₂_map_left_iff, List.forall₂_map_right_iff]
    refine (forall₂_of_mapM_ok h).imp fun visit part hpart => ?_
    obtain ⟨r, -, hstart, hstop, -⟩ := standIn_of_replacement hpart
    rw [hstart, hstop]
  have hp : (parts.map (·.1)).Pairwise Replacement.Before := by
    have hpair : (parts.map fun part => (part.1.start, part.1.stop)).Pairwise
        fun a b => a.2 ≤ b.1 := by
      rw [← hspans]
      rw [List.pairwise_map] at ho ⊢
      exact ho
    rw [List.pairwise_map] at hpair ⊢
    exact hpair
  refine ⟨hp, ?_⟩
  unfold assemble
  rw [h]
  show Except.bind (Replacements.ofList (parts.map (·.1))) _ = _
  rw [Replacements.ofList_of_pairwise hp]
  rfl

/-- **The shares of all tags make the replacements of the page**, if the tags stand in it in order
and do not overlap. -/
theorem exists_assemble {vs : List Visit} (hs : ∀ visit ∈ vs, ∃ r, standIn visit = .ok r)
    (ho : (vs.map (·.errand.seat.tag.raw)).Pairwise fun a b => a.stop ≤ b.start)
    (hw : ∀ visit ∈ vs, visit.errand.seat.tag.raw.start < visit.errand.seat.tag.raw.stop) :
    ∃ res, assemble vs = .ok res ∧
      res.tags.patches = vs.map (fun visit => (share visit).patch visit.errand.seat.tag.raw) ∧
      res.fallbacks = (vs.map share).countP (·.fellBack) := by
  obtain ⟨parts, hparts, hall⟩ := exists_mapM_ok fun visit hm =>
    (hs visit hm).elim fun _ hr => exists_replacement hr (hw visit hm)
  have hpatches : parts.map (·.1.patch) =
      vs.map fun visit => (share visit).patch visit.errand.seat.tag.raw := by
    have h := List.forall₂_map_left_iff.2 (List.forall₂_map_right_iff.2 hall.flip)
    rwa [List.forall₂_eq_eq_eq] at h
  obtain ⟨hp, hres⟩ := assemble_of_parts hparts ho
  refine ⟨_, hres, ?_, ?_⟩
  · show (parts.map (·.1)).map Replacement.patch = _
    rw [List.map_map]
    exact hpatches
  · rw [List.countP_map]
    rfl

/-- **What is put into a page**: every tag has a share, and together the shares are replacements of
the page. -/
theorem exists_resolveAll (hg : v.registry.NeverCancels o) (page : Nat) {tags : Page} (r : Request)
    (w : World σ) (ho : tags.raws.Pairwise fun a b => a.stop ≤ b.start)
    (hw : ∀ t ∈ tags.raws, t.start < t.stop) :
    ∃ res shares, (v.resolveAll o page tags r .never w).2 = .ok res ∧
      List.Forall₂ (StandsIn v o (errands page tags r .never) w) (errands page tags r .never)
        shares ∧
      res.tags.patches = List.zipWith Share.patch tags.raws shares ∧
      res.fallbacks = shares.countP (·.fellBack) := by
  obtain ⟨hmap, hends⟩ := @ends_visitAll _ v o (errands page tags r .never) hg
    (fun e he => departure_of_mem he) (errands_nodup page tags r .never) w
  show ∃ res shares, assemble (v.visitAll o (errands page tags r .never) w).2 = .ok res ∧ _
  generalize (v.visitAll o (errands page tags r .never) w).2 = vs at hmap hends
  have hraws : vs.map (·.errand.seat.tag.raw) = tags.raws := by
    rw [← map_raw_errands page tags r .never, ← hmap, List.map_map]
    rfl
  have hnever : ∀ visit ∈ vs, visit.errand.departure = .never := fun visit hm =>
    departure_of_mem (hmap ▸ List.mem_map_of_mem hm)
  have hshare : ∀ visit ∈ vs, StandsIn v o (errands page tags r .never) w visit.errand
      (share visit) ∧ ∃ r, standIn visit = .ok r :=
    fun visit hm => standsIn_share hg (hnever visit hm) (hends visit hm)
  obtain ⟨res, hres, hpatches, hfall⟩ := exists_assemble (fun visit hm => (hshare visit hm).2)
    (by rw [hraws]; exact ho) (fun visit hm => hw _ (hraws ▸ List.mem_map_of_mem hm))
  refine ⟨res, vs.map share, hres, ?_, ?_, hfall⟩
  · conv => arg 2; rw [← hmap]
    rw [List.forall₂_map_left_iff, List.forall₂_map_right_iff, List.forall₂_same]
    exact fun visit hm => (hshare visit hm).1
  · rw [hpatches, ← hraws, List.zipWith_map, List.zipWith_self]

end Resolver

end EdgeInclude

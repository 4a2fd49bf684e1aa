import EdgeInclude.Proofs.Tag.Scanning

/-!
# Pages in chunks, and scanners that have been used before

However a page is cut, its chunks are one run of the scanner; and a scanner from a pool begins like
a new one, whatever the pool has been used for.

* `Scanner.feedAll_eq_feed` — chunks bring what the page in one piece brings.
* `Scanner.exists_failing_chunk` — a failure of the page is the failure of one of its chunks.
* `ScannerPool.Use`, `ScannerPool.Bench.run` — what pools are used for, with scanners in hand.
* `ScannerPool.Bench.isFresh_run` — the idle scanners of a pool are always like new.
* `feedAll_take_run` — what a scanner from a used pool finds in the chunks of a page.
-/

namespace EdgeInclude

namespace Scanner

variable {s s' : Scanner} {b : UInt8} {e : Failure} {tags found : List RawTag}

/-! ## 1. What a step keeps -/

theorem maxSize_step (s : Scanner) (b : UInt8) : (s.step b).1.maxSize = s.maxSize := by
  unfold step
  grind [advance, expect, restart, hold?]

theorem position_step {ev : Event} (h : s.step b = (s', ev)) (he : ev ≠ .tooLong) :
    s'.position = s.position + 1 := by
  unfold step at h
  grind [advance, expect, restart, hold?]

theorem maxSize_feedFrom (s : Scanner) (found : List RawTag) (page : Bytes) :
    (s.feedFrom found page).1.maxSize = s.maxSize := by
  induction page generalizing s found with
  | nil => rfl
  | cons b rest ih =>
    have hm := maxSize_step s b
    unfold feedFrom
    split
    · rename_i s' hs
      rw [ih, ← hm, hs]
    · rename_i s' t hs
      rw [ih, ← hm, hs]
    · rename_i s' hs
      rw [← hm, hs]

theorem maxSize_feed (s : Scanner) (chunk : Bytes) : (s.feed chunk).1.maxSize = s.maxSize :=
  maxSize_feedFrom s [] chunk

theorem position_feedFrom {page : Bytes} (h : s.feedFrom found page = (s', .ok tags)) :
    s'.position = s.position + page.length := by
  induction page generalizing s found with
  | nil =>
    cases h
    rfl
  | cons b rest ih =>
    unfold feedFrom at h
    split at h
    · rename_i s1 hs
      rw [ih h, position_step hs (by simp), List.length_cons]
      omega
    · rename_i s1 t hs
      rw [ih h, position_step hs (by simp), List.length_cons]
      omega
    · cases h

theorem position_feed {page : Bytes} (h : s.feed page = (s', .ok tags)) :
    s'.position = s.position + page.length := position_feedFrom h

/-! ## 2. Chunks -/

/-- Feeding goes on where it has stopped, with the tags found so far. -/
theorem feedFrom_append (s : Scanner) (found : List RawTag) (xs ys : Bytes) :
    s.feedFrom found (xs ++ ys) =
      match s.feedFrom found xs with
      | (s', .ok tags) => s'.feedFrom tags.reverse ys
      | (s', .error e) => (s', .error e) := by
  induction xs generalizing s found with
  | nil => simp [feedFrom]
  | cons b xs ih =>
    simp only [List.cons_append, feedFrom]
    rcases s.step b with ⟨s', ev⟩
    cases ev with
    | quiet => exact ih s' found
    | found t => exact ih s' (t :: found)
    | tooLong => rfl

/-- The tags found so far stand in front of those that are found from here on. -/
theorem feedFrom_found (s : Scanner) (found : List RawTag) (page : Bytes) :
    s.feedFrom found page =
      ((s.feed page).1, (s.feed page).2.map (found.reverse ++ ·)) := by
  unfold feed
  induction page generalizing s found with
  | nil => simp [feedFrom, Except.map]
  | cons b rest ih =>
    simp only [feedFrom]
    rcases s.step b with ⟨s', ev⟩
    cases ev with
    | quiet => exact ih s' found
    | found t =>
      dsimp only
      rw [ih s' (t :: found), ih s' [t]]
      cases (s'.feedFrom [] rest).2 with
      | error e => rfl
      | ok tags => simp [Except.map]
    | tooLong => rfl

theorem feed_append (s : Scanner) (xs ys : Bytes) :
    s.feed (xs ++ ys) =
      match s.feed xs with
      | (s', .ok tags) => ((s'.feed ys).1, (s'.feed ys).2.map (tags ++ ·))
      | (s', .error e) => (s', .error e) := by
  have h := feedFrom_append s [] xs ys
  unfold feed at *
  rw [h]
  match s.feedFrom [] xs with
  | (s', .ok tags) =>
    dsimp only
    rw [feedFrom_found, List.reverse_reverse, feed]
  | (s', .error e) => rfl

/-- **Chunks bring what the page in one piece brings**: the same scanner, and the same tags or the
same failure. -/
theorem feedAll_eq_feed (s : Scanner) (chunks : List Bytes) :
    s.feedAll chunks = s.feed chunks.flatten := by
  induction chunks generalizing s with
  | nil => rfl
  | cons chunk rest ih =>
    rw [List.flatten_cons, feed_append, feedAll]
    match s.feed chunk with
    | (s', .error e) => rfl
    | (s', .ok tags) =>
      dsimp only
      rw [ih s']
      match s'.feed rest.flatten with
      | (s'', .ok more) => rfl
      | (s'', .error e) => rfl

theorem feedAll_cons {chunk : Bytes} (h : s.feed chunk = (s', .ok tags)) (rest : List Bytes) :
    s.feedAll (chunk :: rest) =
      ((s'.feedAll rest).1, (s'.feedAll rest).2.map (tags ++ ·)) := by
  rw [feedAll, h]
  dsimp only
  match s'.feedAll rest with
  | (s'', .ok more) => rfl
  | (s'', .error e) => rfl

/-- When chunks fail, one of them is the first to do so. -/
theorem exists_failing_chunk {chunks : List Bytes} (h : (s.feedAll chunks).2 = .error e) :
    ∃ before chunk after tags, chunks = before ++ chunk :: after ∧
      (s.feedAll before).2 = .ok tags ∧ ((s.feedAll before).1.feed chunk).2 = .error e := by
  induction chunks generalizing s with
  | nil => cases h
  | cons chunk rest ih =>
    match hs : s.feed chunk with
    | (s', .error e') =>
      rw [feedAll, hs] at h
      cases h
      exact ⟨[], chunk, rest, [], rfl, rfl, by rw [feedAll, hs]⟩
    | (s', .ok tags) =>
      rw [feedAll_cons hs] at h
      have hrest : (s'.feedAll rest).2 = .error e := by
        cases hr : (s'.feedAll rest).2 with
        | ok more => rw [hr] at h; cases h
        | error e' => rw [hr] at h; exact h
      obtain ⟨before, chunk', after, more, rfl, hok, herr⟩ := ih hrest
      refine ⟨chunk :: before, chunk', after, tags ++ more, rfl, ?_, ?_⟩
      · rw [feedAll_cons hs, hok]
        rfl
      · rw [feedAll_cons hs]
        exact herr

end Scanner

/-! ## 3. Pools in use -/

namespace ScannerPool

/-- A pool, and the scanners that have been taken from it and not returned. -/
structure Bench where
  pool : ScannerPool
  inHand : List Scanner
  deriving DecidableEq, Repr

/-- What can be done with a pool and the scanners in hand. Those are told apart by their place. -/
inductive Use where
  | take
  | feed (place : Nat) (chunk : Bytes)
  | reset (place : Nat)
  | giveBack (place : Nat)
  | scan (page : Bytes)
  | scanReader (r : Reader)

namespace Bench

/-- One use. A place without a scanner changes nothing. -/
def apply (b : Bench) : Use → Bench
  | .take => ⟨b.pool.take.2, b.inHand ++ [b.pool.take.1]⟩
  | .feed place chunk => ⟨b.pool, b.inHand.modify place fun s => (s.feed chunk).1⟩
  | .reset place => ⟨b.pool, b.inHand.modify place Scanner.reset⟩
  | .giveBack place =>
    match b.inHand[place]? with
    | some s => ⟨b.pool.give s, b.inHand.eraseIdx place⟩
    | none => b
  | .scan page => ⟨(b.pool.scan page).2, b.inHand⟩
  | .scanReader r => ⟨(b.pool.scanReader r).2, b.inHand⟩

/-- Uses, one after the other. -/
def run (b : Bench) (uses : List Use) : Bench := uses.foldl apply b

end Bench

/-- The idle scanners are like new. -/
structure IsFresh (p : ScannerPool) (maxSize : Nat) : Prop where
  maxSize_eq : p.maxSize = maxSize
  idle_new : ∀ s ∈ p.idle, s = .new maxSize

variable {p : ScannerPool} {maxSize : Nat} {s : Scanner}

theorem isFresh_new (maxSize : Nat) : (new maxSize).IsFresh maxSize where
  maxSize_eq := rfl
  idle_new := fun _ h => by cases h

theorem IsFresh.take_eq (h : p.IsFresh maxSize) : p.take.1 = .new maxSize := by
  unfold take
  split
  · rw [h.maxSize_eq]
  · rename_i s rest hi
    exact h.idle_new s (by rw [hi]; exact List.mem_cons_self)

theorem IsFresh.take (h : p.IsFresh maxSize) : p.take.2.IsFresh maxSize := by
  unfold ScannerPool.take
  split
  · exact h
  · rename_i s rest hi
    refine ⟨h.maxSize_eq, fun t ht => h.idle_new t ?_⟩
    rw [hi]
    exact List.mem_cons_of_mem s ht

/-- A scanner that is returned forgets all but its size. -/
theorem IsFresh.give (h : p.IsFresh maxSize) (hs : s.maxSize = maxSize) :
    (p.give s).IsFresh maxSize := by
  refine ⟨h.maxSize_eq, fun t ht => ?_⟩
  rcases List.mem_cons.1 ht with rfl | ht
  · rw [Scanner.reset, hs]
  · exact h.idle_new t ht

theorem IsFresh.scan (h : p.IsFresh maxSize) (page : Bytes) : (p.scan page).2.IsFresh maxSize := by
  have hs : (p.take.1.feed page).1.maxSize = maxSize := by
    rw [Scanner.maxSize_feed, h.take_eq]
    rfl
  exact h.take.give hs

theorem IsFresh.scan_eq (h : p.IsFresh maxSize) (page : Bytes) :
    (p.scan page).1 = EdgeInclude.scan maxSize page := by
  show (p.take.1.feed page).2 = ((Scanner.new maxSize).feed page).2
  rw [h.take_eq]

theorem scanReader_snd (p : ScannerPool) (r : Reader) :
    (p.scanReader r).2 = p.take.2.give (p.take.1.feedAll r.drain.pieces).1 := by
  unfold scanReader
  dsimp only
  split <;> rfl

theorem IsFresh.scanReader (h : p.IsFresh maxSize) (r : Reader) :
    (p.scanReader r).2.IsFresh maxSize := by
  rw [scanReader_snd]
  refine h.take.give ?_
  rw [Scanner.feedAll_eq_feed, Scanner.maxSize_feed, h.take_eq]
  rfl

/-- A reader that does not fail is scanned like the page that it hands out. -/
theorem IsFresh.scanReader_eq (h : p.IsFresh maxSize) {r : Reader} (hr : r.drain.failure = none) :
    (p.scanReader r).1 = EdgeInclude.scan maxSize r.drain.pieces.flatten := by
  unfold ScannerPool.scanReader
  dsimp only
  rw [hr]
  split
  · rename_i he
    cases he
  · show (p.take.1.feedAll r.drain.pieces).2 = _
    rw [Scanner.feedAll_eq_feed, h.take_eq]
    rfl

namespace Bench

/-- What uses keep: idle scanners are like new, and those in hand have the size of the pool. -/
structure IsFresh (b : Bench) (maxSize : Nat) : Prop where
  pool : b.pool.IsFresh maxSize
  inHand : ∀ s ∈ b.inHand, s.maxSize = maxSize

variable {b : Bench}

theorem forall_mem_modify {α : Type} {q : α → Prop} {f : α → α} (hf : ∀ a, q a → q (f a))
    {l : List α} (h : ∀ a ∈ l, q a) (i : Nat) : ∀ a ∈ l.modify i f, q a := by
  intro a ha
  obtain ⟨j, hj⟩ := List.mem_iff_getElem?.1 ha
  rw [List.getElem?_modify] at hj
  obtain ⟨a', ha', rfl⟩ := Option.map_eq_some_iff.1 hj
  have hq := h a' (List.mem_of_getElem? ha')
  split
  · exact hf a' hq
  · exact hq

theorem isFresh_apply (h : b.IsFresh maxSize) (u : Use) : (b.apply u).IsFresh maxSize := by
  cases u with
  | take =>
    refine ⟨h.pool.take, fun s hs => ?_⟩
    rcases List.mem_append.1 hs with hs | hs
    · exact h.inHand s hs
    · rw [List.mem_singleton.1 hs, h.pool.take_eq]
      rfl
  | feed place chunk =>
    refine ⟨h.pool, forall_mem_modify (fun s hs => ?_) h.inHand place⟩
    rw [Scanner.maxSize_feed, hs]
  | reset place =>
    refine ⟨h.pool, forall_mem_modify (f := Scanner.reset) (fun s hs => ?_) h.inHand place⟩
    exact hs
  | giveBack place =>
    unfold apply
    dsimp only
    split
    · rename_i s hs
      exact ⟨h.pool.give (h.inHand s (List.mem_of_getElem? hs)),
        fun t ht => h.inHand t (List.mem_of_mem_eraseIdx ht)⟩
    · exact h
  | scan page => exact ⟨h.pool.scan page, h.inHand⟩
  | scanReader r => exact ⟨h.pool.scanReader r, h.inHand⟩

/-- **The idle scanners of a pool are always like new.** -/
theorem isFresh_run (h : b.IsFresh maxSize) (uses : List Use) : (b.run uses).IsFresh maxSize := by
  induction uses generalizing b with
  | nil => exact h
  | cons u uses ih => exact ih (isFresh_apply h u)

theorem isFresh_new (maxSize : Nat) : IsFresh ⟨.new maxSize, []⟩ maxSize :=
  ⟨ScannerPool.isFresh_new maxSize, fun _ h => by cases h⟩

end Bench

end ScannerPool

/-- Reads without a failure hand out all bytes up to the first empty one, which is the end. -/
theorem Reader.drain_map_ok (reads : List Bytes) :
    (drain (reads.map .ok)).failure = none ∧
      (drain (reads.map .ok)).pieces.flatten = (reads.takeWhile (!·.isEmpty)).flatten := by
  induction reads with
  | nil => exact ⟨rfl, rfl⟩
  | cons s reads ih =>
    cases s with
    | nil => exact ⟨rfl, rfl⟩
    | cons b s =>
      refine ⟨ih.1, ?_⟩
      simp only [List.map_cons, drain, List.flatten_append, flatten_slice, ih.2]
      rfl

open RawTag ScannerPool

/-- **Chunks and earlier uses do not show.** A scanner from a pool that has been used in any way
finds in the chunks of a page the tags of the page, and ends at its length; or one chunk is the
first to fail, with the failure of the page, and the tags found before it begin the list of tags in
front of the failure. Whole pages and readers are scanned as by a new scanner; an empty read ends
the input. -/
theorem feedAll_take_run (maxSize : Nat) (uses : List Use) (chunks : List Bytes) :
    let pool := (Bench.run ⟨.new maxSize, []⟩ uses).pool
    let s := pool.take.1
    (∀ tags, scan maxSize chunks.flatten = .ok tags →
      ∃ s', s.feedAll chunks = (s', .ok tags) ∧ s'.position = chunks.flatten.length) ∧
    (∀ f, scan maxSize chunks.flatten = .error f →
      ∃ before chunk after tags offset, chunks = before ++ chunk :: after ∧
        f = .malformedTag offset maxSize ∧ (s.feedAll before).2 = .ok tags ∧
        ((s.feedAll before).1.feed chunk).2 = .error f ∧
        ∃ cs, Reads chunks.flatten 0 cs ∧ tags <+: tagsBefore maxSize cs) ∧
    (∀ page, (pool.scan page).1 = scan maxSize page) ∧
    ∀ reads : List Bytes, (pool.scanReader (reads.map .ok)).1 =
      scan maxSize (reads.takeWhile (!·.isEmpty)).flatten := by
  intro pool s
  have hpool : pool.IsFresh maxSize := (Bench.isFresh_run (Bench.isFresh_new maxSize) uses).pool
  have hs : s = .new maxSize := hpool.take_eq
  have hfeed : ∀ cs : List Bytes, (s.feedAll cs).2 = scan maxSize cs.flatten := by
    intro cs
    rw [hs, Scanner.feedAll_eq_feed]
    rfl
  refine ⟨fun tags htags => ?_, fun f hf => ?_, hpool.scan_eq, fun reads => ?_⟩
  · have hres : s.feed chunks.flatten = ((s.feed chunks.flatten).1, .ok tags) := by
      rw [← htags, ← hfeed, Scanner.feedAll_eq_feed]
    refine ⟨_, (Scanner.feedAll_eq_feed s chunks).trans hres, ?_⟩
    rw [Scanner.position_feed hres, hs]
    exact Nat.zero_add _
  · obtain ⟨before, chunk, after, tags, hcut, hok, herr⟩ :=
      Scanner.exists_failing_chunk ((hfeed chunks).trans hf)
    obtain ⟨cs, hr⟩ := exists_reads chunks.flatten 0
    obtain ⟨cs', hr'⟩ := exists_reads before.flatten 0
    rw [scan_eq_verdict hr, verdict_eq_error_iff] at hf
    obtain ⟨_, c, _, _, _, _, hoffset⟩ := hf
    rw [hfeed, scan_eq_verdict hr'] at hok
    have hpage : chunks.flatten = before.flatten ++ (chunk ++ after.flatten) := by
      rw [hcut, List.flatten_append, List.flatten_cons]
    have hprefix := hr'.prefix_tagsBefore hok (hpage ▸ hr)
    refine ⟨before, chunk, after, tags, c.start, hcut, hoffset, ?_, herr, cs, hr, hprefix⟩
    rw [hfeed, scan_eq_verdict hr', hok]
  · obtain ⟨h1, h2⟩ := Reader.drain_map_ok reads
    rw [hpool.scanReader_eq h1, h2]

end EdgeInclude

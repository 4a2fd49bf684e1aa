import EdgeInclude.Proofs.Fragment.History

/-!
# The accounts of a fragment cache

Entries are replaced, found expired, dropped in bulk, evicted and removed, and each time the
recorded size is set anew, by a subtraction that would stop at zero. It never has to: what is
recorded is what the entries have.

* `FragmentCache.Reached` — the caches that uses lead to, at any times.
* `FragmentCache.Covers` — what an operation may take off the recorded size has been recorded.
* `FragmentCache.IsTidy.size_makeRoom_le` — there is room for what is stored.
* `FragmentCache.Accounted` — what holds of every cache that is reached; each use keeps this.
* `FragmentCache.accounting` — sizes, limit and counters.
-/

namespace EdgeInclude.FragmentCache

/-- How often a use looks something up. -/
def Use.lookups : Use → Nat
  | .get _ => 1
  | _ => 0

/-- The caches that uses lead to, and how many look-ups have been made. The times are any times, and
between two uses the entries may change places: the clock may stand still, and then any of the
entries that were used last at one time counts as the older one. -/
inductive Reached (limit : Option Nat) : FragmentCache → (lookups : Nat) → Prop where
  | new : Reached limit (new limit) 0
  | use {c : FragmentCache} {n : Nat} (before : Reached limit c n) (now : Nat) (u : Use) :
      Reached limit (c.use now u) (n + u.lookups)
  | reorder {c : FragmentCache} {n : Nat} {entries : List Fragment} (before : Reached limit c n)
      (perm : entries.Perm c.entries) : Reached limit { c with entries := entries } n

/-- How often a history looks something up. -/
def History.lookups (h : History) : Nat := (h.map (·.2.lookups)).sum

variable {limit : Option Nat} {c : FragmentCache} {key : Text} {now n max : Nat} {data : Bytes}
  {lifetime : Duration}

/-- A cache with a history is reached. -/
theorem reached_run (limit : Option Nat) (h : History) :
    Reached limit (run limit h) h.lookups := by
  induction h with
  | nil => exact .new
  | cons x earlier ih =>
    have hnext := ih.use x.1 x.2
    rwa [Nat.add_comm] at hnext

/-! ## 1. Sizes -/

/-- Whatever an operation may take off the recorded size has been recorded: the entry of a key, all
entries that have expired, or those that are evicted. -/
structure Covers (c : FragmentCache) : Prop where
  entry : ∀ key f, c.find? key = some f → f.data.length ≤ c.size
  expired : ∀ now, total (c.entries.filter (·.expires ≤ now)) ≤ c.size
  evicted : ∀ needed, (prefixFor needed c.entries).2 ≤ c.size

theorem IsTidy.covers (h : c.IsTidy) : c.Covers where
  entry key f hf := by
    have hsum := total_filter_ne h.nodup hf
    have hsize := h.size
    omega
  expired now := by
    have hsum := total_filter_add (·.expires ≤ now) c.entries
    have hsize := h.size
    omega
  evicted needed := by
    have hsum := total_take_add_drop (prefixFor needed c.entries).1 c.entries
    have hsize := h.size
    have hfreed := snd_prefixFor needed c.entries
    omega

theorem length_le_total {f : Fragment} {es : List Fragment} (hf : f ∈ es) :
    f.data.length ≤ total es := by
  obtain ⟨before, behind, rfl⟩ := List.append_of_mem hf
  rw [total_append, total_cons]
  omega

theorem total_perm {es fs : List Fragment} (hp : es.Perm fs) : total es = total fs :=
  (hp.map fun f : Fragment => f.data.length).sum_nat

theorem IsTidy.reorder {entries : List Fragment} (h : c.IsTidy) (hp : entries.Perm c.entries) :
    IsTidy { c with entries := entries } where
  nodup := (hp.map (·.key)).nodup_iff.2 h.nodup
  size := h.size.trans (total_perm hp).symm

theorem size_drop_le (c : FragmentCache) (key : Text) : (c.drop key).size ≤ c.size := by
  unfold drop
  split
  · exact Nat.sub_le _ _
  · exact Nat.le_refl _

/-- **There is room for what is stored**: expired entries may not be enough, but those that are
evicted free what is still missing. -/
theorem IsTidy.size_makeRoom_le (h : c.IsTidy) (hl : c.limit = some max) {size : Nat}
    (hs : size ≤ max) : (c.makeRoom size now).size + size ≤ max := by
  unfold makeRoom
  rw [hl]
  dsimp only
  generalize hkept : (if max < c.size + size then c.expire now else c) = kept
  have htidy : kept.IsTidy := by
    rw [← hkept]
    split
    · exact h.expire now
    · exact h
  split
  · -- what is missing is not more than there is
    have hneeded : kept.size + size - max ≤ total kept.entries := by
      rw [← htidy.size]
      omega
    have hfreed := (isShortest_prefixFor hneeded).enough
    rw [← snd_prefixFor] at hfreed
    have hcovers := htidy.covers.evicted (kept.size + size - max)
    show kept.size - (prefixFor (kept.size + size - max) kept.entries).2 + size ≤ max
    omega
  · omega

/-! ## 2. Counters -/

/-- The counters behind so many look-ups: each has been counted, as one that found something or as
one that did not. -/
def Counts (c : FragmentCache) (lookups : Nat) : Prop :=
  ∃ found missed, found + missed = lookups ∧ c.hits = .ofNat found ∧ c.misses = .ofNat missed

theorem Counts.congr {c' : FragmentCache} (hc : c.Counts n) (hh : c'.hits = c.hits)
    (hm : c'.misses = c.misses) : c'.Counts n := by
  unfold Counts
  rw [hh, hm]
  exact hc

theorem counters_drop (c : FragmentCache) (key : Text) :
    (c.drop key).hits = c.hits ∧ (c.drop key).misses = c.misses := by
  unfold drop
  split <;> exact ⟨rfl, rfl⟩

theorem counters_makeRoom (c : FragmentCache) (size now : Nat) :
    (c.makeRoom size now).hits = c.hits ∧ (c.makeRoom size now).misses = c.misses := by
  unfold makeRoom
  split
  · exact ⟨rfl, rfl⟩
  · dsimp only
    split
    · split <;> exact ⟨rfl, rfl⟩
    · exact ⟨rfl, rfl⟩

theorem counters_put (c : FragmentCache) (key : Text) (data : Bytes) (lifetime : Duration)
    (now : Nat) : (c.put key data lifetime now).hits = c.hits ∧
      (c.put key data lifetime now).misses = c.misses := by
  unfold put
  split
  · exact ⟨rfl, rfl⟩
  · split
    · exact ⟨rfl, rfl⟩
    · obtain ⟨hh, hm⟩ := counters_drop c key
      obtain ⟨hh', hm'⟩ := counters_makeRoom (c.drop key) data.length now
      exact ⟨hh'.trans hh, hm'.trans hm⟩

theorem Counts.get (hc : c.Counts n) (key : Text) (now : Nat) :
    (c.get key now).1.Counts (n + 1) := by
  obtain ⟨found, missed, hsum, hh, hm⟩ := hc
  obtain ⟨hdh, hdm⟩ := counters_drop c key
  rcases c.get_cases key now with ⟨f, -, -, hg⟩ | ⟨-, hg⟩
  · refine ⟨found + 1, missed, by omega, ?_, ?_⟩
    · rw [hg, UInt64.ofNat_add, ← hh]
      rfl
    · rw [hg]
      exact hdm.trans hm
  · refine ⟨found, missed + 1, by omega, ?_, ?_⟩
    · rw [hg]
      exact hdh.trans hh
    · rw [hg, UInt64.ofNat_add, ← hm]
      rfl

/-- As long as the number of look-ups fits into a counter, none has come round. -/
theorem Counts.toNat_add (hc : c.Counts n) (hn : n < 2 ^ 64) :
    c.hits.toNat + c.misses.toNat = n := by
  obtain ⟨found, missed, hsum, hh, hm⟩ := hc
  rw [hh, hm, UInt64.toNat_ofNat_of_lt' (show found < 2 ^ 64 by omega),
    UInt64.toNat_ofNat_of_lt' (show missed < 2 ^ 64 by omega), hsum]

/-! ## 3. Every cache that is reached -/

/-- What holds of a cache that is reached. -/
structure Accounted (limit : Option Nat) (c : FragmentCache) (lookups : Nat) : Prop where
  tidy : c.IsTidy
  limit_eq : c.limit = limit
  within : ∀ max, limit = some max → c.size ≤ max
  counts : c.Counts lookups

theorem accounted_new (limit : Option Nat) : Accounted limit (new limit) 0 :=
  ⟨isTidy_new limit, rfl, fun _ _ => Nat.zero_le _, 0, 0, rfl, rfl, rfl⟩

theorem Accounted.get (ha : Accounted limit c n) (key : Text) (now : Nat) :
    Accounted limit (c.get key now).1 (n + 1) := by
  have hlimit := (limit_drop c key).trans ha.limit_eq
  refine ⟨ha.tidy.get key now, ?_, fun max hm => ?_, ha.counts.get key now⟩
  · rcases c.get_cases key now with ⟨f, -, -, hg⟩ | ⟨-, hg⟩ <;> rw [hg] <;> exact hlimit
  · have hle := ha.within max hm
    have hd := size_drop_le c key
    rcases c.get_cases key now with ⟨f, hf, -, hg⟩ | ⟨-, hg⟩
    · -- what is found is taken off and put back
      have hfound := ha.tidy.covers.entry key f hf
      have hdrop : (c.drop key).size = c.size - f.data.length := by
        unfold drop
        rw [hf]
      rw [hg]
      show (c.drop key).size + f.data.length ≤ max
      omega
    · rw [hg]
      exact Nat.le_trans hd hle

theorem Accounted.put (ha : Accounted limit c n) (key : Text) (data : Bytes) (lifetime : Duration)
    (now : Nat) : Accounted limit (c.put key data lifetime now) n := by
  obtain ⟨hh, hm⟩ := counters_put c key data lifetime now
  by_cases hacc : Accepts c.limit data lifetime
  · by_cases hb : c.broken = true ∨ horizon ≤ now + lifetime
    · rw [put_of_beyond hacc hb]
      exact ⟨isTidy_breakDown c, ha.limit_eq, fun _ _ => Nat.zero_le _, ha.counts⟩
    · rw [not_or, Bool.not_eq_true, Nat.not_le] at hb
      obtain ⟨_, hst⟩ := exists_stores ha.tidy hb.1 hacc hb.2 key
      refine ⟨hst.tidy, hst.limit.trans ha.limit_eq, fun max hmax => ?_, ha.counts.congr hh hm⟩
      have hlimit : c.limit = some max := ha.limit_eq.trans hmax
      rw [put_of_accepts hacc hb.1 hb.2]
      exact (ha.tidy.drop key).size_makeRoom_le ((limit_drop c key).trans hlimit)
        (hacc.2 max hlimit)
  · rw [put_of_not_accepts hacc]
    exact ha

theorem Accounted.remove (ha : Accounted limit c n) (key : Text) :
    Accounted limit (c.remove key).1 n :=
  ⟨ha.tidy.drop key, (limit_drop c key).trans ha.limit_eq,
    fun max hm => Nat.le_trans (size_drop_le c key) (ha.within max hm),
    ha.counts.congr (counters_drop c key).1 (counters_drop c key).2⟩

theorem Accounted.clear (ha : Accounted limit c n) : Accounted limit c.clear n :=
  ⟨⟨.nil, rfl⟩, ha.limit_eq, fun _ _ => Nat.zero_le _, ha.counts⟩

theorem Accounted.reorder {entries : List Fragment} (ha : Accounted limit c n)
    (hp : entries.Perm c.entries) : Accounted limit { c with entries := entries } n :=
  ⟨ha.tidy.reorder hp, ha.limit_eq, ha.within, ha.counts⟩

theorem Reached.accounted (hr : Reached limit c n) : Accounted limit c n := by
  induction hr with
  | new => exact accounted_new limit
  | use _ now u ih =>
    cases u with
    | get key => exact ih.get key now
    | put key data lifetime => exact ih.put key data lifetime now
    | remove key => exact ih.remove key
    | clear => exact ih.clear
  | reorder _ hp ih => exact ih.reorder hp

/-- **The accounts of every cache that is reached.** The recorded size is that of the entries, and
no subtraction stops at zero: neither in the cache itself nor within an operation, where the entry
of a key has been dropped, and then those that have expired. The recorded size stays within the
limit, so that no entry is larger. Each look-up has been counted. -/
theorem accounting (hr : Reached limit c n) :
    c.size = total c.entries ∧
      (c.Covers ∧ ∀ key, (c.drop key).Covers ∧ ∀ now, ((c.drop key).expire now).Covers) ∧
      (∀ max, limit = some max → c.size ≤ max ∧ ∀ f ∈ c.entries, f.data.length ≤ max) ∧
      c.hits + c.misses = .ofNat n ∧ (n < 2 ^ 64 → c.hits.toNat + c.misses.toNat = n) := by
  obtain ⟨htidy, -, hwithin, hcounts⟩ := hr.accounted
  refine ⟨htidy.size, ⟨htidy.covers, fun key => ⟨(htidy.drop key).covers, fun now =>
    ((htidy.drop key).expire now).covers⟩⟩, fun max hm => ?_, ?_, hcounts.toNat_add⟩
  · have hle := hwithin max hm
    refine ⟨hle, fun f hf => Nat.le_trans (length_le_total hf) ?_⟩
    rw [← htidy.size]
    exact hle
  · obtain ⟨found, missed, hsum, hh, hm⟩ := hcounts
    rw [hh, hm, ← UInt64.ofNat_add, hsum]

/-- A fragment is stored anew, with a size that takes all the room there is. -/
def outgrown : History :=
  [(5, .put ['a'] [1, 2, 3, 4] 10), (4, .get ['c']), (3, .get ['a']), (2, .put ['b'] [3] 10),
    (1, .put ['a'] [1, 2] 10)]

/-- The entry that is replaced and the one that is evicted for it are each taken off once. -/
theorem accounting_outgrown :
    Reached (some 4) (run (some 4) outgrown) 2 ∧
      (run (some 4) outgrown).entries = [⟨['a'], [1, 2, 3, 4], 15⟩] ∧
      (run (some 4) outgrown).size = 4 ∧
      (run (some 4) outgrown).hits.toNat + (run (some 4) outgrown).misses.toNat = 2 := by
  have hr : Reached (some 4) (run (some 4) outgrown) 2 := reached_run (some 4) outgrown
  have hentries : (run (some 4) outgrown).entries = [⟨['a'], [1, 2, 3, 4], 15⟩] := by decide
  obtain ⟨hsize, -, -, -, hcounts⟩ := accounting hr
  refine ⟨hr, hentries, ?_, hcounts (by decide)⟩
  rw [hsize, hentries]
  rfl

end EdgeInclude.FragmentCache

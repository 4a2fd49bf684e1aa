import EdgeInclude.FragmentCache
import Mathlib.Algebra.Order.Ring.Nat
import Mathlib.Data.List.Nodup
import Mathlib.Data.List.TakeDrop

/-!
# The entries of a fragment cache

What each operation does to the list of entries, and to those of them that are still of use.

* `FragmentCache.live` — the entries that have not expired.
* `FragmentCache.IsTidy` — each key has one entry, and the recorded size is that of the entries.
* `FragmentCache.get_eq_some_iff`, `FragmentCache.mem_get` — what a look-up finds, and what is left.
* `FragmentCache.isShortest_prefixFor` — the shortest prefix that frees enough bytes.
* `FragmentCache.mem_put` — what comes into the cache by a put.
* `FragmentCache.exists_stores` — what is left of use behind it.
-/

namespace EdgeInclude.FragmentCache

variable {c : FragmentCache} {key : Text} {now : Nat} {data : Bytes} {lifetime : Duration}
  {f g : Fragment} {es : List Fragment} {n needed : Nat}

/-! ## 1. Sizes -/

/-- The sizes of entries, added up. -/
def total (es : List Fragment) : Nat := (es.map (·.data.length)).sum

@[simp] theorem total_cons (f : Fragment) (es : List Fragment) :
    total (f :: es) = f.data.length + total es := rfl

@[simp] theorem total_append (es fs : List Fragment) : total (es ++ fs) = total es + total fs := by
  unfold total
  rw [List.map_append, List.sum_append]

theorem foldr_eq_total (es : List Fragment) : es.foldr (·.data.length + ·) 0 = total es := by
  induction es with
  | nil => rfl
  | cons f rest ih => rw [List.foldr_cons, ih, total_cons]

theorem total_take_add_drop (n : Nat) (es : List Fragment) :
    total (es.take n) + total (es.drop n) = total es := by
  rw [← total_append, List.take_append_drop]

theorem total_filter_add (p : Fragment → Bool) (es : List Fragment) :
    total (es.filter p) + total (es.filter (!p ·)) = total es := by
  induction es with
  | nil => rfl
  | cons f rest ih =>
    rw [List.filter_cons, List.filter_cons]
    cases p f with
    | true =>
      simp only [Bool.not_true, if_true, Bool.false_eq_true, if_false, total_cons]
      omega
    | false =>
      simp only [Bool.not_false, if_true, Bool.false_eq_true, if_false, total_cons]
      omega

/-- The entries without the one of a key. -/
theorem total_filter_ne (hn : (es.map (·.key)).Nodup) (hf : es.find? (·.key == key) = some f) :
    total (es.filter (·.key != key)) + f.data.length = total es := by
  induction es with
  | nil => cases hf
  | cons g rest ih =>
    rw [List.map_cons, List.nodup_cons] at hn
    rw [List.find?_cons] at hf
    rw [List.filter_cons]
    by_cases hk : g.key = key
    · rw [beq_iff_eq.2 hk] at hf
      cases hf
      have hrest : rest.filter (·.key != key) = rest := List.filter_eq_self.2 fun f hm => by
        have hne : f.key ≠ key := fun h => hn.1 (hk.trans h.symm ▸ List.mem_map_of_mem hm)
        simpa using hne
      rw [if_neg (by simpa using hk), hrest, total_cons, Nat.add_comm]
    · rw [beq_eq_false_iff_ne.2 hk] at hf
      rw [if_pos (by simpa using hk), total_cons, total_cons, Nat.add_assoc, ih hn.2 hf]

/-- Each key has one entry, and the recorded size is that of the entries. -/
structure IsTidy (c : FragmentCache) : Prop where
  nodup : (c.entries.map (·.key)).Nodup
  size : c.size = total c.entries

theorem isTidy_new (limit : Option Nat) : (new limit).IsTidy := ⟨.nil, rfl⟩

theorem isTidy_breakDown (c : FragmentCache) : c.breakDown.IsTidy := ⟨.nil, rfl⟩

theorem IsTidy.eq_of_key (h : c.IsTidy) (hf : f ∈ c.entries) (hg : g ∈ c.entries)
    (hk : f.key = g.key) : f = g := List.inj_on_of_nodup_map h.nodup hf hg hk

/-! ## 2. Dropping an entry -/

theorem find?_eq_none_iff : c.find? key = none ↔ ∀ f ∈ c.entries, f.key ≠ key := by
  unfold find?
  rw [List.find?_eq_none]
  simp

theorem find?_eq_some_iff (h : c.IsTidy) :
    c.find? key = some f ↔ f ∈ c.entries ∧ f.key = key := by
  unfold find?
  constructor
  · intro hf
    exact ⟨List.mem_of_find?_eq_some hf, by simpa using List.find?_some hf⟩
  · rintro ⟨hf, rfl⟩
    cases hg : c.entries.find? (·.key == f.key) with
    | none => exact absurd (List.find?_eq_none.1 hg f hf) (by simp)
    | some g =>
      have hk : g.key = f.key := by simpa using List.find?_some hg
      rw [h.eq_of_key (List.mem_of_find?_eq_some hg) hf hk]

theorem entries_drop (c : FragmentCache) (key : Text) :
    (c.drop key).entries = c.entries.filter (·.key != key) := by
  unfold drop
  cases hf : c.find? key with
  | some e => rfl
  | none =>
    refine (List.filter_eq_self.2 fun f hm => ?_).symm
    simpa using find?_eq_none_iff.1 hf f hm

@[simp] theorem limit_drop (c : FragmentCache) (key : Text) : (c.drop key).limit = c.limit := by
  unfold drop
  split <;> rfl

@[simp] theorem broken_drop (c : FragmentCache) (key : Text) :
    (c.drop key).broken = c.broken := by
  unfold drop
  split <;> rfl

theorem mem_drop (h : f ∈ (c.drop key).entries) : f ∈ c.entries := by
  rw [entries_drop] at h
  exact List.mem_of_mem_filter h

theorem IsTidy.drop (h : c.IsTidy) (key : Text) : (c.drop key).IsTidy := by
  refine ⟨?_, ?_⟩
  · rw [entries_drop]
    exact h.nodup.sublist (List.filter_sublist.map _)
  · rw [entries_drop]
    unfold FragmentCache.drop
    cases hf : c.find? key with
    | none =>
      have hnone := find?_eq_none_iff.1 hf
      rw [List.filter_eq_self.2 fun f hm => by simpa using hnone f hm]
      exact h.size
    | some e =>
      have hsum := total_filter_ne h.nodup hf
      have hsize := h.size
      show c.size - e.data.length = _
      omega

theorem IsTidy.push (h : c.IsTidy) (hf : ∀ g ∈ c.entries, g.key ≠ f.key) : (c.push f).IsTidy := by
  refine ⟨?_, ?_⟩
  · show ((c.entries ++ [f]).map (·.key)).Nodup
    rw [List.map_append, List.nodup_append]
    refine ⟨h.nodup, List.nodup_singleton _, fun a ha b hb => ?_⟩
    obtain ⟨g, hg, rfl⟩ := List.mem_map.1 ha
    rw [List.mem_singleton.1 hb]
    exact hf g hg
  · show c.size + f.data.length = total (c.entries ++ [f])
    rw [total_append, h.size]
    rfl

/-! ## 3. Looking up -/

/-- The entries that have not expired. -/
def live (c : FragmentCache) (now : Nat) : List Fragment := c.entries.filter (now < ·.expires)

theorem mem_live : f ∈ c.live now ↔ f ∈ c.entries ∧ now < f.expires := by
  unfold live
  rw [List.mem_filter, decide_eq_true_iff]

/-- A fragment is cached under a key, and still of use. -/
def Holds (c : FragmentCache) (key : Text) (now : Nat) (data : Bytes) : Prop :=
  ∃ f, c.find? key = some f ∧ now < f.expires ∧ f.data = data

theorem IsTidy.holds_iff (h : c.IsTidy) :
    c.Holds key now data ↔ ∃ f ∈ c.live now, f.key = key ∧ f.data = data := by
  unfold Holds
  refine exists_congr fun f => ?_
  rw [find?_eq_some_iff h, mem_live]
  tauto

theorem get_eq_some_iff : (c.get key now).2 = some data ↔ c.Holds key now data := by
  unfold get Holds
  cases hf : c.find? key with
  | none => exact ⟨nofun, fun ⟨_, h, _⟩ => nomatch h⟩
  | some f =>
    dsimp only
    split
    · rename_i hl
      constructor
      · intro h
        cases h
        exact ⟨f, rfl, hl, rfl⟩
      · rintro ⟨_, hf', -, rfl⟩
        cases hf'
        rfl
    · rename_i hl
      constructor
      · exact nofun
      · rintro ⟨_, hf', hl', -⟩
        cases hf'
        exact absurd hl' hl

/-- A look-up moves the entry that it finds to the end, and drops one that has expired. -/
theorem get_cases (c : FragmentCache) (key : Text) (now : Nat) :
    (∃ f, c.find? key = some f ∧ now < f.expires ∧
      (c.get key now).1 = { (c.drop key).push f with hits := c.hits + 1 }) ∨
    (∀ data, ¬ c.Holds key now data) ∧
      (c.get key now).1 = { c.drop key with misses := c.misses + 1 } := by
  unfold get Holds
  cases hf : c.find? key with
  | none =>
    refine .inr ⟨fun _ ⟨_, h, _⟩ => (nomatch h), ?_⟩
    unfold drop
    rw [hf]
  | some f =>
    dsimp only
    split
    · rename_i hl
      exact .inl ⟨f, rfl, hl, rfl⟩
    · rename_i hl
      refine .inr ⟨?_, rfl⟩
      rintro _ ⟨_, hf', hl', -⟩
      cases hf'
      exact hl hl'

theorem broken_get (c : FragmentCache) (key : Text) (now : Nat) :
    (c.get key now).1.broken = c.broken := by
  rcases c.get_cases key now with ⟨f, -, -, hg⟩ | ⟨-, hg⟩ <;> rw [hg] <;> exact broken_drop c key

theorem key_ne_of_mem_drop (h : f ∈ (c.drop key).entries) : f.key ≠ key := by
  rw [entries_drop] at h
  simpa using (List.mem_filter.1 h).2

theorem IsTidy.get (h : c.IsTidy) (key : Text) (now : Nat) : (c.get key now).1.IsTidy := by
  have hd := h.drop key
  rcases c.get_cases key now with ⟨f, hf, -, hg⟩ | ⟨-, hg⟩
  · obtain ⟨-, rfl⟩ := (find?_eq_some_iff h).1 hf
    have hp := hd.push fun g hm => key_ne_of_mem_drop hm
    rw [hg]
    exact ⟨hp.nodup, hp.size⟩
  · rw [hg]
    exact ⟨hd.nodup, hd.size⟩

/-- **A look-up brings no fragment in.** -/
theorem mem_get (h : f ∈ (c.get key now).1.entries) : f ∈ c.entries := by
  rcases c.get_cases key now with ⟨g, hf, -, hg⟩ | ⟨-, hg⟩
  · rw [hg] at h
    rcases List.mem_append.1 h with h | h
    · exact mem_drop h
    · cases List.mem_singleton.1 h
      exact List.mem_of_find?_eq_some hf
  · rw [hg] at h
    exact mem_drop h

/-! ## 4. Making room -/

/-- The first `n` entries are the fewest whose sizes add up to `needed`. -/
structure IsShortest (needed : Nat) (es : List Fragment) (n : Nat) : Prop where
  enough : needed ≤ total (es.take n)
  least : ∀ m < n, total (es.take m) < needed

theorem isShortest_zero (es : List Fragment) : IsShortest 0 es 0 :=
  ⟨Nat.zero_le _, fun m h => absurd h (Nat.not_lt_zero m)⟩

theorem snd_prefixFor (needed : Nat) (es : List Fragment) :
    (prefixFor needed es).2 = total (es.take (prefixFor needed es).1) := by
  induction es generalizing needed with
  | nil => rfl
  | cons f rest ih =>
    unfold prefixFor
    split
    · rfl
    · show f.data.length + (prefixFor (needed - f.data.length) rest).2 = _
      rw [ih, List.take_succ_cons, total_cons]

/-- **What is evicted is the shortest prefix that frees enough**, if all entries together do. -/
theorem isShortest_prefixFor (h : needed ≤ total es) :
    IsShortest needed es (prefixFor needed es).1 := by
  induction es generalizing needed with
  | nil => exact ⟨h, fun m hm => absurd hm (Nat.not_lt_zero m)⟩
  | cons f rest ih =>
    unfold prefixFor
    split
    · rename_i h0
      subst h0
      exact isShortest_zero _
    · rename_i h0
      rw [total_cons] at h
      have hrest : IsShortest (needed - f.data.length) rest
          (prefixFor (needed - f.data.length) rest).1 := ih (by omega)
      refine ⟨?_, fun m hm => ?_⟩
      · have henough := hrest.enough
        rw [List.take_succ_cons, total_cons]
        omega
      · cases m with
        | zero => exact Nat.pos_of_ne_zero h0
        | succ m =>
          -- the first entry alone does not free enough, for then none would follow it
          have hleast := hrest.least m (Nat.lt_of_succ_lt_succ hm)
          rw [List.take_succ_cons, total_cons]
          omega

/-- How far a fragment of some size goes beyond a limit, with so many bytes in use. -/
def excess (limit : Option Nat) (used size : Nat) : Nat :=
  match limit with
  | none => 0
  | some max => used + size - max

theorem entries_expire (c : FragmentCache) (now : Nat) : (c.expire now).entries = c.live now := by
  unfold expire live
  rw [List.partition_eq_filter_filter]
  refine congrArg (List.filter · c.entries) (funext fun f => ?_)
  show (!decide (f.expires ≤ now)) = decide (now < f.expires)
  rw [← decide_not]
  exact decide_eq_decide.2 Nat.not_le

theorem IsTidy.expire (h : c.IsTidy) (now : Nat) : (c.expire now).IsTidy := by
  refine ⟨?_, ?_⟩
  · rw [entries_expire]
    exact h.nodup.sublist (List.filter_sublist.map _)
  · have hsum := total_filter_add (fun f => decide (f.expires ≤ now)) c.entries
    have hsize := h.size
    unfold FragmentCache.expire
    rw [List.partition_eq_filter_filter]
    show c.size - (c.entries.filter _).foldr _ 0 = total (c.entries.filter _)
    rw [foldr_eq_total]
    show c.size - _ = total (c.entries.filter fun f => !decide (f.expires ≤ now))
    omega

theorem IsTidy.evict (h : c.IsTidy) (needed : Nat) : (c.evict needed).IsTidy := by
  refine ⟨h.nodup.sublist ((List.drop_sublist _ _).map _), ?_⟩
  have hsum := total_take_add_drop (prefixFor needed c.entries).1 c.entries
  have hsize := h.size
  have hfreed := snd_prefixFor needed c.entries
  show c.size - (prefixFor needed c.entries).2 = total (c.entries.drop _)
  omega

/-- What making room leaves: the entries behind the shortest prefix of those of use that frees as
much as is missing, and perhaps some that have expired. -/
structure Room (c : FragmentCache) (size now n : Nat) (c' : FragmentCache) : Prop where
  tidy : c'.IsTidy
  sublist : c'.entries.Sublist c.entries
  shortest : IsShortest (excess c.limit (total (c.live now)) size) (c.live now) n
  live : c'.live now = (c.live now).drop n
  limit : c'.limit = c.limit

theorem live_live (c : FragmentCache) (now : Nat) :
    (c.live now).filter (now < ·.expires) = c.live now := by
  unfold live
  rw [List.filter_filter]
  simp

/-- **Making room evicts the shortest prefix of the entries of use**, if a fragment of the size has
room at all. -/
theorem exists_room (h : c.IsTidy) {size : Nat} (hs : ∀ max, c.limit = some max → size ≤ max) :
    ∃ n, Room c size now n (c.makeRoom size now) := by
  unfold makeRoom
  cases hl : c.limit with
  | none =>
    refine ⟨0, h, .refl _, ?_, rfl, rfl⟩
    rw [hl]
    exact isShortest_zero _
  | some max =>
    have hle := hs max hl
    have hlive : total (c.live now) ≤ c.size := by
      have hsum := total_filter_add (fun f => decide (now < f.expires)) c.entries
      rw [h.size]
      unfold FragmentCache.live
      omega
    have hfit : total (c.live now) + size ≤ max →
        IsShortest (excess c.limit (total (c.live now)) size) (c.live now) 0 := by
      intro hroom
      rw [hl]
      show IsShortest (total (c.live now) + size - max) (c.live now) 0
      rw [Nat.sub_eq_zero_of_le hroom]
      exact isShortest_zero _
    dsimp only
    by_cases hall : max < c.size + size
    · have he := h.expire now
      have hsize : (c.expire now).size = total (c.live now) := by rw [he.size, entries_expire]
      rw [if_pos hall]
      by_cases hmore : max < (c.expire now).size + size
      · rw [if_pos hmore]
        rw [hsize] at hmore ⊢
        refine ⟨(prefixFor (total (c.live now) + size - max) (c.live now)).1, he.evict _, ?_, ?_,
          ?_, rfl⟩
        · refine (List.drop_sublist _ _).trans ?_
          rw [entries_expire]
          exact List.filter_sublist
        · have hneeded : total (c.live now) + size - max ≤ total (c.live now) := by omega
          rw [hl]
          exact isShortest_prefixFor hneeded
        · show ((c.expire now).entries.drop _).filter _ = _
          rw [entries_expire, List.filter_eq_self.2]
          intro f hf
          exact decide_eq_true (mem_live.1 (List.mem_of_mem_drop hf)).2
      · rw [if_neg hmore]
        refine ⟨0, he, ?_, hfit (by omega), ?_, rfl⟩
        · rw [entries_expire]
          exact List.filter_sublist
        · show (c.expire now).entries.filter _ = c.live now
          rw [entries_expire, live_live]
    · rw [if_neg hall, if_neg hall]
      exact ⟨0, h, .refl _, hfit (by omega), rfl, rfl⟩

/-! ## 5. Storing -/

/-- Whether a fragment is stored: it has a lifetime, and is not larger than the cache. -/
def Accepts (limit : Option Nat) (data : Bytes) (lifetime : Duration) : Prop :=
  lifetime ≠ 0 ∧ ∀ max, limit = some max → data.length ≤ max

instance (limit : Option Nat) (data : Bytes) (lifetime : Duration) :
    Decidable (Accepts limit data lifetime) :=
  match limit with
  | none => decidable_of_iff (lifetime ≠ 0) ⟨fun h => ⟨h, nofun⟩, And.left⟩
  | some max => decidable_of_iff (lifetime ≠ 0 ∧ data.length ≤ max)
      ⟨fun h => ⟨h.1, fun _ he => Option.some.inj he ▸ h.2⟩, fun h => ⟨h.1, h.2 max rfl⟩⟩

theorem refuses_eq_false_iff {size : Nat} :
    c.refuses size = false ↔ ∀ max, c.limit = some max → size ≤ max := by
  unfold refuses
  cases c.limit with
  | none => exact ⟨fun _ => nofun, fun _ => rfl⟩
  | some max => simp

/-- A fragment that is not accepted changes nothing. -/
theorem put_of_not_accepts (h : ¬ Accepts c.limit data lifetime) :
    c.put key data lifetime now = c := by
  unfold put
  rw [if_pos]
  by_contra hn
  rw [Bool.or_eq_true, not_or, Bool.not_eq_true, Bool.not_eq_true, beq_eq_false_iff_ne] at hn
  exact h ⟨hn.1, refuses_eq_false_iff.1 hn.2⟩

theorem Accepts.put_eq (h : Accepts c.limit data lifetime) : c.put key data lifetime now =
    if c.broken || horizon ≤ now + lifetime then c.breakDown
    else ((c.drop key).makeRoom data.length now).push ⟨key, data, now + lifetime⟩ := by
  unfold put
  rw [if_neg]
  rw [Bool.or_eq_true, not_or, Bool.not_eq_true, Bool.not_eq_true, beq_eq_false_iff_ne]
  exact ⟨h.1, refuses_eq_false_iff.2 h.2⟩

theorem put_of_accepts (h : Accepts c.limit data lifetime) (hb : c.broken = false)
    (he : now + lifetime < horizon) : c.put key data lifetime now =
      ((c.drop key).makeRoom data.length now).push ⟨key, data, now + lifetime⟩ := by
  rw [h.put_eq, hb, Bool.false_or, if_neg (by simpa using he)]

/-- A fragment that is accepted and cannot be stored breaks the cache, unless it is broken
already. -/
theorem put_of_beyond (h : Accepts c.limit data lifetime)
    (hb : c.broken = true ∨ horizon ≤ now + lifetime) :
    c.put key data lifetime now = c.breakDown := by
  rw [h.put_eq, if_pos]
  rwa [Bool.or_eq_true, decide_eq_true_iff]

@[simp] theorem broken_makeRoom (c : FragmentCache) (size now : Nat) :
    (c.makeRoom size now).broken = c.broken := by
  unfold makeRoom
  split
  · rfl
  · dsimp only
    split
    · split <;> rfl
    · rfl

theorem limit_makeRoom (c : FragmentCache) (size now : Nat) :
    (c.makeRoom size now).limit = c.limit := by
  unfold makeRoom
  split
  · rfl
  · dsimp only
    split
    · split <;> rfl
    · rfl

theorem limit_put (c : FragmentCache) (key : Text) (data : Bytes) (lifetime : Duration)
    (now : Nat) : (c.put key data lifetime now).limit = c.limit := by
  unfold put
  split
  · rfl
  · split
    · rfl
    · exact (limit_makeRoom _ _ now).trans (limit_drop c key)

theorem mem_makeRoom {size : Nat} (h : f ∈ (c.makeRoom size now).entries) : f ∈ c.entries := by
  have hexpire : f ∈ (c.expire now).entries → f ∈ c.entries := by
    intro hf
    rw [entries_expire] at hf
    exact (mem_live.1 hf).1
  unfold makeRoom at h
  split at h
  · exact h
  · dsimp only at h
    split at h
    · split at h
      · exact hexpire (List.mem_of_mem_drop h)
      · exact hexpire h
    · exact h

/-- Nothing but the fragment that is stored comes into the cache. -/
theorem mem_put (h : f ∈ (c.put key data lifetime now).entries) :
    f ∈ c.entries ∨ f.key = key ∧ f.data = data := by
  unfold put at h
  split at h
  · exact .inl h
  · split at h
    · cases h
    · rcases List.mem_append.1 h with h | h
      · exact .inl (mem_drop (mem_makeRoom h))
      · obtain rfl := List.mem_singleton.1 h
        exact .inr ⟨rfl, rfl⟩

/-- The entries of use of all other keys. -/
def others (c : FragmentCache) (key : Text) (now : Nat) : List Fragment :=
  (c.live now).filter (·.key != key)

theorem live_drop (c : FragmentCache) (key : Text) (now : Nat) :
    (c.drop key).live now = c.others key now := by
  unfold live others live
  rw [entries_drop, List.filter_comm]

theorem mem_others : f ∈ c.others key now ↔ f ∈ c.live now ∧ f.key ≠ key := by
  unfold others
  rw [List.mem_filter, bne_iff_ne]

/-- What storing a fragment leaves: of the entries of use of all other keys those behind the
shortest prefix that frees as much as is missing, and behind them the new one. -/
structure Stores (c : FragmentCache) (key : Text) (data : Bytes) (lifetime : Duration) (now n : Nat)
    (c' : FragmentCache) : Prop where
  tidy : c'.IsTidy
  entries : ∃ kept, kept.Sublist (c.drop key).entries ∧
    c'.entries = kept ++ [⟨key, data, now + lifetime⟩]
  shortest : IsShortest (excess c.limit (total (c.others key now)) data.length)
    (c.others key now) n
  live : c'.live now = (c.others key now).drop n ++ [⟨key, data, now + lifetime⟩]
  limit : c'.limit = c.limit

theorem exists_stores (h : c.IsTidy) (hb : c.broken = false) (ha : Accepts c.limit data lifetime)
    (he : now + lifetime < horizon) (key : Text) :
    ∃ n, Stores c key data lifetime now n (c.put key data lifetime now) := by
  have hlimit := limit_drop c key
  obtain ⟨n, hroom⟩ := @exists_room (c.drop key) now (h.drop key) data.length
    (by rw [hlimit]; exact ha.2)
  have hshort := hroom.shortest
  have hlive := hroom.live
  rw [live_drop] at hshort hlive
  rw [hlimit] at hshort
  rw [put_of_accepts ha hb he]
  refine ⟨n, hroom.tidy.push fun g hg => key_ne_of_mem_drop (hroom.sublist.subset hg),
    ⟨_, hroom.sublist, rfl⟩, hshort, ?_, hroom.limit.trans hlimit⟩
  have hpos : now < now + lifetime := Nat.lt_add_of_pos_right (Nat.pos_of_ne_zero ha.1)
  show (((c.drop key).makeRoom data.length now).entries ++ [_]).filter _ = _
  rw [List.filter_append, List.filter_singleton, decide_eq_true hpos, ← hlive]
  rfl

end EdgeInclude.FragmentCache

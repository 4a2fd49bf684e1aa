import EdgeInclude.Proofs.Fragment.Entries

/-!
# A fragment cache in use

Fragments are looked up, stored and removed in any order, each time at a later time than before.
What a look-up finds is told by the history alone: what has been stored last under the key, unless
something has ended it since. That is so as long as the clock can tell when each fragment ends; a
put beyond that loses everything, its own fragment included.

* `FragmentCache.Use`, `FragmentCache.History`, `FragmentCache.run` — what is done with a cache.
* `FragmentCache.History.IsTold` — the clock can tell when each fragment ends that is stored.
* `FragmentCache.Stored` — what a history has stored under a key; `FragmentCache.Ends` — what ends
  it, and `FragmentCache.Evicts` — for want of room.
* `FragmentCache.lastUse` — when a key has been used last.
* `FragmentCache.mem_live_run` — the entries of use are those that the history has stored.
* `FragmentCache.Sound` — the entries stand in the order of their last use; each use keeps this.
* `FragmentCache.EvictsOldest` — what a put does that is accepted.
* `FragmentCache.reads_and_evictions` — what a look-up finds, and what is evicted.
* `FragmentCache.Lost`, `FragmentCache.get_behind_break` — nothing is found behind a put that breaks
  the cache; `FragmentCache.exists_unkept` — there are such puts.
-/

namespace EdgeInclude.FragmentCache

/-! ## 1. Histories -/

/-- What is done with a cache. -/
inductive Use where
  | get (key : Text)
  | put (key : Text) (data : Bytes) (lifetime : Duration)
  | remove (key : Text)
  | clear
  deriving DecidableEq, Repr

/-- Uses with their times, the latest first. -/
abbrev History := List (Nat × Use)

/-- The clock goes on from each use to the next one. -/
def History.IsTimed (h : History) : Prop := h.Pairwise fun later earlier => earlier.1 < later.1

instance (h : History) : Decidable h.IsTimed :=
  inferInstanceAs (Decidable (h.Pairwise fun later earlier => earlier.1 < later.1))

/-- The clock can tell when the fragment ends that a use stores, if it stores one. -/
def Use.IsTold (limit : Option Nat) (now : Nat) : Use → Prop
  | .put _ data lifetime => Accepts limit data lifetime → now + lifetime < horizon
  | _ => True

instance (limit : Option Nat) (now : Nat) : (u : Use) → Decidable (u.IsTold limit now)
  | .put _ data lifetime =>
    inferInstanceAs (Decidable (Accepts limit data lifetime → now + lifetime < horizon))
  | .get _ | .remove _ | .clear => .isTrue trivial

/-- The clock can tell when each fragment ends that is stored. -/
def History.IsTold (limit : Option Nat) (h : History) : Prop := ∀ x ∈ h, x.2.IsTold limit x.1

instance (limit : Option Nat) (h : History) : Decidable (h.IsTold limit) :=
  inferInstanceAs (Decidable (∀ x ∈ h, x.2.IsTold limit x.1))

/-- One use at a time. -/
def use (c : FragmentCache) (now : Nat) : Use → FragmentCache
  | .get key => (c.get key now).1
  | .put key data lifetime => c.put key data lifetime now
  | .remove key => (c.remove key).1
  | .clear => c.clear

/-- A cache with a history. -/
def run (limit : Option Nat) : History → FragmentCache
  | [] => new limit
  | (now, u) :: earlier => (run limit earlier).use now u

/-- A put evicts the fragment of another key: it has been of use before, and is gone behind. -/
structure Evicts (c : FragmentCache) (now : Nat) (key : Text) (data : Bytes) (lifetime : Duration)
    (other : Text) : Prop where
  ne : other ≠ key
  before : ∃ f ∈ c.live now, f.key = other
  gone : ∀ f ∈ (c.put key data lifetime now).live now, f.key ≠ other

/-- What ends the fragment of a key, behind a history. -/
inductive Ends (limit : Option Nat) (key : Text) (earlier : History) : Nat × Use → Prop where
  | replaced {now : Nat} {data : Bytes} {lifetime : Duration}
      (accepts : Accepts limit data lifetime) : Ends limit key earlier (now, .put key data lifetime)
  | removed {now : Nat} : Ends limit key earlier (now, .remove key)
  | cleared {now : Nat} : Ends limit key earlier (now, .clear)
  | evicted {now : Nat} {other : Text} {data : Bytes} {lifetime : Duration}
      (evicts : Evicts (run limit earlier) now other data lifetime key) :
      Ends limit key earlier (now, .put other data lifetime)

/-- The fragment that has been stored under a key: of the latest put that has been accepted, for a
time from then on, and nothing has ended it since. -/
inductive Stored (limit : Option Nat) (key : Text) : History → Bytes → (expires : Nat) → Prop where
  | put {now : Nat} {data : Bytes} {lifetime : Duration} {earlier : History}
      (accepts : Accepts limit data lifetime) :
      Stored limit key ((now, .put key data lifetime) :: earlier) data (now + lifetime)
  | since {u : Nat × Use} {earlier : History} {data : Bytes} {expires : Nat}
      (stored : Stored limit key earlier data expires) (lasts : ¬ Ends limit key earlier u) :
      Stored limit key (u :: earlier) data expires

/-- Whether a use behind a history is one of a key: a look-up that finds a fragment, or a put that
is accepted. -/
def touches (limit : Option Nat) (earlier : History) (key : Text) (u : Nat × Use) : Bool :=
  match u.2 with
  | .get k => k == key && ((run limit earlier).get k u.1).2.isSome
  | .put k data lifetime => k == key && decide (Accepts limit data lifetime)
  | _ => false

/-- The time of the last use of a key; zero, if it has not been used. -/
def lastUse (limit : Option Nat) (key : Text) : History → Nat
  | [] => 0
  | u :: earlier => if touches limit earlier key u then u.1 else lastUse limit key earlier

variable {limit : Option Nat} {c : FragmentCache} {key other : Text} {t now : Nat} {data : Bytes}
  {lifetime : Duration} {f : Fragment} {h : History} {u : Use}

/-! ## 2. The order of use -/

theorem limit_use (c : FragmentCache) (now : Nat) (u : Use) : (c.use now u).limit = c.limit := by
  cases u with
  | get key =>
    show (c.get key now).1.limit = c.limit
    rcases c.get_cases key now with ⟨f, -, -, hg⟩ | ⟨-, hg⟩ <;> rw [hg] <;> exact limit_drop c key
  | put key data lifetime => exact limit_put c key data lifetime now
  | remove key => exact limit_drop c key
  | clear => rfl

theorem limit_run (limit : Option Nat) (h : History) : (run limit h).limit = limit := by
  induction h with
  | nil => rfl
  | cons x earlier ih => exact (limit_use _ x.1 x.2).trans ih

theorem accepts_run : Accepts (run limit h).limit data lifetime ↔ Accepts limit data lifetime := by
  rw [limit_run]

theorem lastUse_lt (hn : ∀ u ∈ h, u.1 < now) (hne : h ≠ []) : lastUse limit key h < now := by
  induction h with
  | nil => exact absurd rfl hne
  | cons u earlier ih =>
    have hu := hn u List.mem_cons_self
    unfold lastUse
    split
    · exact hu
    · cases earlier with
      | nil => exact Nat.zero_lt_of_lt hu
      | cons u' rest =>
        exact ih (fun x hx => hn x (List.mem_cons_of_mem _ hx)) (List.cons_ne_nil _ _)

theorem lastUse_of_touches {u : Nat × Use} (ht : touches limit h key u = true) :
    lastUse limit key (u :: h) = u.1 := if_pos ht

theorem lastUse_of_not_touches {u : Nat × Use} (ht : touches limit h key u = false) :
    lastUse limit key (u :: h) = lastUse limit key h :=
  if_neg (by rw [ht]; exact Bool.false_ne_true)

/-- What holds of a cache with a history. -/
structure Sound (limit : Option Nat) (h : History) : Prop where
  tidy : (run limit h).IsTidy
  intact : (run limit h).broken = false
  /-- The entries stand in the order of their last use. -/
  ordered : (run limit h).entries.Pairwise fun f g =>
    lastUse limit f.key h < lastUse limit g.key h

/-- Entries of other keys keep their order when a key is used. -/
theorem pairwise_of_not_touches {u : Nat × Use} {es kept : List Fragment}
    (ho : es.Pairwise fun f g => lastUse limit f.key h < lastUse limit g.key h)
    (hk : kept.Sublist es) (ht : ∀ f ∈ kept, touches limit h f.key u = false) :
    kept.Pairwise fun f g => lastUse limit f.key (u :: h) < lastUse limit g.key (u :: h) := by
  refine (ho.sublist hk).imp_of_mem fun hf hg hlt => ?_
  rwa [lastUse_of_not_touches (ht _ hf), lastUse_of_not_touches (ht _ hg)]

/-- **The entry of the key that is used goes behind all others.** -/
theorem pairwise_of_touches {u : Nat × Use} {es kept : List Fragment}
    (hn : ∀ x ∈ h, x.1 < u.1) (hne : kept ≠ [] → h ≠ [])
    (ho : es.Pairwise fun f g => lastUse limit f.key h < lastUse limit g.key h)
    (hk : kept.Sublist es) (ht : ∀ f ∈ kept, touches limit h f.key u = false)
    (hf : touches limit h f.key u = true) :
    (kept ++ [f]).Pairwise fun f g =>
      lastUse limit f.key (u :: h) < lastUse limit g.key (u :: h) := by
  refine List.pairwise_append.2 ⟨pairwise_of_not_touches ho hk ht, List.pairwise_singleton _ _, ?_⟩
  intro g hg f' hf'
  rw [List.mem_singleton.1 hf', lastUse_of_touches hf, lastUse_of_not_touches (ht g hg)]
  exact lastUse_lt hn (hne (List.ne_nil_of_mem hg))

/-- A cache that has an entry has been used. -/
theorem ne_nil_of_sublist {kept : List Fragment} (hk : kept.Sublist (run limit h).entries)
    (hne : kept ≠ []) : h ≠ [] := by
  rintro rfl
  exact hne (List.sublist_nil.1 hk)

theorem touches_get_of_ne (hk : other ≠ key) : touches limit h other (now, .get key) = false := by
  show (key == other && _) = false
  rw [beq_eq_false_iff_ne.2 hk.symm, Bool.false_and]

theorem touches_put_of_ne (hk : other ≠ key) :
    touches limit h other (now, .put key data lifetime) = false := by
  show (key == other && _) = false
  rw [beq_eq_false_iff_ne.2 hk.symm, Bool.false_and]

theorem touches_put_of_not_accepts (ha : ¬ Accepts limit data lifetime) :
    touches limit h other (now, .put key data lifetime) = false := by
  show (_ && decide (Accepts limit data lifetime)) = false
  rw [decide_eq_false ha, Bool.and_false]

theorem touches_put_self (ha : Accepts limit data lifetime) :
    touches limit h key (now, .put key data lifetime) = true := by
  show (key == key && decide (Accepts limit data lifetime)) = true
  rw [beq_self_eq_true, decide_eq_true ha, Bool.and_true]

theorem drop_sublist_entries (c : FragmentCache) (key : Text) :
    (c.drop key).entries.Sublist c.entries := by
  rw [entries_drop]
  exact List.filter_sublist

theorem Sound.get (hs : Sound limit h) (hn : ∀ x ∈ h, x.1 < now) :
    Sound limit ((now, .get key) :: h) := by
  have hk := drop_sublist_entries (run limit h) key
  have ht : ∀ f ∈ ((run limit h).drop key).entries, touches limit h f.key (now, .get key) = false :=
    fun f hf => touches_get_of_ne (key_ne_of_mem_drop hf)
  refine ⟨hs.tidy.get key now, (broken_get _ key now).trans hs.intact, ?_⟩
  show ((run limit h).get key now).1.entries.Pairwise _
  rcases (run limit h).get_cases key now with ⟨f, hf, hl, hg⟩ | ⟨-, hg⟩
  · -- the entry that is found goes to the end
    obtain ⟨-, rfl⟩ := (find?_eq_some_iff hs.tidy).1 hf
    have hsome := get_eq_some_iff.2 ⟨f, hf, hl, rfl⟩
    have htouch : touches limit h f.key (now, .get f.key) = true := by
      show (f.key == f.key && ((run limit h).get f.key now).2.isSome) = true
      rw [hsome, beq_self_eq_true]
      rfl
    rw [hg]
    exact pairwise_of_touches hn (ne_nil_of_sublist hk) hs.ordered hk ht htouch
  · rw [hg]
    exact pairwise_of_not_touches hs.ordered hk ht

/-- What is left behind a put that is accepted, if the clock can tell its end. -/
theorem Sound.exists_stores (hs : Sound limit h) (ha : Accepts limit data lifetime)
    (he : now + lifetime < horizon) (key : Text) :
    ∃ n, Stores (run limit h) key data lifetime now n
      ((run limit h).put key data lifetime now) :=
  FragmentCache.exists_stores hs.tidy hs.intact (accepts_run.2 ha) he key

theorem Sound.put (hs : Sound limit h) (hn : ∀ x ∈ h, x.1 < now)
    (hw : Accepts limit data lifetime → now + lifetime < horizon) :
    Sound limit ((now, .put key data lifetime) :: h) := by
  by_cases ha : Accepts limit data lifetime
  · obtain ⟨n, hst⟩ := hs.exists_stores ha (hw ha) key
    obtain ⟨kept, hkept, he⟩ := hst.entries
    have hk := hkept.trans (drop_sublist_entries (run limit h) key)
    have hput : ((run limit h).put key data lifetime now).broken = false := by
      rw [put_of_accepts (accepts_run.2 ha) hs.intact (hw ha)]
      exact (broken_makeRoom _ _ now).trans ((broken_drop _ key).trans hs.intact)
    refine ⟨hst.tidy, hput, ?_⟩
    show ((run limit h).put key data lifetime now).entries.Pairwise _
    rw [he]
    exact pairwise_of_touches hn (ne_nil_of_sublist hk) hs.ordered hk
      (fun f hf => touches_put_of_ne (key_ne_of_mem_drop (hkept.subset hf))) (touches_put_self ha)
  · have hput : (run limit h).put key data lifetime now = run limit h :=
      put_of_not_accepts (mt accepts_run.1 ha)
    have hrun : run limit ((now, .put key data lifetime) :: h) = run limit h := hput
    refine ⟨by rw [hrun]; exact hs.tidy, by rw [hrun]; exact hs.intact, ?_⟩
    rw [hrun]
    exact pairwise_of_not_touches hs.ordered (.refl _) fun f _ => touches_put_of_not_accepts ha

theorem Sound.remove (hs : Sound limit h) : Sound limit ((now, .remove key) :: h) :=
  ⟨hs.tidy.drop key, (broken_drop _ _).trans hs.intact,
    pairwise_of_not_touches hs.ordered (drop_sublist_entries _ key) fun _ _ => rfl⟩

theorem Sound.clear (hs : Sound limit h) : Sound limit ((now, .clear) :: h) :=
  ⟨⟨.nil, rfl⟩, hs.intact, .nil⟩

/-- **The entries stand in the order of their last use**, behind every history. -/
theorem sound_run (ht : h.IsTimed) (hw : h.IsTold limit) : Sound limit h := by
  induction h with
  | nil => exact ⟨isTidy_new limit, rfl, .nil⟩
  | cons x earlier ih =>
    obtain ⟨hn, hearlier⟩ := List.pairwise_cons.1 ht
    obtain ⟨hx, hwe⟩ := List.forall_mem_cons.1 hw
    have hs := ih hearlier hwe
    obtain ⟨now, u⟩ := x
    cases u with
    | get key => exact hs.get hn
    | put key data lifetime => exact hs.put hn hx
    | remove key => exact hs.remove
    | clear => exact hs.clear

/-! ## 3. What a use leaves of use -/

theorem mem_live_of_le (hle : now ≤ t) : f ∈ c.live t ↔ f ∈ c.live now ∧ t < f.expires := by
  rw [mem_live, mem_live]
  constructor
  · rintro ⟨hf, ht⟩
    exact ⟨⟨hf, Nat.lt_of_le_of_lt hle ht⟩, ht⟩
  · rintro ⟨⟨hf, -⟩, ht⟩
    exact ⟨hf, ht⟩

/-- A look-up leaves what is of use. -/
theorem mem_live_get (h : c.IsTidy) : f ∈ (c.get key now).1.live now ↔ f ∈ c.live now := by
  rw [mem_live, mem_live]
  refine and_congr_left fun hl => ?_
  rcases c.get_cases key now with ⟨g, hf, -, hg⟩ | ⟨hnone, hg⟩
  · obtain ⟨hg', rfl⟩ := (find?_eq_some_iff h).1 hf
    rw [hg]
    show f ∈ (c.drop g.key).entries ++ [g] ↔ _
    rw [List.mem_append, List.mem_singleton, entries_drop, List.mem_filter, bne_iff_ne]
    constructor
    · rintro (⟨hm, -⟩ | rfl)
      · exact hm
      · exact hg'
    · intro hm
      by_cases hk : f.key = g.key
      · exact .inr (h.eq_of_key hm hg' hk)
      · exact .inl ⟨hm, hk⟩
  · rw [hg]
    show f ∈ (c.drop key).entries ↔ _
    rw [entries_drop, List.mem_filter, bne_iff_ne]
    refine and_iff_left_of_imp fun hm hk => ?_
    exact hnone f.data ⟨f, (find?_eq_some_iff h).2 ⟨hm, hk⟩, hl, rfl⟩

/-- A put that is accepted leaves the new fragment, and those of other keys that it does not
evict. -/
theorem mem_live_put {n : Nat} (h : c.IsTidy)
    (hst : Stores c key data lifetime now n (c.put key data lifetime now)) :
    f ∈ (c.put key data lifetime now).live now ↔
      f = ⟨key, data, now + lifetime⟩ ∨
        f ∈ c.live now ∧ f.key ≠ key ∧ ¬ Evicts c now key data lifetime f.key := by
  have hmem : f ∈ (c.put key data lifetime now).live now ↔
      f ∈ (c.others key now).drop n ∨ f = ⟨key, data, now + lifetime⟩ := by
    rw [hst.live, List.mem_append, List.mem_singleton]
  constructor
  · intro hf
    rcases hmem.1 hf with ho | hnew
    · obtain ⟨hl, hk⟩ := mem_others.1 (List.mem_of_mem_drop ho)
      exact .inr ⟨hl, hk, fun he => he.gone f hf rfl⟩
    · exact .inl hnew
  · rintro (rfl | ⟨hl, hk, hne⟩)
    · exact hmem.2 (.inr rfl)
    · -- an entry of the key is left, and there is but one
      by_contra hgone
      refine hne ⟨hk, ⟨f, hl, rfl⟩, fun g hg hkey => hgone ?_⟩
      rw [hst.live, List.mem_append, List.mem_singleton] at hg
      rcases hg with ho | rfl
      · have hg' := (mem_others.1 (List.mem_of_mem_drop ho)).1
        have heq := h.eq_of_key (mem_live.1 hg').1 (mem_live.1 hl).1 hkey
        exact hmem.2 (.inl (heq ▸ ho))
      · exact absurd hkey.symm hk

theorem Evicts.accepts (he : Evicts c now key data lifetime other) :
    Accepts c.limit data lifetime := by
  by_contra ha
  obtain ⟨f, hf, hk⟩ := he.before
  exact he.gone f ((put_of_not_accepts ha).symm ▸ hf) hk

/-! ## 4. What a history has stored -/

theorem stored_cons_iff {expires : Nat} :
    Stored limit key ((t, u) :: h) data expires ↔
      (∃ lifetime, u = .put key data lifetime ∧ Accepts limit data lifetime ∧
        expires = t + lifetime) ∨
      Stored limit key h data expires ∧ ¬ Ends limit key h (t, u) := by
  constructor
  · intro hs
    cases hs with
    | put ha => exact .inl ⟨_, rfl, ha, rfl⟩
    | since hs hl => exact .inr ⟨hs, hl⟩
  · rintro (⟨lifetime, rfl, ha, rfl⟩ | ⟨hs, hl⟩)
    · exact .put ha
    · exact .since hs hl

/-- What a use other than a put leaves is what it does not end. -/
theorem stored_since_iff {expires : Nat} (hu : ∀ lifetime, u ≠ .put key data lifetime) :
    Stored limit key ((t, u) :: h) data expires ↔
      Stored limit key h data expires ∧ ¬ Ends limit key h (t, u) := by
  rw [stored_cons_iff, or_iff_right]
  rintro ⟨lifetime, hput, -⟩
  exact hu lifetime hput

theorem ends_put_iff {k : Text} {d : Bytes} :
    Ends limit key h (now, .put k d lifetime) ↔
      k = key ∧ Accepts limit d lifetime ∨ Evicts (run limit h) now k d lifetime key := by
  constructor
  · intro he
    cases he with
    | replaced ha => exact .inl ⟨rfl, ha⟩
    | evicted he => exact .inr he
  · rintro (⟨rfl, ha⟩ | he)
    · exact .replaced ha
    · exact .evicted he

/-- A put that is accepted replaces what is stored under its key, and ends what it evicts. -/
theorem stored_put_iff {k : Text} {d : Bytes} {expires : Nat} (ha : Accepts limit data lifetime) :
    Stored limit k ((t, .put key data lifetime) :: h) d expires ↔
      (k = key ∧ d = data ∧ expires = t + lifetime) ∨
        Stored limit k h d expires ∧ k ≠ key ∧ ¬ Evicts (run limit h) t key data lifetime k := by
  rw [stored_cons_iff, ends_put_iff]
  constructor
  · rintro (⟨_, hput, -, hexp⟩ | ⟨hs, hl⟩)
    · injection hput with hk hd hlt
      exact .inl ⟨hk.symm, hd.symm, hlt ▸ hexp⟩
    · exact .inr ⟨hs, fun hk => hl (.inl ⟨hk.symm, ha⟩), fun he => hl (.inr he)⟩
  · rintro (⟨rfl, rfl, rfl⟩ | ⟨hs, hk, he⟩)
    · exact .inl ⟨lifetime, rfl, ha, rfl⟩
    · refine .inr ⟨hs, ?_⟩
      rintro (⟨rfl, -⟩ | he')
      · exact hk rfl
      · exact he he'

/-- A put that is not accepted neither stores nor ends anything. -/
theorem stored_refused_iff {k : Text} {d : Bytes} {expires : Nat}
    (ha : ¬ Accepts limit data lifetime) :
    Stored limit k ((t, .put key data lifetime) :: h) d expires ↔ Stored limit k h d expires := by
  rw [stored_cons_iff, ends_put_iff]
  constructor
  · rintro (⟨_, hput, ha', -⟩ | ⟨hst, -⟩)
    · cases hput
      exact absurd ha' ha
    · exact hst
  · refine fun hst => .inr ⟨hst, ?_⟩
    rintro (⟨-, ha'⟩ | he)
    · exact ha ha'
    · exact ha (accepts_run.1 he.accepts)

/-- **The entries of use are those that the history has stored.** -/
theorem mem_live_run (ht : h.IsTimed) (hw : h.IsTold limit) (hn : ∀ x ∈ h, x.1 ≤ now) :
    f ∈ (run limit h).live now ↔ Stored limit f.key h f.data f.expires ∧ now < f.expires := by
  induction h generalizing now with
  | nil =>
    constructor
    · intro hf
      cases (mem_live.1 hf).1
    · rintro ⟨hs, -⟩
      cases hs
  | cons x earlier ih =>
    obtain ⟨hlt, hearlier⟩ := List.pairwise_cons.1 ht
    obtain ⟨hx, hwe⟩ := List.forall_mem_cons.1 hw
    have hs := sound_run hearlier hwe
    have hih := @ih x.1 hearlier hwe fun y hy => Nat.le_of_lt (hlt y hy)
    -- it is enough to look at the time of the use itself
    rw [mem_live_of_le (hn x List.mem_cons_self)]
    refine and_congr_left fun hl => ?_
    obtain ⟨t, u⟩ := x
    have hle : t ≤ now := hn _ List.mem_cons_self
    have hf : t < f.expires := Nat.lt_of_le_of_lt hle hl
    rw [and_iff_left hf] at hih
    cases u with
    | get key =>
      rw [stored_since_iff fun _ => Use.noConfusion, and_iff_left nofun, ← hih]
      exact mem_live_get hs.tidy
    | put key data lifetime =>
      by_cases ha : Accepts limit data lifetime
      · obtain ⟨n, hst⟩ := hs.exists_stores ha (hx ha) key
        rw [stored_put_iff ha, ← hih, ← Fragment.mk.injEq]
        exact mem_live_put hs.tidy hst
      · have hput : (run limit earlier).put key data lifetime t = run limit earlier :=
          put_of_not_accepts (mt accepts_run.1 ha)
        show f ∈ ((run limit earlier).put key data lifetime t).live t ↔ _
        rw [hput, hih, stored_refused_iff ha]
    | remove key =>
      rw [stored_since_iff fun _ => Use.noConfusion, ← hih]
      show f ∈ ((run limit earlier).drop key).live t ↔ _
      rw [live_drop, mem_others]
      refine and_congr_right fun _ => not_congr ?_
      constructor
      · rintro rfl
        exact .removed
      · intro he
        cases he
        rfl
    | clear =>
      rw [stored_since_iff fun _ => Use.noConfusion]
      constructor
      · intro hm
        cases (mem_live.1 hm).1
      · rintro ⟨-, hl⟩
        exact absurd .cleared hl

/-! ## 5. Reads and evictions -/

/-- What a put does that is accepted behind a history: the entries of use of all other keys stand in
the order of their last use, and it evicts the shortest prefix of them that frees as much as is
missing. -/
structure EvictsOldest (limit : Option Nat) (h : History) (now : Nat) (key : Text) (data : Bytes)
    (lifetime : Duration) (n : Nat) : Prop where
  ordered : ((run limit h).others key now).Pairwise fun f g =>
    lastUse limit f.key h < lastUse limit g.key h
  shortest : IsShortest (excess limit (total ((run limit h).others key now)) data.length)
    ((run limit h).others key now) n
  evicted : ∀ other, Evicts (run limit h) now key data lifetime other ↔
    ∃ f ∈ ((run limit h).others key now).take n, f.key = other
  /-- What is left of use, and the new fragment behind it. -/
  left : ((run limit h).put key data lifetime now).live now =
    ((run limit h).others key now).drop n ++ [⟨key, data, now + lifetime⟩]

theorem others_sublist (c : FragmentCache) (key : Text) (now : Nat) :
    (c.others key now).Sublist c.entries := List.filter_sublist.trans List.filter_sublist

/-- What is evicted is the prefix that is not left. -/
theorem evicts_iff {n : Nat} (h : c.IsTidy)
    (hst : Stores c key data lifetime now n (c.put key data lifetime now)) :
    Evicts c now key data lifetime other ↔ ∃ f ∈ (c.others key now).take n, f.key = other := by
  constructor
  · intro he
    obtain ⟨f, hf, rfl⟩ := he.before
    have ho : f ∈ (c.others key now).take n ++ (c.others key now).drop n := by
      rw [List.take_append_drop]
      exact mem_others.2 ⟨hf, he.ne⟩
    rcases List.mem_append.1 ho with ht | hd
    · exact ⟨f, ht, rfl⟩
    · refine absurd rfl (he.gone f ?_)
      rw [hst.live]
      exact List.mem_append_left _ hd
  · rintro ⟨f, hf, rfl⟩
    obtain ⟨hl, hk⟩ := mem_others.1 (List.mem_of_mem_take hf)
    refine ⟨hk, ⟨f, hl, rfl⟩, fun g hg hkey => ?_⟩
    rw [hst.live, List.mem_append, List.mem_singleton] at hg
    rcases hg with hd | rfl
    · have hg := (mem_others.1 (List.mem_of_mem_drop hd)).1
      cases h.eq_of_key (mem_live.1 hg).1 (mem_live.1 hl).1 hkey
      have hnodup : (c.others key now).Nodup := h.nodup.of_map.sublist (others_sublist c key now)
      exact List.disjoint_take_drop hnodup (Nat.le_refl n) hf hd
    · exact hk hkey.symm

theorem Sound.evictsOldest (hs : Sound limit h) (ha : Accepts limit data lifetime)
    (he : now + lifetime < horizon) (key : Text) :
    ∃ n, EvictsOldest limit h now key data lifetime n := by
  obtain ⟨n, hst⟩ := hs.exists_stores ha he key
  refine ⟨n, hs.ordered.sublist (others_sublist _ key now), ?_, fun other => evicts_iff hs.tidy hst,
    hst.live⟩
  have hshort := hst.shortest
  rwa [limit_run] at hshort

/-- Something is evicted only for want of room: the entries of use of all other keys and the new
fragment together go beyond the limit. -/
theorem EvictsOldest.lt_total {n : Nat} (ho : EvictsOldest limit h now key data lifetime n)
    (he : Evicts (run limit h) now key data lifetime other) :
    ∃ max, limit = some max ∧ max < total ((run limit h).others key now) + data.length := by
  obtain ⟨f, hf, -⟩ := (ho.evicted other).1 he
  have hpos : 0 < n := by
    refine Nat.pos_of_ne_zero ?_
    rintro rfl
    cases hf
  -- an empty prefix would have freed enough otherwise
  have hneeded : 0 < excess limit (total ((run limit h).others key now)) data.length :=
    ho.shortest.least 0 hpos
  unfold excess at hneeded
  cases limit with
  | none => exact absurd hneeded (Nat.lt_irrefl 0)
  | some max => exact ⟨max, rfl, Nat.lt_of_sub_pos hneeded⟩

/-- **What a look-up finds, and what a put evicts, behind every history** whose fragments end at
times that the clock can tell. A look-up finds the fragment of the last put of its key that has been
accepted, until its lifetime is over, unless it has been removed, cleared or evicted since. A put
evicts only for want of room, and then the shortest prefix of the other fragments of use, in the
order of their last use, that frees as much as is missing; its own fragment is of use behind it. -/
theorem reads_and_evictions (limit : Option Nat) (h : History) (now : Nat) (ht : h.IsTimed)
    (hw : h.IsTold limit) (hn : ∀ x ∈ h, x.1 < now) :
    (∀ key data, ((run limit h).get key now).2 = some data ↔
      ∃ expires, Stored limit key h data expires ∧ now < expires) ∧
    (∀ key data lifetime other, now + lifetime < horizon →
      Evicts (run limit h) now key data lifetime other → Accepts limit data lifetime ∧
        ∃ max, limit = some max ∧ max < total ((run limit h).others key now) + data.length) ∧
    ∀ key data lifetime, Accepts limit data lifetime → now + lifetime < horizon →
      ∃ n, EvictsOldest limit h now key data lifetime n := by
  have hs := sound_run ht hw
  refine ⟨fun key data => ?_, fun key data lifetime other hend he => ?_,
    fun key data lifetime ha hend => hs.evictsOldest ha hend key⟩
  · rw [get_eq_some_iff, hs.tidy.holds_iff]
    constructor
    · rintro ⟨f, hf, rfl, rfl⟩
      exact ⟨f.expires, (mem_live_run ht hw fun x hx => Nat.le_of_lt (hn x hx)).1 hf⟩
    · rintro ⟨expires, hst⟩
      exact ⟨⟨key, data, expires⟩,
        (mem_live_run ht hw fun x hx => Nat.le_of_lt (hn x hx)).2 hst, rfl, rfl⟩
  · have ha : Accepts limit data lifetime := accepts_run.1 he.accepts
    obtain ⟨n, ho⟩ := hs.evictsOldest ha hend key
    exact ⟨ha, ho.lt_total he⟩

/-- One fragment is stored behind another one, which is looked up then. -/
def rereadFirst : History :=
  [(4, .get ['a']), (3, .put ['b'] [2] 10), (2, .put ['a'] [1] 10)]

/-- In a cache of three bytes, a put of two evicts the fragment that has been stored later, as the
other one has been read since. -/
theorem rereadFirst_evicts_unread :
    rereadFirst.IsTimed ∧ rereadFirst.IsTold (some 3) ∧ (∀ x ∈ rereadFirst, x.1 < 5) ∧
      Accepts (some 3) [3, 3] 10 ∧ 5 + 10 < horizon ∧
      ((run (some 3) rereadFirst).get ['a'] 5).2 = some [1] ∧
      Evicts (run (some 3) rereadFirst) 5 ['c'] [3, 3] 10 ['b'] ∧
      ¬ Evicts (run (some 3) rereadFirst) 5 ['c'] [3, 3] 10 ['a'] := by
  have ht : rereadFirst.IsTimed := by decide
  have hw : rereadFirst.IsTold (some 3) := by decide
  have hn : ∀ x ∈ rereadFirst, x.1 < 5 := by decide
  have ha : Accepts (some 3) [3, 3] 10 := by decide
  have he : 5 + 10 < horizon := by decide
  obtain ⟨hreads, -, hputs⟩ := reads_and_evictions (some 3) rereadFirst 5 ht hw hn
  obtain ⟨n, ho⟩ := hputs ['c'] [3, 3] 10 ha he
  have hothers : (run (some 3) rereadFirst).others ['c'] 5 =
      [⟨['b'], [2], 13⟩, ⟨['a'], [1], 12⟩] := by decide
  obtain ⟨henough, hleast⟩ := hothers ▸ ho.shortest
  have hone : n = 1 := by
    match n with
    | 0 => exact absurd henough (by decide)
    | 1 => rfl
    | n + 2 => exact absurd (hleast 1 (Nat.lt_add_left _ Nat.one_lt_two)) (by decide)
  subst hone
  refine ⟨ht, hw, hn, ha, he, (hreads _ _).2 ⟨12, ?_, by decide⟩, (ho.evicted _).2 ?_,
    mt (ho.evicted _).1 ?_⟩
  · have hput : ¬ Ends (some 3) ['a'] [(2, .put ['a'] [1] 10)] (3, .put ['b'] [2] 10) := by
      rw [ends_put_iff]
      rintro (⟨hk, -⟩ | he)
      · exact absurd hk (by decide)
      · exact he.gone ⟨['a'], [1], 12⟩ (by decide) rfl
    exact .since (.since (.put (by decide)) hput) nofun
  · rw [hothers]
    decide
  · rw [hothers]
    decide

/-! ## 6. Beyond the clock -/

/-- A cache that is broken holds nothing. -/
structure Lost (c : FragmentCache) : Prop where
  broken : c.broken = true
  entries : c.entries = []

theorem lost_breakDown (c : FragmentCache) : c.breakDown.Lost := ⟨rfl, rfl⟩

theorem Lost.drop (hl : c.Lost) (key : Text) : (c.drop key).Lost := by
  refine ⟨(broken_drop c key).trans hl.broken, ?_⟩
  rw [entries_drop, hl.entries]
  rfl

/-- **A cache that is broken stays so**, whatever is done with it. -/
theorem Lost.use (hl : c.Lost) (now : Nat) (u : Use) : (c.use now u).Lost := by
  cases u with
  | get key =>
    refine ⟨(broken_get c key now).trans hl.broken, List.eq_nil_iff_forall_not_mem.2 fun f hf => ?_⟩
    have hm := mem_get hf
    rw [hl.entries] at hm
    cases hm
  | put key data lifetime =>
    show (c.put key data lifetime now).Lost
    by_cases ha : Accepts c.limit data lifetime
    · rw [put_of_beyond ha (.inl hl.broken)]
      exact lost_breakDown c
    · rw [put_of_not_accepts ha]
      exact hl
  | remove key => exact hl.drop key
  | clear => exact ⟨hl.broken, rfl⟩

theorem Lost.get_eq_none (hl : c.Lost) (key : Text) (now : Nat) : (c.get key now).2 = none := by
  have hnone : c.find? key = none := by
    unfold find?
    rw [hl.entries]
    rfl
  unfold get
  rw [hnone]

/-- **Nothing is found behind a put whose fragment ends beyond the clock**, whatever has been done
before and is done afterwards. -/
theorem get_behind_break (h later : History) (ha : Accepts limit data lifetime)
    (he : horizon ≤ now + lifetime) (k : Text) (t : Nat) :
    ((run limit (later ++ (now, .put key data lifetime) :: h)).get k t).2 = none := by
  have hlost : (run limit (later ++ (now, .put key data lifetime) :: h)).Lost := by
    induction later with
    | nil =>
      show ((run limit h).put key data lifetime now).Lost
      rw [put_of_beyond (accepts_run.2 ha) (.inr he)]
      exact lost_breakDown (run limit h)
    | cons x more ih => exact ih.use x.1 x.2
  exact hlost.get_eq_none k t

/-- A fragment is stored for so long that the clock cannot tell its end. -/
def tooLong : History := [(2, .put ['b'] [2] horizon), (1, .put ['a'] [1] 10)]

/-- **A put that is accepted may keep nothing**: in a cache without a limit, neither its own
fragment is found nor another one of use that it has not replaced. -/
theorem exists_unkept : tooLong.IsTimed ∧ (∀ x ∈ tooLong, x.1 < 3) ∧
    Accepts none [2] horizon ∧
    (Stored none ['b'] tooLong [2] (2 + horizon) ∧ 3 < 2 + horizon) ∧
      ((run none tooLong).get ['b'] 3).2 = none ∧
    Evicts (run none [(1, .put ['a'] [1] 10)]) 2 ['b'] [2] horizon ['a'] ∧
      ((run none tooLong).get ['a'] 3).2 = none := by
  have ha : Accepts none [2] horizon := by decide
  have hnone : ∀ k, ((run none tooLong).get k 3).2 = none := fun k =>
    get_behind_break [(1, .put ['a'] [1] 10)] [] ha (Nat.le_add_left horizon 2) k 3
  have hput : (run none [(1, .put ['a'] [1] 10)]).put ['b'] [2] horizon 2 =
      (run none [(1, .put ['a'] [1] 10)]).breakDown :=
    put_of_beyond ha (.inr (Nat.le_add_left horizon 2))
  refine ⟨by decide, by decide, ha, ⟨.put ha, by decide⟩, hnone ['b'], ⟨by decide, ?_, ?_⟩,
    hnone ['a']⟩
  · exact ⟨⟨['a'], [1], 11⟩, by decide, rfl⟩
  · rw [hput]
    exact fun f hf => nomatch hf

end EdgeInclude.FragmentCache

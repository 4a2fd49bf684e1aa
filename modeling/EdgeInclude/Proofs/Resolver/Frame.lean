import EdgeInclude.Proofs.Resolver.World
import EdgeInclude.Resolver.Agenda

/-!
# What a tag leaves alone

However far a tag goes, it changes no breaker but those of its own sources, and no store. If nothing
is cached for it, the cached fragments do not change.

* `Seat.Owns` — the breakers of a tag.
* `Resolver.Spends` — what becomes of a world while a tag goes on.
* `Resolver.spends_ask`, `Resolver.spends_settle` — a trial of a source, and the end of a fetch.
* `Visit.spends_start`, `Visit.spends_resume` — a visit that begins, and one that goes on.
-/

namespace EdgeInclude

variable {σ : Type}

/-! ## 1. Worlds -/

/-- A breaker is one of a source of the tag. -/
def Seat.Owns (s : Seat) (id : SourceId) : Prop := id.page = s.page ∧ id.tag = s.index

theorem Seat.owns_source (s : Seat) (src : Source) : s.Owns (s.source src) := ⟨rfl, rfl⟩

theorem Seat.source_ne_of_not_owns {s : Seat} {id : SourceId} (h : ¬ s.Owns id) (src : Source) :
    s.source src ≠ id := fun heq => h (heq ▸ s.owns_source src)

/-- What is outside may change with a call, the stores do not. -/
theorem Backend.stores_fetch (o : Surroundings σ) (r : Reach σ) (c : Call) (b : Backend) :
    (b.fetch o r c).1.stores = r.stores := by
  cases b with
  | web base =>
    unfold fetch
    dsimp only
    split <;> rfl
  | program configured =>
    unfold fetch
    dsimp only
    split <;> rfl
  | store id => rfl
  | custom id name => rfl

namespace Resolver

/-- Nothing is cached for a tag: there is no cache, or its fragments have no lifetime. -/
def Uncached (v : Resolver) (e : Errand) (w : World σ) : Prop :=
  w.fragments = none ∨ v.lifetimeOf e.seat.tag = 0

/-- What becomes of a world while a tag goes on in it. -/
structure Spends (v : Resolver) (e : Errand) (w u : World σ) : Prop where
  breaker : ∀ id, ¬ e.seat.Owns id → u.breaker id = w.breaker id
  stores : u.reach.stores = w.reach.stores
  le_now : w.now ≤ u.now
  fragments : v.Uncached e w → u.fragments = w.fragments

variable {v : Resolver} {o : Surroundings σ} {e : Errand} {s : Source} {w w' u : World σ}

namespace Spends

theorem refl (w : World σ) : v.Spends e w w :=
  ⟨fun _ _ => rfl, rfl, Nat.le_refl _, fun _ => rfl⟩

theorem uncached (h : v.Spends e w u) (hw : v.Uncached e w) : v.Uncached e u := by
  unfold Uncached at hw ⊢
  rwa [h.fragments hw]

theorem trans (h : v.Spends e w w') (h' : v.Spends e w' u) : v.Spends e w u :=
  { breaker := fun id hid => (h'.breaker id hid).trans (h.breaker id hid)
    stores := h'.stores.trans h.stores
    le_now := Nat.le_trans h.le_now h'.le_now
    fragments := fun hw => (h'.fragments (h.uncached hw)).trans (h.fragments hw) }

theorem count (h : v.Spends e w u) (f : FetchCounts → FetchCounts) : v.Spends e w (u.count f) :=
  h.trans ⟨fun _ _ => rfl, rfl, Nat.le_refl _, fun _ => rfl⟩

theorem setBreaker (h : v.Spends e w u) (s : Source) (b : Breaker) :
    v.Spends e w (u.setBreaker (e.seat.source s) b) :=
  h.trans ⟨fun _ hid => World.breaker_setBreaker_of_ne (Seat.source_ne_of_not_owns hid s), rfl,
    Nat.le_refl _, fun _ => rfl⟩

theorem reaching (h : v.Spends e w u) (t : Nat) : v.Spends e w (u.reaching t) :=
  h.trans ⟨fun _ _ => rfl, rfl, u.le_now_reaching t, fun _ => rfl⟩

/-- A use of the cache, which a tag has only if its fragments have a lifetime. -/
theorem fragments_set (hl : v.lifetimeOf e.seat.tag ≠ 0) {c : FragmentCache}
    (hf : w.fragments = some c) (c' : FragmentCache) :
    v.Spends e w { w with fragments := some c', now := w.now + 1 } := by
  have hcached : ¬ v.Uncached e w := by
    rintro (h | h)
    · cases hf.symm.trans h
    · exact hl h
  exact ⟨fun _ _ => rfl, rfl, Nat.le_succ _, fun h => absurd h hcached⟩

end Spends

/-! ## 2. One source -/

theorem spends_lookup (v : Resolver) (e : Errand) (key : Text) (w : World σ) :
    v.Spends e w (v.lookup e.seat.tag key w).1 := by
  unfold lookup
  split
  · exact .refl w
  · rename_i hl
    unfold World.cached
    cases hf : w.fragments with
    | none => exact .refl w
    | some c => exact .fragments_set (fun h => hl (beq_iff_eq.2 h)) hf _

theorem spends_store (v : Resolver) (e : Errand) (key : Text) (data : Bytes) (w : World σ) :
    v.Spends e w (v.store e.seat.tag key data w) := by
  unfold store
  split
  · exact .refl w
  · rename_i hl
    unfold World.keep
    cases hf : w.fragments with
    | none => exact .refl w
    | some c => exact .fragments_set (fun h => hl (beq_iff_eq.2 h)) hf _

theorem Spends.onBreaker (h : v.Spends e w u) (s : Source) (f : Breaker → Breaker) :
    v.Spends e w (u.onBreaker (e.seat.source s) f) := h.setBreaker s _

theorem spends_launch (v : Resolver) (o : Surroundings σ) (e : Errand) (s : Source) (url : Text)
    (time : Nat) (budget : Duration × Bool) (a : Admission) (w : World σ) :
    v.Spends e w (v.launch o e s url time budget a w).1 := by
  unfold launch
  split
  · dsimp only
    exact (Spends.refl w).onBreaker ..
  · exact ⟨fun _ _ => rfl, Backend.stores_fetch .., Nat.le_refl _, fun _ => rfl⟩

/-- **A trial of a source.** -/
theorem spends_ask (v : Resolver) (o : Surroundings σ) (e : Errand) (s : Source) (time : Nat)
    (w : World σ) : v.Spends e w (v.ask o e s time w).1 := by
  have hl := v.spends_lookup e (Fragment.keyOf (s.value.render e.request [])
    (keyOf e.seat.tag e.request)) w
  unfold ask
  dsimp only
  split
  · exact hl.count _
  · split
    · exact hl
    · split
      · exact hl.count _
      · exact (hl.setBreaker s _).trans (v.spends_launch ..)

/-- **The end of a fetch.** -/
theorem spends_settle (v : Resolver) (e : Errand) (f : Fetch) (w : World σ) :
    v.Spends e w (v.settle e f w).1 := by
  have hreach : v.Spends e w (w.reaching f.ended) := (Spends.refl w).reaching f.ended
  unfold settle
  dsimp only
  split
  · exact ((hreach.onBreaker f.source _).count _).trans (v.spends_store ..)
  · split
    · exact (hreach.onBreaker f.source _).count _
    · split
      all_goals
        dsimp only
        exact (hreach.onBreaker f.source _).count _

end Resolver

/-! ## 3. Visits -/

namespace Visit

variable {v : Resolver} {o : Surroundings σ} {e : Errand} {w : World σ}

theorem spends_advance (v : Resolver) (o : Surroundings σ) (e : Errand) (rest : List Source)
    (time n : Nat) (w : World σ) : v.Spends e w (advance v o e rest time n w).1 := by
  induction rest generalizing n w with
  | nil => exact .refl w
  | cons s rest ih =>
    have ha := v.spends_ask o e s time w
    unfold advance
    generalize v.ask o e s time w = asked at ha
    obtain ⟨w', asked⟩ := asked
    cases asked with
    | served content => exact ha
    | late => exact ha
    | passedOver => exact ha.trans (ih n w')
    | fetching f =>
      have hs := ha.trans (v.spends_settle e f w')
      dsimp only
      split
      · exact ha
      · generalize v.settle e f w' = settled at hs
        obtain ⟨u, settled⟩ := settled
        cases settled with
        | next => exact hs.trans (ih (n + 1) u)
        | _ => exact hs

/-- **A visit that begins.** -/
theorem spends_start (v : Resolver) (o : Surroundings σ) (e : Errand) (w : World σ) :
    v.Spends e w (start v o e w).1 := by
  unfold start
  split
  · exact .refl w
  · split
    · exact .refl w
    · exact spends_advance ..

/-- **A visit that goes on.** -/
theorem spends_resume (v : Resolver) (o : Surroundings σ) (e : Errand) (w : World σ)
    (p : Progress) : v.Spends e w (resume v o e w p).1 := by
  cases p with
  | omitted => exact .refl w
  | done out => exact .refl w
  | fetching f n rest =>
    have hs := v.spends_settle e f w
    unfold resume
    dsimp only
    generalize v.settle e f w = settled at hs
    obtain ⟨u, settled⟩ := settled
    cases settled with
    | next => exact hs.trans (spends_advance ..)
    | _ => exact hs

end Visit

end EdgeInclude

import EdgeInclude.Proofs.Fragment.Entries
import EdgeInclude.Proofs.Tag.Reading
import EdgeInclude.Resolver.Basic
import Mathlib.Data.List.Nodup

/-!
# What the world keeps of a tag

A world has a breaker for each source of each tag, and fragments that the tags share. What is done
to one breaker leaves the others alone, and looking a fragment up brings none in.

* `World.breaker_setBreaker`, `World.breaker_onBreaker` — one breaker is changed.
* `World.cached_eq_some_iff`, `World.mem_cached` — what a look-up finds, and what is left;
  `World.mem_keep` — what is brought in.
* `Include.Built` — the tags that there are; `Include.Built.sources` — what holds of their sources,
  by the way that tags are read.
* `Include.Built.nodup` — the sources of a tag have different numbers, so that each has a breaker of
  its own.
-/

namespace EdgeInclude

/-! ## 1. Breakers -/

/-- What is found in a table in which an entry has taken the place of those with its key. -/
theorem find?_cons_filter {κ β : Type} [BEq κ] [LawfulBEq κ] [DecidableEq κ]
    (table : List (κ × β)) (k k' : κ) (b : β) :
    ((k, b) :: table.filter (·.1 != k)).find? (·.1 == k') =
      if k = k' then some (k, b) else table.find? (·.1 == k') := by
  rw [List.find?_cons]
  by_cases h : k = k'
  · rw [if_pos h, beq_iff_eq.2 h]
  · rw [if_neg h, beq_eq_false_iff_ne.2 h, List.find?_filter]
    refine congrArg (List.find? · table) (funext fun e => ?_)
    by_cases he : e.1 = k'
    · simp [he, Ne.symm h]
    · simp [he]

namespace World

variable {σ : Type} {w : World σ} {id id' : SourceId} {b : Breaker}

theorem breaker_setBreaker (w : World σ) (id id' : SourceId) (b : Breaker) :
    (w.setBreaker id b).breaker id' = if id = id' then b else w.breaker id' := by
  unfold breaker setBreaker
  rw [find?_cons_filter]
  split <;> rfl

@[simp] theorem breaker_setBreaker_self (w : World σ) (id : SourceId) (b : Breaker) :
    (w.setBreaker id b).breaker id = b := by
  rw [breaker_setBreaker, if_pos rfl]

theorem breaker_setBreaker_of_ne (h : id ≠ id') :
    (w.setBreaker id b).breaker id' = w.breaker id' := by
  rw [breaker_setBreaker, if_neg h]

@[simp] theorem breaker_onBreaker_self (w : World σ) (id : SourceId) (f : Breaker → Breaker) :
    (w.onBreaker id f).breaker id = f (w.breaker id) := breaker_setBreaker_self ..

theorem breaker_onBreaker_of_ne (h : id ≠ id') (f : Breaker → Breaker) :
    (w.onBreaker id f).breaker id' = w.breaker id' := breaker_setBreaker_of_ne h

@[simp] theorem breaker_reaching (w : World σ) (t : Nat) (id : SourceId) :
    (w.reaching t).breaker id = w.breaker id := rfl

theorem le_now_reaching (w : World σ) (t : Nat) : w.now ≤ (w.reaching t).now :=
  Nat.le_max_left ..

@[simp] theorem breaker_count (w : World σ) (f : FetchCounts → FetchCounts) (id : SourceId) :
    (w.count f).breaker id = w.breaker id := rfl

@[simp] theorem breaker_keep (w : World σ) (key : Text) (data : Bytes) (d : Duration)
    (id : SourceId) : (w.keep key data d).breaker id = w.breaker id := by
  unfold keep
  split <;> rfl

end World

/-! ## 2. Cached fragments -/

namespace World

variable {σ : Type} {w : World σ} {key : Text} {data : Bytes} {f : Fragment}

/-- The cached fragments, none if fragments are not cached. -/
def fragmentList (w : World σ) : List Fragment := (w.fragments.map (·.entries)).getD []

@[simp] theorem fragmentList_reaching (w : World σ) (t : Nat) :
    (w.reaching t).fragmentList = w.fragmentList := rfl

theorem breaker_cached (w : World σ) (key : Text) (id : SourceId) :
    (w.cached key).1.breaker id = w.breaker id := by
  unfold cached
  split <;> rfl

theorem cached_eq_some_iff : (w.cached key).2 = some data ↔
    ∃ c, w.fragments = some c ∧ c.Holds key w.now data := by
  unfold cached
  cases w.fragments with
  | none => exact ⟨nofun, fun ⟨_, h, _⟩ => nomatch h⟩
  | some c =>
    refine FragmentCache.get_eq_some_iff.trans ⟨fun h => ⟨c, rfl, h⟩, ?_⟩
    rintro ⟨_, hc, h⟩
    cases hc
    exact h

theorem mem_cached (h : f ∈ (w.cached key).1.fragmentList) : f ∈ w.fragmentList := by
  unfold cached at h
  cases hw : w.fragments with
  | none =>
    rw [hw] at h
    exact h
  | some c =>
    rw [hw] at h
    unfold fragmentList
    rw [hw]
    exact FragmentCache.mem_get h

theorem mem_keep {lifetime : Duration}
    (h : f ∈ (w.keep key data lifetime).fragmentList) :
    f ∈ w.fragmentList ∨ f.key = key ∧ f.data = data := by
  unfold keep at h
  cases hw : w.fragments with
  | none =>
    rw [hw] at h
    exact .inl h
  | some c =>
    rw [hw] at h
    unfold fragmentList
    rw [hw]
    exact FragmentCache.mem_put h

end World

/-! ## 3. The sources of a tag -/

namespace Include

variable {i i' : Include}

/-- The tags that there are: those that have not been read, and those that have. -/
inductive Built : Include → Prop where
  | raw (t : RawTag) : Built (ofRaw t)
  | read {i : Include} (built : Built i) : Built i.read.1

theorem sources_withFallback (i : Include) (as : List Attribute) :
    (i.withFallback as).sources = i.sources := by
  unfold withFallback
  split <;> rfl

section Further

-- a property of sources in a row that a further one, compiled with the next number, keeps
variable {P : List Source → Prop}
  (further : ∀ ss raw s, P ss → Source.compile ss.length raw = .ok s → P (ss ++ [s]))

include further

theorem sources_set {a : Attribute} (hi : P i.sources) (h : i.set a = .ok i') :
    P i'.sources := by
  cases sets_of_set h with
  | source _ read => exact further i.sources a.value _ hi read
  | _ => exact hi

theorem sources_setAll (h : P i.sources) (as : List Attribute) : P (i.setAll as).1.sources := by
  induction as generalizing i with
  | nil => exact h
  | cons a rest ih =>
    unfold setAll
    split
    · rename_i hs
      exact ih (sources_set further h hs)
    · exact h

theorem sources_readFields (h : P i.sources) : P i.readFields.1.sources := by
  unfold readFields
  split
  · exact h
  · dsimp only
    split
    · exact h
    · rename_i as _
      have hfallback : P (i.withFallback as).sources := by
        rw [sources_withFallback]
        exact h
      split
      · exact hfallback
      · exact sources_setAll further hfallback as

theorem sources_read (h : P i.sources) : P i.read.1.sources := by
  have hf := sources_readFields further h
  unfold read
  split
  · rename_i hr
    rw [hr] at hf
    exact hf
  · rename_i hr
    rw [hr] at hf
    exact hf

/-- What holds of no sources, and is kept by a further one, holds of the sources of every tag. -/
theorem Built.sources (none : P []) (h : i.Built) : P i.sources := by
  induction h with
  | raw t => exact none
  | read _ ih => exact sources_read further ih

end Further

theorem index_compile {n : Nat} {raw : Text} {s : Source} (h : Source.compile n raw = .ok s) :
    s.index = n := by
  unfold Source.compile at h
  cases hv : Value.compile raw with
  | error f =>
    rw [hv] at h
    cases h
  | ok v =>
    rw [hv] at h
    cases h
    rfl

namespace Built

/-- The sources of a tag are numbered by their places. -/
theorem isNumbered (h : i.Built) : i.sources.map (·.index) = List.range i.sources.length := by
  let P : List Source → Prop := fun ss => ss.map (·.index) = List.range ss.length
  have further : ∀ ss raw s, P ss → Source.compile ss.length raw = .ok s → P (ss ++ [s]) := by
    intro ss raw s hss hc
    show (ss ++ [s]).map (·.index) = List.range (ss ++ [s]).length
    rw [List.map_append, List.length_append, List.length_singleton, List.range_succ, hss,
      List.map_singleton, index_compile hc]
  exact h.sources further rfl

/-- **The sources of a tag have different numbers.** -/
theorem nodup (h : i.Built) : (i.sources.map (·.index)).Nodup := by
  rw [h.isNumbered]
  exact List.nodup_range

end Built

end Include

end EdgeInclude

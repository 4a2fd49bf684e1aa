import EdgeInclude.Proofs.Page.Cache
import Mathlib.Data.List.Nodup

/-!
# Both kinds of page cache answer alike

A read-mostly cache merges its overlay now and then: after enough misses, when an entry of the
shared table is overwritten, when an entry is removed. Nobody who asks the cache can tell: it
replies as one table does.

* `PageCache.Op`, `PageCache.Reply`, `PageCache.replies` — what is asked, and what is replied.
* `PageCache.repliesAmid` — the replies while the overlay is also merged at other times.
* `ReadMostly.Mirrors` — a read-mostly cache that has the entries of a table: shared table and
  overlay have no fingerprint in common, and a cache that is not amended has an empty overlay.
* `ReadMostly.Mirrors.perform` — every operation keeps this and gets the same reply.
* `PageCache.replies_eq_locked` — so do all operations, from empty caches on.
-/

namespace EdgeInclude

variable {α : Type} {fp : Fingerprint} {a : α}

/-! ## 1. What is asked of a cache -/

namespace PageCache

/-- What is asked of a cache. -/
inductive Op (α : Type) where
  | get (fp : Fingerprint)
  | insert (fp : Fingerprint) (a : α)
  | remove (fp : Fingerprint)
  | clear
  | length
  | isEmpty
  deriving DecidableEq, Repr

/-- What a cache replies. -/
inductive Reply (α : Type) where
  | found (a : Option α)
  | done
  /-- Whether there was an entry to remove. -/
  | removed (present : Bool)
  | length (n : Nat)
  | isEmpty (b : Bool)
  deriving DecidableEq, Repr

/-- One operation: the cache behind it, and the reply. -/
def perform (c : PageCache α) : Op α → PageCache α × Reply α
  | .get fp => ((c.get fp).1, .found (c.get fp).2)
  | .insert fp a => (c.insert fp a, .done)
  | .remove fp => ((c.remove fp).1, .removed (c.remove fp).2)
  | .clear => (c.clear, .done)
  | .length => (c, .length c.length)
  | .isEmpty => (c, .isEmpty c.isEmpty)

/-- The replies to operations, one after the other. -/
def replies (c : PageCache α) : List (Op α) → List (Reply α)
  | [] => []
  | op :: rest => (c.perform op).2 :: replies (c.perform op).1 rest

/-- The cache with its overlay merged; a locked table has none. -/
def merged : PageCache α → PageCache α
  | locked t => locked t
  | readMostly c => readMostly (c.promote id)

/-- The cache with its overlay merged, if `merge` says so. -/
def mergedIf (merge : Bool) (c : PageCache α) : PageCache α := if merge then c.merged else c

/-- The replies to operations, before each of which the overlay may be merged. -/
def repliesAmid (c : PageCache α) : List (Bool × Op α) → List (Reply α)
  | [] => []
  | (merge, op) :: rest =>
    ((c.mergedIf merge).perform op).2 :: repliesAmid ((c.mergedIf merge).perform op).1 rest

/-- With no further merges, these are the replies. -/
theorem repliesAmid_false (c : PageCache α) (ops : List (Op α)) :
    c.repliesAmid (ops.map fun op => (false, op)) = c.replies ops := by
  induction ops generalizing c with
  | nil => rfl
  | cons op rest ih => exact congrArg ((c.perform op).2 :: ·) (ih _)

end PageCache

/-! ## 2. Tables with distinct fingerprints -/

namespace Table

variable {t t' more : Table α}

/-- Each fingerprint stands in a table at most once. -/
def Distinct (t : Table α) : Prop := (t.map (·.1)).Nodup

theorem get?_ne_none_iff : get? t fp ≠ none ↔ fp ∈ t.map (·.1) := by
  induction t with
  | nil => exact ⟨fun h => absurd rfl h, fun h => absurd h List.not_mem_nil⟩
  | cons e rest ih =>
    obtain ⟨k, a⟩ := e
    rw [get?_cons, List.map_cons, List.mem_cons]
    by_cases hk : k = fp
    · rw [if_pos hk]
      exact ⟨fun _ => .inl hk.symm, fun _ => nofun⟩
    · rw [if_neg hk, ih]
      exact ⟨.inr, fun h => h.resolve_left (Ne.symm hk)⟩

theorem get?_append (t more : Table α) (fp : Fingerprint) :
    get? (t ++ more) fp = (get? t fp).or (get? more fp) := by
  induction t with
  | nil => rfl
  | cons e rest ih =>
    obtain ⟨k, a⟩ := e
    rw [List.cons_append, get?_cons, get?_cons, ih]
    split <;> rfl

theorem contains_eq_of_get?_eq (h : get? t fp = get? t' fp) : t.contains fp = t'.contains fp :=
  congrArg Option.isSome h

/-- Tables in which the same is found have equally many entries. -/
theorem length_eq_of_get?_eq (ht : t.Distinct) (ht' : t'.Distinct)
    (h : ∀ fp, get? t fp = get? t' fp) : t.length = t'.length := by
  have hkeys : (t.map (·.1)).Perm (t'.map (·.1)) := by
    refine (List.perm_ext_iff_of_nodup ht ht').2 fun fp => ?_
    rw [← get?_ne_none_iff, ← get?_ne_none_iff, h]
  simpa using hkeys.length_eq

theorem distinct_remove (h : t.Distinct) (fp : Fingerprint) : (remove t fp).Distinct :=
  List.Nodup.sublist (List.Sublist.map _ List.filter_sublist) h

theorem not_mem_remove (t : Table α) (fp : Fingerprint) : fp ∉ (remove t fp).map (·.1) := by
  rw [← get?_ne_none_iff, get?_remove, if_pos rfl]
  exact fun h => h rfl

theorem distinct_insert (h : t.Distinct) (fp : Fingerprint) (a : α) : (insert t fp a).Distinct :=
  List.nodup_cons.2 ⟨not_mem_remove t fp, distinct_remove h fp⟩

theorem distinct_merge (h : t.Distinct) (more : Table α) : (merge t more).Distinct := by
  induction more with
  | nil => exact h
  | cons e rest ih => exact distinct_insert ih e.1 e.2

end Table

/-! ## 3. A read-mostly cache and a table -/

namespace ReadMostly

variable {c : ReadMostly α} {t : Table α}

/-- All entries of a cache, those of the overlay first. -/
def entries (c : ReadMostly α) : Table α := c.overlay ++ c.clean

/-- A cache that has the entries of a table. -/
structure Mirrors (c : ReadMostly α) (t : Table α) : Prop where
  found : ∀ fp, c.entries.get? fp = t.get? fp
  /-- Overlay and shared table have no fingerprint in common, and neither has one twice. -/
  distinct : c.entries.Distinct
  table : t.Distinct
  quiet : c.amended = false → c.overlay = []

namespace Mirrors

/-- What is in the shared table is not in the overlay. -/
theorem overlay_get? (h : Mirrors c t) (hc : c.clean.get? fp ≠ none) :
    c.overlay.get? fp = none := by
  by_contra ho
  have hd := h.distinct
  unfold entries Table.Distinct at hd
  rw [List.map_append] at hd
  exact (List.nodup_append.1 hd).2.2 fp (Table.get?_ne_none_iff.1 ho) fp
    (Table.get?_ne_none_iff.1 hc) rfl

theorem get?_of_clean (h : Mirrors c t) (hc : c.clean.get? fp = some a) :
    t.get? fp = some a := by
  rw [← h.found, entries, Table.get?_append, h.overlay_get? (by rw [hc]; nofun), hc]
  rfl

theorem get?_of_missed (h : Mirrors c t) (hc : c.clean.get? fp = none) :
    t.get? fp = c.overlay.get? fp := by
  rw [← h.found, entries, Table.get?_append, hc, Option.or_none]

theorem get?_merge (h : Mirrors c t) (fp : Fingerprint) :
    (c.clean.merge c.overlay).get? fp = t.get? fp := by
  rw [Table.get?_merge, ← h.found, entries, Table.get?_append]

theorem distinct_clean (h : Mirrors c t) : c.clean.Distinct := by
  have hd := h.distinct
  unfold entries Table.Distinct at hd
  rw [List.map_append] at hd
  exact (List.nodup_append.1 hd).2.1

/-- **Merging does not show**, whatever is changed along with it. -/
theorem promote {t' : Table α} {edit : Table α → Table α}
    (hf : ∀ fp, (edit (c.clean.merge c.overlay)).get? fp = t'.get? fp)
    (hd : (edit (c.clean.merge c.overlay)).Distinct) (ht : t'.Distinct) :
    Mirrors (c.promote edit) t' :=
  ⟨hf, hd, ht, fun _ => rfl⟩

theorem merge (h : Mirrors c t) : Mirrors (c.promote id) t :=
  promote h.get?_merge (Table.distinct_merge h.distinct_clean _) h.table

theorem empty : Mirrors (.empty : ReadMostly α) [] :=
  ⟨fun _ => rfl, .nil, .nil, fun _ => rfl⟩

/-! ## 4. One operation -/

theorem get (h : Mirrors c t) (fp : Fingerprint) :
    Mirrors (c.get fp).1 t ∧ (c.get fp).2 = t.get? fp := by
  unfold ReadMostly.get
  cases hc : c.clean.get? fp with
  | some a => exact ⟨h, (h.get?_of_clean hc).symm⟩
  | none =>
    have ho := h.get?_of_missed hc
    cases ha : c.amended with
    | false =>
      rw [h.quiet ha] at ho
      exact ⟨h, ho.symm⟩
    | true =>
      have hm : Mirrors { c with misses := c.misses + 1 } t :=
        ⟨h.found, h.distinct, h.table, h.quiet⟩
      dsimp only
      rw [Bool.not_true, if_neg Bool.false_ne_true]
      split
      · exact ⟨hm.merge, ho.symm⟩
      · exact ⟨⟨h.found, h.distinct, h.table, fun hq => by cases hq⟩, ho.symm⟩

theorem insert (h : Mirrors c t) (fp : Fingerprint) (a : α) :
    Mirrors (c.insert fp a) (t.insert fp a) := by
  unfold ReadMostly.insert
  split
  · -- an entry of the shared table is overwritten in the merged table
    have hmerged := Table.distinct_merge h.distinct_clean c.overlay
    refine promote (fun fp' => ?_) (Table.distinct_insert hmerged ..)
      (Table.distinct_insert h.table ..)
    rw [Table.get?_insert, Table.get?_insert, h.get?_merge]
  · rename_i hc
    have hnone : c.clean.get? fp = none := by
      rwa [Bool.not_eq_true, Table.contains_eq_false_iff] at hc
    refine ⟨fun fp' => ?_, ?_, Table.distinct_insert h.table .., fun hq => by cases hq⟩
    · rw [entries, Table.get?_append, Table.get?_insert, Table.get?_insert, ← h.found, entries,
        Table.get?_append]
      split <;> rfl
    · have hsub : (Table.remove c.overlay fp ++ c.clean).Distinct :=
        List.Nodup.sublist (List.Sublist.map _ (List.filter_sublist.append_right _)) h.distinct
      refine List.nodup_cons.2 ⟨fun hm => ?_, hsub⟩
      rcases List.mem_append.1 (List.map_append ▸ hm) with hm | hm
      · exact Table.not_mem_remove _ _ hm
      · exact Table.get?_ne_none_iff.2 hm hnone

theorem contains (h : Mirrors c t) (fp : Fingerprint) :
    (c.overlay.contains fp || c.clean.contains fp) = t.contains fp := by
  rw [← Table.contains_eq_of_get?_eq (h.found fp)]
  unfold Table.contains entries
  rw [Table.get?_append, Option.isSome_or]

theorem remove (h : Mirrors c t) (fp : Fingerprint) :
    Mirrors (c.remove fp).1 (t.remove fp) ∧ (c.remove fp).2 = t.contains fp := by
  unfold ReadMostly.remove
  rw [h.contains]
  cases ht : t.contains fp with
  | true =>
    rw [if_pos rfl]
    have hmerged := Table.distinct_merge h.distinct_clean c.overlay
    refine ⟨promote (fun fp' => ?_) (Table.distinct_remove hmerged _)
      (Table.distinct_remove h.table _), rfl⟩
    rw [Table.get?_remove, ← h.get?_merge]
    exact Table.get?_remove ..
  | false =>
    rw [if_neg Bool.false_ne_true]
    refine ⟨⟨fun fp' => ?_, h.distinct, Table.distinct_remove h.table _, h.quiet⟩, rfl⟩
    rw [Table.get?_remove, h.found]
    split
    · rename_i heq
      rw [← heq, Table.contains_eq_false_iff.1 ht]
    · rfl

theorem clear (c : ReadMostly α) : Mirrors c.clear [] := ⟨fun _ => rfl, .nil, .nil, fun _ => rfl⟩

theorem length (h : Mirrors c t) : c.length = t.length := by
  rw [← Table.length_eq_of_get?_eq h.distinct h.table h.found, entries, List.length_append,
    Nat.add_comm]
  rfl

/-- **Every operation gets the same reply of both**, and leaves both alike. -/
theorem perform (h : Mirrors c t) (op : PageCache.Op α) :
    ∃ c' t', ((PageCache.readMostly c).perform op).1 = .readMostly c' ∧
      ((PageCache.locked t).perform op).1 = .locked t' ∧ Mirrors c' t' ∧
      ((PageCache.readMostly c).perform op).2 = ((PageCache.locked t).perform op).2 := by
  cases op with
  | get fp => exact ⟨_, _, rfl, rfl, (h.get fp).1, congrArg PageCache.Reply.found (h.get fp).2⟩
  | insert fp a => exact ⟨_, _, rfl, rfl, h.insert fp a, rfl⟩
  | remove fp =>
    exact ⟨_, _, rfl, rfl, (h.remove fp).1, congrArg PageCache.Reply.removed (h.remove fp).2⟩
  | clear => exact ⟨_, _, rfl, rfl, clear c, rfl⟩
  | length => exact ⟨_, _, rfl, rfl, h, congrArg PageCache.Reply.length h.length⟩
  | isEmpty =>
    exact ⟨_, _, rfl, rfl, h, congrArg (fun n => PageCache.Reply.isEmpty (n == 0)) h.length⟩

/-- All operations get the same replies of both, whenever the overlay is merged. -/
theorem repliesAmid (h : Mirrors c t) (ops : List (Bool × PageCache.Op α)) :
    (PageCache.readMostly c).repliesAmid ops = (PageCache.locked t).replies (ops.map (·.2)) := by
  induction ops generalizing c t with
  | nil => rfl
  | cons first rest ih =>
    obtain ⟨merge, op⟩ := first
    obtain ⟨c₁, hc₁, h₁⟩ : ∃ c₁, (PageCache.readMostly c).mergedIf merge = .readMostly c₁ ∧
        Mirrors c₁ t := by
      cases merge with
      | false => exact ⟨c, rfl, h⟩
      | true => exact ⟨_, rfl, h.merge⟩
    obtain ⟨c', t', hc, ht, h', hr⟩ := h₁.perform op
    rw [List.map_cons, PageCache.repliesAmid, PageCache.replies, hc₁, hc, ht, hr, ih h']

end Mirrors

end ReadMostly

/-! ## 5. Empty caches -/

namespace PageCache

/-- **Both kinds of cache reply alike** to all operations, from empty caches on; also if the overlay
of the read-mostly one is merged at other times besides. -/
theorem replies_eq_locked (ops : List (Op α)) (amid : List (Bool × Op α)) :
    (new .readMostly).replies ops = (new .locked).replies ops ∧
      (new .readMostly).repliesAmid amid = (new .locked).replies (amid.map (·.2)) := by
  have hamid : ∀ amid : List (Bool × Op α),
      (new .readMostly).repliesAmid amid = (new .locked).replies (amid.map (·.2)) :=
    ReadMostly.Mirrors.empty.repliesAmid
  refine ⟨?_, hamid amid⟩
  rw [← repliesAmid_false, hamid, List.map_map]
  exact congrArg _ (List.map_id' ops)

end PageCache

end EdgeInclude

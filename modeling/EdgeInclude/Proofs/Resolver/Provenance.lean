import EdgeInclude.Proofs.Resolver.AnyOrder
import EdgeInclude.Proofs.Resolver.Turns

/-!
# Where a cached fragment comes from

Fragments are cached under one text, made of an address and a key. The same text may be made of
another address and another key, and then a fragment is served for a source that it has not been
fetched for.

* `Fragment.keyOf_eq_iff` — when two addresses with keys have one cache key.
* `Resolver.History` — what happens to a world through one resolver; `Resolver.History.resolve`,
  `Resolver.History.visitAll` — every resolution makes such a history go on.
* `Resolver.Stored` — a fetch that has ended has brought a fragment.
* `Resolver.sound_of_history` — every cached fragment has been brought so.
* `Resolver.served_from_fetch` — so has every fragment that is served, with the same address and
  key, or with an address and a key that are taken for them.
-/

namespace EdgeInclude

/-! ## 1. Cache keys -/

/-- A longer address is taken for a shorter one with a key: behind the shorter one it has the mark
of a key, and the key is what follows, with the key of the longer one behind it. -/
def Fragment.TakenFor (url' : Text) (key' : Option Text) (url : Text) (key : Option Text) : Prop :=
  ∃ more, url' = url ++ '#' :: more ∧ key = some (keyOf more key')

theorem Fragment.TakenFor.keyOf_eq {url url' : Text} {key key' : Option Text}
    (h : TakenFor url' key' url key) : keyOf url key = keyOf url' key' := by
  obtain ⟨more, rfl, rfl⟩ := h
  cases key' with
  | none => rfl
  | some k' => simp [keyOf]

/-- Two texts, each in front of a key, that give one cache key. -/
theorem Fragment.eq_or_takenFor {url url' k k' : Text} (h : url ++ '#' :: k = url' ++ '#' :: k') :
    (url = url' ∧ k = k') ∨ TakenFor url' (some k') url (some k) ∨
      TakenFor url (some k) url' (some k') := by
  rcases List.append_eq_append_iff.1 h with ⟨more, hurl, hkey⟩ | ⟨more, hurl, hkey⟩
  · cases more with
    | nil =>
      rw [List.append_nil] at hurl
      exact .inl ⟨hurl.symm, (List.cons.inj hkey).2⟩
    | cons c more =>
      obtain ⟨rfl, rfl⟩ := List.cons.inj hkey
      exact .inr (.inl ⟨more, hurl, rfl⟩)
  · cases more with
    | nil =>
      rw [List.append_nil] at hurl
      exact .inl ⟨hurl, (List.cons.inj hkey).2.symm⟩
    | cons c more =>
      obtain ⟨rfl, rfl⟩ := List.cons.inj hkey
      exact .inr (.inr ⟨more, hurl, rfl⟩)

/-- **When two addresses with keys have one cache key.** -/
theorem Fragment.keyOf_eq_iff {url url' : Text} {key key' : Option Text} :
    keyOf url key = keyOf url' key' ↔
      (url = url' ∧ key = key') ∨ TakenFor url' key' url key ∨ TakenFor url key url' key' := by
  constructor
  · intro h
    cases key with
    | none =>
      cases key' with
      | none => exact .inl ⟨h, rfl⟩
      | some k' => exact .inr (.inr ⟨k', h, rfl⟩)
    | some k =>
      cases key' with
      | none => exact .inr (.inl ⟨k, h.symm, rfl⟩)
      | some k' => exact (eq_or_takenFor h).imp_left fun ⟨hurl, hk⟩ => ⟨hurl, congrArg some hk⟩
  · rintro (⟨rfl, rfl⟩ | h | h)
    · rfl
    · exact h.keyOf_eq
    · exact h.keyOf_eq.symm

namespace Resolver

variable {σ : Type} {v : Resolver} {o : Surroundings σ} {e : Errand} {s : Source} {f : Fetch}
  {time n : Nat} {w w' w₀ u : World σ} {asked : Asked} {fragment : Fragment} {content : Bytes}

/-! ## 2. One step -/

/-- Trying a source does to the cached fragments what looking its fragment up does. What is served
has been found so, and a fetch that begins is one of the source, under its cache key. -/
theorem ask_cases (v : Resolver) (o : Surroundings σ) (e : Errand) (s : Source) (time : Nat)
    (w : World σ) :
    (v.ask o e s time w).1.fragments = (v.searched e s w).fragments ∧
      match (v.ask o e s time w).2 with
      | .served content => v.found? e s w = some content
      | .fetching f => f.url = address e s ∧ f.cacheKey = fragmentKey e s
      | _ => True := by
  rw [ask_eq]
  cases hf : v.found? e s w with
  | some content => exact ⟨rfl, rfl⟩
  | none =>
    dsimp only
    split
    · exact ⟨rfl, trivial⟩
    · split
      · exact ⟨rfl, trivial⟩
      · rw [launch_eq]
        split
        · exact ⟨rfl, trivial⟩
        · exact ⟨rfl, rfl, rfl⟩

/-- What is served is cached under the cache key of the source. -/
theorem mem_of_served (h : v.ask o e s time w = (w', .served content)) :
    ∃ x ∈ w.fragmentList, x.key = fragmentKey e s ∧ x.data = content := by
  have hcases := ask_cases v o e s time w
  rw [h] at hcases
  have found : v.found? e s w = some content := hcases.2
  unfold found? lookup at found
  split at found
  · cases found
  · obtain ⟨c, hc, x, hx, -, hdata⟩ := World.cached_eq_some_iff.1 found
    have hkey := List.find?_some hx
    refine ⟨x, ?_, beq_iff_eq.1 hkey, hdata⟩
    unfold World.fragmentList
    rw [hc]
    exact List.mem_of_find?_eq_some hx

/-- Trying a source brings no fragment in. -/
theorem mem_of_ask (h : v.ask o e s time w = (w', asked)) (hm : fragment ∈ w'.fragmentList) :
    fragment ∈ w.fragmentList := by
  have hcases := ask_cases v o e s time w
  rw [h] at hcases
  unfold World.fragmentList at hm
  rw [hcases.1] at hm
  exact mem_searched hm

/-- A fetch that begins is one of the source, under its cache key. -/
theorem fetch_of_ask (h : v.ask o e s time w = (w', .fetching f)) :
    f.url = address e s ∧ f.cacheKey = fragmentKey e s := by
  have hcases := ask_cases v o e s time w
  rw [h] at hcases
  exact hcases.2

theorem outcome_of_won {r : Response} (h : f.ending = .won r) : f.outcome = .ok r := by
  rcases f.ending_cases with ⟨r', hok, he⟩ | ⟨err, -, ⟨-, he⟩ | ⟨-, -, he⟩ | ⟨-, -, he⟩⟩
  · cases he.symm.trans h
    exact hok
  · cases he.symm.trans h
  · cases he.symm.trans h
  · cases he.symm.trans h

/-- The end of a fetch brings in what has been fetched, if fragments have a lifetime. -/
theorem mem_of_settle (hm : fragment ∈ (v.settle e f u).1.fragmentList) :
    fragment ∈ u.fragmentList ∨ ∃ r, f.outcome = .ok r ∧ v.lifetimeOf e.seat.tag ≠ 0 ∧
      fragment.key = f.cacheKey ∧ fragment.data = r.content := by
  cases ho : f.outcome with
  | error err =>
    have hw : ∀ r, f.ending ≠ .won r := fun r hr => nomatch ho.symm.trans (outcome_of_won hr)
    rw [fragmentList_settle hw] at hm
    exact .inl hm
  | ok r =>
    unfold settle at hm
    rw [ho] at hm
    dsimp only at hm
    unfold store at hm
    split at hm
    · exact .inl hm
    · rename_i hl
      refine (World.mem_keep hm).imp_right fun ⟨hkey, hdata⟩ => ?_
      exact ⟨r, rfl, fun h => hl (beq_iff_eq.2 h), hkey, hdata⟩

/-! ## 3. Histories -/

/-- What happens to the sources of tags. -/
inductive Incident where
  /-- A source is tried. -/
  | asked (e : Errand) (s : Source) (a : Asked)
  /-- A fetch ends. -/
  | ended (e : Errand) (f : Fetch)

/-- What happens through one resolver, the last incident first, and the world behind it. Sources of
any tags, for any requests, are tried and fetched in any order. Meanwhile the world may change, but
for the cached fragments. -/
inductive History (v : Resolver) (o : Surroundings σ) (w₀ : World σ) :
    List Incident → World σ → Prop where
  | start : History v o w₀ [] w₀
  | asks {log : List Incident} {w w' : World σ} {e : Errand} {s : Source} {time : Nat} {a : Asked}
      (before : History v o w₀ log w) (own : s ∈ e.seat.tag.sources)
      (asked : v.ask o e s time w = (w', a)) : History v o w₀ (.asked e s a :: log) w'
  | ends {log : List Incident} {w : World σ} {e : Errand} {s : Source} {f : Fetch}
      (before : History v o w₀ log w) (begun : .asked e s (.fetching f) ∈ log) :
      History v o w₀ (.ended e f :: log) (v.settle e f w).1
  | meanwhile {log : List Incident} {w u : World σ} (before : History v o w₀ log w)
      (same : u.fragments = w.fragments) : History v o w₀ log u

/-- A source has been fetched for a tag whose fragments have a lifetime, and the fetch has ended
with this content. -/
structure Stored (v : Resolver) (log : List Incident) (e : Errand) (s : Source)
    (content : Bytes) : Prop where
  own : s ∈ e.seat.tag.sources
  lasting : v.lifetimeOf e.seat.tag ≠ 0
  fetched : ∃ f r, .asked e s (.fetching f) ∈ log ∧ .ended e f ∈ log ∧ f.url = address e s ∧
    f.outcome = .ok r ∧ r.content = content

variable {log earlier later : List Incident}

theorem Stored.mono {more : List Incident} (h : Stored v log e s content)
    (hsub : ∀ i ∈ log, i ∈ more) : Stored v more e s content := by
  obtain ⟨f, r, hasked, hended, hrest⟩ := h.fetched
  exact ⟨h.own, h.lasting, f, r, hsub _ hasked, hsub _ hended, hrest⟩

theorem History.fetched (h : History v o w₀ log w) (hf : .asked e s (.fetching f) ∈ log) :
    s ∈ e.seat.tag.sources ∧ f.url = address e s ∧ f.cacheKey = fragmentKey e s := by
  induction h with
  | start => cases hf
  | asks _ own asked ih =>
    rcases List.mem_cons.1 hf with heq | hf
    · cases heq
      exact ⟨own, fetch_of_ask asked⟩
    · exact ih hf
  | ends _ _ ih =>
    rcases List.mem_cons.1 hf with heq | hf
    · cases heq
    · exact ih hf
  | meanwhile _ _ ih => exact ih hf

/-- **Every cached fragment has been fetched**, for a source with its cache key. -/
theorem sound_of_history (h : History v o w₀ log w) (hempty : w₀.fragmentList = []) :
    ∀ x ∈ w.fragmentList, ∃ e s, fragmentKey e s = x.key ∧ Stored v log e s x.data := by
  have keep : ∀ {log : List Incident} {x : Fragment} (i : Incident),
      (∃ e s, fragmentKey e s = x.key ∧ Stored v log e s x.data) →
        ∃ e s, fragmentKey e s = x.key ∧ Stored v (i :: log) e s x.data := by
    rintro log x i ⟨e, s, hkey, hs⟩
    exact ⟨e, s, hkey, hs.mono fun _ => List.mem_cons_of_mem i⟩
  induction h with
  | start =>
    intro x hx
    rw [hempty] at hx
    cases hx
  | asks _ _ asked ih => exact fun x hx => keep _ (ih x (mem_of_ask asked hx))
  | @ends log w e s f before begun ih =>
    intro x hx
    rcases mem_of_settle hx with hx | ⟨r, hok, hl, hkey, hdata⟩
    · exact keep _ (ih x hx)
    · obtain ⟨own, hurl, hcache⟩ := before.fetched begun
      exact ⟨e, s, hcache.symm.trans hkey.symm, own, hl, f, r, List.mem_cons_of_mem _ begun,
        List.mem_cons_self, hurl, hok, hdata.symm⟩
  | meanwhile _ same ih =>
    intro x hx
    unfold World.fragmentList at hx
    rw [same] at hx
    exact ih x hx

/-- **Where a served fragment comes from.** Whatever has happened through a resolver whose cache was
empty: a fragment that is served for a source has been fetched before, with the same address and the
same key, or else with an address and a key that are taken for them. -/
theorem served_from_fetch {limit : Option Nat} (h : History v o w₀ log w)
    (hempty : w₀.fragments = some (.new limit))
    (hlog : log = later ++ .asked e s (.served content) :: earlier) :
    ∃ e' s', Stored v earlier e' s' content ∧
      ((address e s = address e' s' ∧ keyOf e.seat.tag e.request = keyOf e'.seat.tag e'.request) ∨
        Fragment.TakenFor (address e' s') (keyOf e'.seat.tag e'.request) (address e s)
          (keyOf e.seat.tag e.request) ∨
        Fragment.TakenFor (address e s) (keyOf e.seat.tag e.request) (address e' s')
          (keyOf e'.seat.tag e'.request)) := by
  induction h generalizing later with
  | start => cases later <;> cases hlog
  | asks before own asked ih =>
    cases later with
    | cons i later => exact ih (List.cons.inj hlog).2
    | nil =>
      cases hlog
      have hlist : w₀.fragmentList = [] := by
        unfold World.fragmentList
        rw [hempty]
        rfl
      obtain ⟨x, hx, hkey, rfl⟩ := mem_of_served asked
      obtain ⟨e', s', hkey', hs⟩ := sound_of_history before hlist x hx
      exact ⟨e', s', hs, Fragment.keyOf_eq_iff.1 (hkey.symm.trans hkey'.symm)⟩
  | ends before begun ih =>
    cases later with
    | cons i later => exact ih (List.cons.inj hlog).2
    | nil => cases hlog
  | meanwhile before same ih => exact ih hlog

namespace Folded

/-- A backend that answers at once. -/
def outside : Surroundings Unit where
  network _ s := (s, none, .failed ⟨true, "no network"⟩)
  program _ _ s := (s, .missing "no programs")
  custom _ _ s := (s, ⟨some 0, .ok ⟨.empty, [0x2B]⟩⟩)
  close _ s := s
  pace := 1000000

def resolver : Resolver where
  registry := Registry.empty.withScheme "m".toList (.custom 0 "m".toList)
  breakers := ⟨2, 12, 1000⟩
  timeout := .ofSeconds 1
  lifetime := .ofSeconds 60
  maxBody := 1024

def source (url : Text) : Source := ⟨0, .literal url, true⟩

/-- A tag with one source, for an empty request. -/
def errand (url : Text) (key : Option Text) : Errand :=
  ⟨⟨0, 0, { Include.ofRaw ⟨[], 0, 7⟩ with
    sources := [source url], key := key.map .literal }⟩, .ofParts Request.get .root .empty, .never⟩

def keyed : Errand := errand "m://a".toList (some ['b'])

def keyless : Errand := errand "m://a#b".toList none

def world : World Unit := World.new () [] 0 (some (.new none))

def fetch : Fetch :=
  ⟨source "m://a".toList, "m://a".toList, "m://a#b".toList, .normal, false, 0, 1, 1,
    .ok ⟨.empty, [0x2B]⟩⟩

/-- The address `m://a` has been fetched with the key `b`. -/
def incidents : List Incident :=
  [.ended keyed fetch, .asked keyed (source "m://a".toList) (.fetching fetch)]

def fetched : World Unit :=
  (resolver.settle keyed fetch
    (resolver.ask outside keyed (source "m://a".toList) 0 world).1).1

theorem history_incidents : History resolver outside world incidents fetched := by
  have hask : (resolver.ask outside keyed (source "m://a".toList) 0 world).2 = .fetching fetch :=
    rfl
  have hist : History resolver outside world
      [.asked keyed (source "m://a".toList) (.fetching fetch)]
      (resolver.ask outside keyed (source "m://a".toList) 0 world).1 :=
    .asks .start List.mem_cons_self (Prod.ext rfl hask)
  exact hist.ends List.mem_cons_self

end Folded

open Folded in
/-- A tag that is resolved again is served what has been fetched for it. -/
theorem served_from_fetch_sample :
    (resolver.ask outside keyed (source "m://a".toList) 0 fetched).2 = .served [0x2B] ∧
    ∃ e s, Stored resolver incidents e s [0x2B] ∧
      ((address keyed (source "m://a".toList) = address e s ∧
          keyOf keyed.seat.tag keyed.request = keyOf e.seat.tag e.request) ∨
        Fragment.TakenFor (address e s) (keyOf e.seat.tag e.request)
          (address keyed (source "m://a".toList)) (keyOf keyed.seat.tag keyed.request) ∨
        Fragment.TakenFor (address keyed (source "m://a".toList))
          (keyOf keyed.seat.tag keyed.request) (address e s) (keyOf e.seat.tag e.request)) := by
  have hserved : (resolver.ask outside keyed (source "m://a".toList) 0 fetched).2 =
      .served [0x2B] := rfl
  have hist := history_incidents.asks List.mem_cons_self (Prod.ext rfl hserved)
  exact ⟨hserved, served_from_fetch hist rfl (List.nil_append _).symm⟩

open Folded in
/-- **A fragment may be served for a source that it has not been fetched for**: what has been
fetched from `m://a` with the key `b` is served for `m://a#b`. -/
theorem exists_served_unfetched : ¬ ∀ (σ : Type) (v : Resolver) (o : Surroundings σ)
    (w₀ w : World σ) (limit : Option Nat) (log later earlier : List Incident) (e : Errand)
    (s : Source) (content : Bytes), History v o w₀ log w → w₀.fragments = some (.new limit) →
    log = later ++ .asked e s (.served content) :: earlier →
    ∃ e' s', Stored v earlier e' s' content ∧ address e s = address e' s' ∧
      keyOf e.seat.tag e.request = keyOf e'.seat.tag e'.request := by
  intro h
  have hserved : (resolver.ask outside keyless (source "m://a#b".toList) 0 fetched).2 =
      .served [0x2B] := rfl
  have hist := history_incidents.asks List.mem_cons_self (Prod.ext rfl hserved)
  obtain ⟨e, s, hstored, haddress, -⟩ := h _ _ _ _ _ none _ [] _ _ _ _ hist rfl
    (List.nil_append _).symm
  obtain ⟨f, r, hasked, -⟩ := hstored.fetched
  -- only `m://a` has been fetched
  have hurl : address e s = "m://a".toList := by
    rcases List.mem_cons.1 hasked with heq | hasked
    · cases heq
    · cases List.mem_singleton.1 hasked
      rfl
  rw [hurl] at haddress
  exact absurd haddress (by decide)

/-! ## 4. Resolutions make histories -/

/-- The content of an outcome is on record: it has been served, or a fetch has ended with it. -/
def Accounts (log : List Incident) (e : Errand) (out : Outcome) : Prop :=
  ∀ r, out.result = .ok r → (∃ s, .asked e s (.served r.content) ∈ log) ∨
    ∃ s f r', .asked e s (.fetching f) ∈ log ∧ .ended e f ∈ log ∧ f.outcome = .ok r' ∧
      returned e.seat.tag r' = r

/-- How far a tag has come is on record. -/
def OnRecord (log : List Incident) (e : Errand) : Progress → Prop
  | .omitted => True
  | .done out => Accounts log e out
  | .fetching f _ rest => (∃ s, .asked e s (.fetching f) ∈ log) ∧ ∀ s ∈ rest, s ∈ e.seat.tag.sources

variable {log' : List Incident} {rest : List Source} {out : Outcome} {r : Response}
  {settled : Settled} {p : Progress}

theorem accounts_error {err : Failure} : Accounts log e ⟨n, .error err⟩ := nofun

theorem accounts_served :
    Accounts (.asked e s (.served content) :: log) e ⟨n, .ok ⟨.empty, content⟩⟩ := by
  rintro r ⟨⟩
  exact .inl ⟨s, List.mem_cons_self⟩

theorem accounts_won (begun : .asked e s (.fetching f) ∈ log)
    (hs : v.settle e f w = (u, .won r)) :
    Accounts (.ended e f :: log) e ⟨n, .ok r⟩ := by
  rintro r ⟨⟩
  obtain ⟨r', hwon, hret⟩ := Ending.eq_won ((snd_settle v e f w).symm.trans (congrArg Prod.snd hs))
  exact .inr ⟨s, f, r', List.mem_cons_of_mem _ begun, List.mem_cons_self, outcome_of_won hwon, hret⟩

theorem OnRecord.mono (h : OnRecord log e p) (hsub : log <:+ log') : OnRecord log' e p := by
  have hmem := hsub.subset
  cases p with
  | omitted => trivial
  | done out =>
    intro r hr
    rcases h r hr with ⟨s, hs⟩ | ⟨s, f, r', hb, he, hrest⟩
    · exact .inl ⟨s, hmem hs⟩
    · exact .inr ⟨s, f, r', hmem hb, hmem he, hrest⟩
  | fetching f n rest =>
    obtain ⟨⟨s, hs⟩, hrest⟩ := h
    exact ⟨⟨s, hmem hs⟩, hrest⟩

/-- The end of a fetch is on record behind it. -/
theorem History.settles (h : History v o w₀ log w) (begun : .asked e s (.fetching f) ∈ log)
    (hs : v.settle e f w = (u, settled)) : History v o w₀ (.ended e f :: log) u := by
  have hend := h.ends begun
  rwa [hs] at hend

/-- The sources that are left make a history go on. -/
theorem History.resolveFrom (h : History v o w₀ log w) (hr : ∀ s ∈ rest, s ∈ e.seat.tag.sources) :
    ∃ log', log <:+ log' ∧ History v o w₀ log' (v.resolveFrom o e rest time n w).1 ∧
      Accounts log' e (v.resolveFrom o e rest time n w).2 := by
  induction rest generalizing log time n w with
  | nil => exact ⟨log, List.suffix_rfl, h, accounts_error⟩
  | cons s rest ih =>
    obtain ⟨own, hr⟩ := List.forall_mem_cons.1 hr
    unfold Resolver.resolveFrom
    cases ha : v.ask o e s time w with
    | mk w₁ a =>
      have hask := h.asks own ha
      cases a with
      | served content => exact ⟨_, List.suffix_cons .., hask, accounts_served⟩
      | late => exact ⟨_, List.suffix_cons .., hask, accounts_error⟩
      | passedOver =>
        obtain ⟨log', hsuff, hmore⟩ := ih hask hr
        exact ⟨log', (List.suffix_cons ..).trans hsuff, hmore⟩
      | fetching f =>
        have hsuff := (List.suffix_cons (.asked e s (.fetching f)) log).trans
          (List.suffix_cons (.ended e f) _)
        dsimp only
        cases hs : v.settle e f w₁ with
        | mk u settled =>
          have hend := hask.settles List.mem_cons_self hs
          cases settled with
          | won r => exact ⟨_, hsuff, hend, accounts_won List.mem_cons_self hs⟩
          | gone err => exact ⟨_, hsuff, hend, accounts_error⟩
          | late => exact ⟨_, hsuff, hend, accounts_error⟩
          | next =>
            obtain ⟨log', hsuff', hmore⟩ := ih hend hr
            exact ⟨log', hsuff.trans hsuff', hmore⟩

/-- **Resolving a tag makes a history go on.** -/
theorem History.resolve (h : History v o w₀ log w) (e : Errand) :
    ∃ log', log <:+ log' ∧ History v o w₀ log' (v.resolve o e w).1 ∧
      Accounts log' e (v.resolve o e w).2 := by
  unfold Resolver.resolve
  split
  · exact ⟨log, List.suffix_rfl, h, accounts_error⟩
  · exact h.resolveFrom fun _ hs => hs

theorem History.advance (h : History v o w₀ log w) (hr : ∀ s ∈ rest, s ∈ e.seat.tag.sources) :
    ∃ log', log <:+ log' ∧ History v o w₀ log' (Visit.advance v o e rest time n w).1 ∧
      OnRecord log' e (Visit.advance v o e rest time n w).2 := by
  induction rest generalizing log n w with
  | nil => exact ⟨log, List.suffix_rfl, h, accounts_error⟩
  | cons s rest ih =>
    obtain ⟨own, hr⟩ := List.forall_mem_cons.1 hr
    unfold Visit.advance
    cases ha : v.ask o e s time w with
    | mk w₁ a =>
      have hask := h.asks own ha
      cases a with
      | served content => exact ⟨_, List.suffix_cons .., hask, accounts_served⟩
      | late => exact ⟨_, List.suffix_cons .., hask, accounts_error⟩
      | passedOver =>
        obtain ⟨log', hsuff, hmore⟩ := ih hask hr
        exact ⟨log', (List.suffix_cons ..).trans hsuff, hmore⟩
      | fetching f =>
        have hsuff := (List.suffix_cons (.asked e s (.fetching f)) log).trans
          (List.suffix_cons (.ended e f) _)
        dsimp only
        split
        · exact ⟨_, List.suffix_cons .., hask, ⟨s, List.mem_cons_self⟩, hr⟩
        · cases hs : v.settle e f w₁ with
          | mk u settled =>
            have hend := hask.settles List.mem_cons_self hs
            cases settled with
            | won r => exact ⟨_, hsuff, hend, accounts_won List.mem_cons_self hs⟩
            | gone err => exact ⟨_, hsuff, hend, accounts_error⟩
            | late => exact ⟨_, hsuff, hend, accounts_error⟩
            | next =>
              obtain ⟨log', hsuff', hmore⟩ := ih hend hr
              exact ⟨log', hsuff.trans hsuff', hmore⟩

theorem History.begins (h : History v o w₀ log w) (e : Errand) :
    ∃ log', log <:+ log' ∧ History v o w₀ log' (Visit.start v o e w).1 ∧
      OnRecord log' e (Visit.start v o e w).2 := by
  unfold Visit.start
  split
  · exact ⟨log, List.suffix_rfl, h, trivial⟩
  · split
    · exact ⟨log, List.suffix_rfl, h, accounts_error⟩
    · exact h.advance fun _ hs => hs

theorem History.goesOn (h : History v o w₀ log w) (hp : OnRecord log e p) :
    ∃ log', log <:+ log' ∧ History v o w₀ log' (Visit.resume v o e w p).1 ∧
      OnRecord log' e (Visit.resume v o e w p).2 := by
  cases p with
  | omitted => exact ⟨log, List.suffix_rfl, h, hp⟩
  | done out => exact ⟨log, List.suffix_rfl, h, hp⟩
  | fetching f n rest =>
    obtain ⟨⟨s, begun⟩, hr⟩ := hp
    unfold Visit.resume
    dsimp only
    cases hs : v.settle e f w with
    | mk u settled =>
      have hend := h.settles begun hs
      cases settled with
      | won r => exact ⟨_, List.suffix_cons .., hend, accounts_won begun hs⟩
      | gone err => exact ⟨_, List.suffix_cons .., hend, accounts_error⟩
      | late => exact ⟨_, List.suffix_cons .., hend, accounts_error⟩
      | next =>
        obtain ⟨log', hsuff, hmore⟩ := hend.advance hr
        exact ⟨log', (List.suffix_cons ..).trans hsuff, hmore⟩

/-- Tags that are resolved together make a history go on, whatever the order of their fetches. -/
theorem History.anyOrder {es : List Errand} {c : Scene σ} (h : History v o w₀ log w)
    (ha : Agenda.AnyOrder v o es w c) : ∃ log', log <:+ log' ∧ History v o w₀ log' c.world ∧
      ∀ visit ∈ c.visits, OnRecord log' visit.errand visit.progress := by
  induction ha with
  | start => exact ⟨log, List.suffix_rfl, h, fun _ hv => absurd hv List.not_mem_nil⟩
  | @begins w₁ a e before next ih =>
    obtain ⟨log₁, hsuff, h₁, hall⟩ := ih
    obtain ⟨log₂, hsuff', h₂, hnew⟩ := h₁.begins e
    refine ⟨log₂, hsuff.trans hsuff', h₂, fun visit hv => ?_⟩
    rcases List.mem_append.1 hv with hv | hv
    · exact (hall visit hv).mono hsuff'
    · cases List.mem_singleton.1 hv
      exact hnew
  | @goesOn w₁ a i t visit before at_i underWay ih =>
    obtain ⟨log₁, hsuff, h₁, hall⟩ := ih
    obtain ⟨log₂, hsuff', h₂, hnew⟩ := h₁.goesOn (hall visit (List.mem_of_getElem? at_i))
    refine ⟨log₂, hsuff.trans hsuff', h₂, fun other hv => ?_⟩
    rcases List.mem_or_eq_of_mem_set hv with hv | rfl
    · exact (hall other hv).mono hsuff'
    · exact hnew

/-- **Resolving the tags of a page makes a history go on**, and what comes of them is on record. -/
theorem History.visitAll (h : History v o w₀ log w) (es : List Errand) :
    ∃ log', log <:+ log' ∧ History v o w₀ log' (v.visitAll o es w).1 ∧
      ∀ visit ∈ (v.visitAll o es w).2, OnRecord log' visit.errand visit.progress := by
  obtain ⟨c, hc, -, hall⟩ := exists_anyOrder v o es w
  obtain ⟨log', hsuff, h', hrec⟩ := h.anyOrder hc
  rw [hall]
  exact ⟨log', hsuff, h'.meanwhile rfl, hrec⟩

end Resolver

end EdgeInclude

import EdgeInclude.Url.Read

/-!
# Which host a joined address is at

A text that is joined onto the address of a web server either stays at its server or names a server
itself: by a scheme, or by two slashes in front. What looks like a relative path may do so.

* `Url.IsWeb` — the address of a web server with a path.
* `Url.namesServer` — whether a text names a server, given the scheme of the address that it is
  joined onto.
* `Url.IsWeb.join` — a text that names none gives an address at the same server.
* `Url.join_eq_of_namesServer` — for a text that names one, the address that it is joined onto does
  not matter, its scheme apart.
* `Url.isWeb_of_read` — what is read with the scheme of the web is the address of a web server.
-/

namespace EdgeInclude.Url

variable {u u' v : Url} {scheme s key : Text} {a : Authority}

/-! ## 1. Addresses of web servers -/

/-- The schemes of the web. -/
def IsWebScheme (scheme : Text) : Prop := scheme = "http".toList ∨ scheme = "https".toList

theorem IsWebScheme.special (h : IsWebScheme scheme) : isSpecial scheme = true := by
  rcases h with rfl | rfl
  · decide
  · decide

theorem IsWebScheme.not_file (h : IsWebScheme scheme) : isFile scheme = false := by
  rcases h with rfl | rfl
  · decide
  · decide

/-- An address of a web server: it has an authority and a path with a leading slash. -/
structure IsWeb (u : Url) : Prop where
  scheme : IsWebScheme u.scheme
  authority : ∃ a, u.authority = some a
  path : ∃ p ps, u.path = .steps (p :: ps)

theorem IsWeb.special (h : u.IsWeb) : isSpecial u.scheme = true := h.scheme.special

theorem IsWeb.not_free (h : u.IsWeb) : u.isFree = false := by
  obtain ⟨p, ps, hp⟩ := h.path
  unfold isFree
  rw [hp]

/-- Behind its server the address of a web server goes on with a slash. -/
theorem IsWeb.exists_text (h : u.IsWeb) (ha : u.authority = some a) :
    ∃ rest, u.text = u.scheme ++ ':' :: authorityText a ++ '/' :: rest := by
  obtain ⟨p, ps, hp⟩ := h.path
  have hguard : u.guard = [] := by
    unfold guard
    rw [ha]
  refine ⟨p ++ UrlPath.text (.steps ps) ++ marked '?' u.query ++ marked '#' u.fragment, ?_⟩
  unfold text
  rw [hguard, ha, hp]
  simp [UrlPath.text]

theorem sameOrigin_of_authority (hscheme : v.scheme = u.scheme)
    (ha : v.authority = u.authority) : v.sameOrigin u = true := by
  unfold sameOrigin effectivePort port? host?
  rw [hscheme, ha]
  simp

/-! ## 2. Paths have steps -/

theorem steps_ne_nil (special : Bool) (s : Text) : steps special s ≠ [] := by
  cases s with
  | nil => nofun
  | cons c s =>
    unfold steps
    split
    · nofun
    · split
      · nofun
      · nofun

theorem walk_ne_nil (done ss : List Text) (h : ss ≠ []) : walk done ss ≠ [] := by
  have hsnoc : ∀ (xs : List Text) (x : Text), xs ++ [x] ≠ [] := by simp
  fun_induction walk done ss with
  | case1 => exact absurd rfl h
  | case2 => exact hsnoc _ _
  | case3 => exact hsnoc _ _
  | case4 => exact hsnoc _ _
  | case5 _ _ _ hne _ ih => exact ih hne
  | case6 _ _ _ hne _ _ ih => exact ih hne
  | case7 _ _ _ hne _ _ ih => exact ih hne

theorem path_readTail (special : Bool) (done : List Text) (s : Text) :
    ∃ p ps, (readTail special done s).path = p :: ps :=
  List.exists_cons_of_ne_nil (walk_ne_nil done _ (steps_ne_nil special _))

theorem path_readTailAfterHost (s : Text) : ∃ p ps, (readTailAfterHost true s).path = p :: ps := by
  unfold readTailAfterHost
  split
  · split
    · exact path_readTail ..
    · exact path_readTail ..
  · exact ⟨[], [], rfl⟩

/-! ## 3. Texts that name a server -/

/-- The number of slashes of either kind in front of a text. -/
def slashes (s : Text) : Nat := (s.takeWhile (isSlash true)).length

/-- Whether a text that is joined onto an address with this scheme names a server itself: by a
scheme of its own, or by two slashes of either kind. -/
def namesServer (scheme key : Text) : Bool :=
  match splitScheme? (clean key) with
  | some (scheme', rest) => scheme' != scheme || 2 ≤ slashes rest
  | none => 2 ≤ slashes (clean key)

theorem slashes_cons {c : Char} (h : isSlash true c = true) (s : Text) :
    slashes (c :: s) = slashes s + 1 := by
  unfold slashes
  rw [List.takeWhile_cons, h]
  rfl

theorem slashes_pos_iff (s : Text) : 0 < slashes s ↔ s.head?.any (isSlash true) = true := by
  cases s with
  | nil => simp [slashes]
  | cons c s => cases h : isSlash true c <;> simp [slashes, h]

/-- Whatever changes behind the authority, the server stays. -/
theorem IsWeb.onto (h : u.IsWeb) {path : List Text} (hp : ∃ p ps, path = p :: ps)
    (query fragment : Option Text) :
    IsWeb { u with path := .steps path, query := query, fragment := fragment } := by
  obtain ⟨p, ps, rfl⟩ := hp
  exact ⟨h.scheme, h.authority, p, ps, rfl⟩

/-- A relative text without two slashes in front stays at the server. -/
theorem IsWeb.readRelative (h : u.IsWeb) (hs : slashes s < 2) :
    ∃ v, Url.readRelative u s = .ok v ∧ v.IsWeb ∧ v.scheme = u.scheme ∧
      v.authority = u.authority := by
  unfold Url.readRelative
  split
  · exact ⟨_, rfl, ⟨h.scheme, h.authority, h.path⟩, rfl, rfl⟩
  · exact ⟨_, rfl, ⟨h.scheme, h.authority, h.path⟩, rfl, rfl⟩
  · exact ⟨_, rfl, ⟨h.scheme, h.authority, h.path⟩, rfl, rfl⟩
  · rename_i c rest _ _
    split
    · rename_i hc
      have hrest : rest.head?.any (isSlash true) = false := by
        rw [Bool.eq_false_iff, ne_eq, ← slashes_pos_iff]
        rw [slashes_cons hc] at hs
        omega
      rw [if_neg (by rw [hrest]; exact Bool.false_ne_true)]
      exact ⟨_, rfl, h.onto (path_readTail ..) _ _, rfl, rfl⟩
    · exact ⟨_, rfl, h.onto (path_readTail ..) _ _, rfl, rfl⟩

/-- A relative text with two slashes in front is read behind the scheme alone. -/
theorem readRelative_of_slashes (u : Url) (hs : 2 ≤ slashes s) :
    Url.readRelative u s = readAfterSlashes u.scheme
      (if s.take 2 == "//".toList then s.drop 2 else s.dropWhile (isSlash true)) := by
  cases s with
  | nil => cases hs
  | cons c rest =>
    have hc : isSlash true c = true := by
      simpa using (slashes_pos_iff (c :: rest)).1 (by omega)
    have hrest : rest.head?.any (isSlash true) = true := by
      rw [slashes_cons hc] at hs
      exact (slashes_pos_iff rest).1 (by omega)
    unfold Url.readRelative
    split
    · contradiction
    · -- neither mark of a query and of a fragment is a slash
      rename_i heq
      cases heq
      cases hc
    · rename_i heq
      cases heq
      cases hc
    · rename_i heq
      cases heq
      rw [if_pos hc, if_pos hrest]

/-- A text with a scheme of its own, or with two slashes behind the scheme, is read as if it stood
nowhere. -/
theorem readWithScheme_of_own (h : u.IsWeb) (hs : scheme ≠ u.scheme ∨ 2 ≤ slashes s) :
    readWithScheme (some u) scheme s = readWithScheme none scheme s := by
  have hfile : (some u).filter (fun w => isFile w.scheme) = none := by
    rw [Option.filter_some, if_neg (by rw [h.scheme.not_file]; exact Bool.false_ne_true)]
  have hother : (some u).filter (fun w => w.scheme == scheme &&
      ((s.takeWhile (isSlash true)).length < 2 : Bool)) = none := by
    rw [Option.filter_some, if_neg]
    rcases hs with hs | hs
    · simp [Ne.symm hs]
    · have : ¬ (s.takeWhile (isSlash true)).length < 2 := Nat.not_lt.2 hs
      simp [this]
  unfold readWithScheme
  rw [hfile, hother]
  rfl

/-! ## 4. Joining -/

/-- **A text that names no server gives an address at the same one.** -/
theorem IsWeb.join (h : u.IsWeb) (hk : namesServer u.scheme key = false) :
    ∃ v, u.join key = .ok v ∧ v.IsWeb ∧ v.scheme = u.scheme ∧ v.authority = u.authority := by
  unfold namesServer at hk
  unfold Url.join readFrom
  dsimp only
  cases hsplit : splitScheme? (clean key) with
  | some found =>
    obtain ⟨scheme', rest⟩ := found
    rw [hsplit] at hk
    simp only [Bool.or_eq_false_iff, bne_eq_false_iff_eq, decide_eq_false_iff_not] at hk
    obtain ⟨rfl, hslash⟩ := hk
    have hkeep : (some u).filter (fun w => w.scheme == u.scheme &&
        ((rest.takeWhile (isSlash true)).length < 2 : Bool)) = some u := by
      have : (rest.takeWhile (isSlash true)).length < 2 := Nat.not_le.1 hslash
      rw [Option.filter_some, if_pos (by simpa using this)]
    dsimp only
    unfold readWithScheme
    rw [if_neg (by rw [h.scheme.not_file]; exact Bool.false_ne_true), if_pos h.special, hkeep]
    exact h.readRelative (Nat.not_le.1 hslash)
  | none =>
    rw [hsplit] at hk
    have hslash : slashes (clean key) < 2 := by simpa using hk
    dsimp only
    split
    · exact ⟨_, rfl, ⟨h.scheme, h.authority, h.path⟩, rfl, rfl⟩
    · rw [if_neg (by rw [h.not_free]; exact Bool.false_ne_true),
        if_neg (by rw [h.scheme.not_file]; exact Bool.false_ne_true)]
      exact h.readRelative hslash

/-- **For a text that names a server itself, the server that it is joined onto does not matter.** -/
theorem join_eq_of_namesServer (h : u.IsWeb) (h' : u'.IsWeb) (hscheme : u.scheme = u'.scheme)
    (hk : namesServer u.scheme key = true) : u.join key = u'.join key := by
  unfold namesServer at hk
  unfold Url.join readFrom
  dsimp only
  cases hsplit : splitScheme? (clean key) with
  | some found =>
    obtain ⟨scheme', rest⟩ := found
    rw [hsplit] at hk
    simp only [Bool.or_eq_true, bne_iff_ne, decide_eq_true_eq] at hk
    dsimp only
    rw [readWithScheme_of_own h hk, readWithScheme_of_own h' (hscheme ▸ hk)]
  | none =>
    rw [hsplit] at hk
    have hslash : 2 ≤ slashes (clean key) := by simpa using hk
    have hmark : ¬ (clean key).head? == some '#' := by
      have hhead := (slashes_pos_iff (clean key)).1 (by omega)
      intro heq
      rw [eq_of_beq heq] at hhead
      cases hhead
    dsimp only
    rw [if_neg hmark, if_neg hmark, h.not_free, h'.not_free, h.scheme.not_file,
      h'.scheme.not_file]
    simp only [Bool.false_eq_true, if_false]
    rw [readRelative_of_slashes u hslash, readRelative_of_slashes u' hslash, hscheme]

/-! ## 5. Reading -/

theorem isWeb_of_readAfterSlashes (hs : IsWebScheme scheme)
    (h : readAfterSlashes scheme s = .ok u) : u.IsWeb := by
  unfold readAfterSlashes at h
  cases ha : readAuthority scheme s with
  | error e =>
    rw [ha] at h
    cases h
  | ok found =>
    rw [ha] at h
    cases h
    refine ⟨hs, ⟨_, rfl⟩, ?_⟩
    obtain ⟨p, ps, hp⟩ := path_readTailAfterHost found.2
    rw [hs.special]
    exact ⟨p, ps, congrArg UrlPath.steps hp⟩

theorem scheme_of_readFile (h : readFile none s = .ok u) : u.scheme = "file".toList := by
  unfold readFile at h
  split at h
  · rename_i a b rest
    split at h
    · dsimp only at h
      split at h
      · cases h
        rfl
      · cases hhost : Host.readSpecial (rest.takeWhile (!endsAuthority true ·)) with
        | error e =>
          rw [hhost] at h
          cases h
        | ok host =>
          rw [hhost] at h
          cases h
          rfl
    · split at h
      · cases h
        rfl
      · cases h
        rfl
  · split at h
    · cases h
      rfl
    · cases h
      rfl
  · cases h
    rfl

theorem scheme_of_readAfterSlashes (h : readAfterSlashes scheme s = .ok u) :
    u.scheme = scheme := by
  unfold readAfterSlashes at h
  cases ha : readAuthority scheme s with
  | error e =>
    rw [ha] at h
    cases h
  | ok found =>
    rw [ha] at h
    cases h
    rfl

/-- **What is read with a scheme of the web is the address of a web server.** -/
theorem isWeb_of_read (h : read s = .ok u) (hs : IsWebScheme u.scheme) : u.IsWeb := by
  unfold read readFrom at h
  dsimp only at h
  split at h
  · rename_i scheme rest _
    unfold readWithScheme at h
    split at h
    · rw [scheme_of_readFile h] at hs
      exact absurd hs (by unfold IsWebScheme; decide)
    · split at h
      · change readAfterSlashes scheme _ = _ at h
        rw [scheme_of_readAfterSlashes h] at hs
        exact isWeb_of_readAfterSlashes hs h
      · rename_i hplain
        -- the schemes of the web are special
        suffices hscheme : u.scheme = scheme from
          absurd (hscheme ▸ hs.special) hplain
        split at h
        · exact scheme_of_readAfterSlashes h
        · cases h
          rfl
        · cases h
          rfl
  · cases h

end EdgeInclude.Url

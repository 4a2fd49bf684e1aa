import EdgeInclude.Proofs.Url.Authority
import EdgeInclude.Proxy.Basic

/-!
# Where the origin is

Pages are fetched from an address that the origin stands in; all else goes to the host and the port
that are cut out of the origin. Templates cut the host out of a request in the same way.

* `Target.isBehind_pathAndQuery` — what a page is asked for ends the authority in front of it.
* `Origin.Names` — an address of an origin with the host and the port that it names.
* `Origin.read_url`, `Origin.read_originRequest` — the address of a page has the host and the port
  of the origin.
* `Origin.splitLast?_of_names` — an address of an origin at its last colon.
* `Origin.same_place` — all three agree, except for an address in brackets without a port.
* `Origin.exists_cut_address` — such an address is cut at a colon of its own.
-/

namespace EdgeInclude

variable {address s ds rest raw : Text} {h : Host} {port : Nat}

/-! ## 1. What pages are asked for -/

namespace Target

variable {scheme authority : Option Text} {t : Target}

/-- A path and a query begin as the text does that writes them. -/
theorem isBehind_of_readResource (hs : Url.IsBehind s)
    (hread : readResource? scheme authority s = some t) : Url.IsBehind t.written := by
  have hpath : Url.IsBehind ((s.takeWhile (· != '#')).takeWhile (· != '?')) :=
    hs.of_prefix ((List.takeWhile_prefix _).trans (List.takeWhile_prefix _))
  unfold readResource? at hread
  dsimp only at hread
  generalize (s.takeWhile (· != '#')).takeWhile (· != '?') = path at hread hpath
  split at hread
  · cases hread
  split at hread
  · cases hread
    exact hpath
  · split at hread
    · cases hread
      cases path with
      | nil =>
        rintro c ⟨⟩
        decide
      | cons c path => exact hpath
    · cases hread

/-- What goes on behind the characters of an authority begins with a mark that ends it. -/
theorem isBehind_drop (rest : Text) :
    Url.IsBehind (rest.drop (rest.takeWhile (!endsAuthority ·)).length) := by
  intro c hc
  have hcut : rest.drop (rest.takeWhile (!endsAuthority ·)).length =
      rest.dropWhile (!endsAuthority ·) := by
    have happend : rest.takeWhile (!endsAuthority ·) ++ rest.dropWhile (!endsAuthority ·) = rest :=
      List.takeWhile_append_dropWhile
    conv_lhs =>
      arg 2
      rw [← happend]
    exact List.drop_left
  have hhead := List.head?_dropWhile_not (!endsAuthority ·) rest
  rw [hcut, Option.mem_def] at hc
  rw [hc] at hhead
  simp only [endsAuthority, Bool.not_eq_false', Bool.or_eq_true, beq_iff_eq] at hhead
  rcases hhead with (rfl | rfl) | rfl
  all_goals decide

/-- **What a page is asked for ends the authority in front of it**, for each target but a star. -/
theorem isBehind_pathAndQuery (hread : read? raw = some t) (hraw : raw ≠ ['*']) :
    Url.IsBehind (t.pathAndQuery?.getD ['/']) := by
  have hslash : Url.IsBehind ['/'] := by
    rintro c ⟨⟩
    decide
  have hwritten : Url.IsBehind t.written →
      Url.IsBehind (t.pathAndQuery?.getD ['/']) := by
    intro h
    unfold pathAndQuery?
    split
    · rw [Option.getD_some]
      split
      · exact hslash
      · exact h
    · exact hslash
  unfold read? at hread
  split at hread
  · cases hread
  rw [if_neg (by simpa using hraw)] at hread
  split at hread
  · rename_i hhead
    refine hwritten (isBehind_of_readResource (fun c hc => ?_) hread)
    rw [eq_of_beq hhead] at hc
    cases hc
    exact .inl rfl
  split at hread
  · cases hread
  · split at hread
    · cases hread
      exact hslash
    · cases hread
  · dsimp only at hread
    split at hread
    · cases hread
    · exact hwritten (isBehind_of_readResource (isBehind_drop _) hread)

end Target

/-! ## 2. The address of a page -/

namespace Origin

/-- An address of an origin: a host, or a host and a port behind a colon. The port is 80 where none
is written. -/
inductive Names : Text → Text → Host → Nat → Prop
  | host {s : Text} {h : Host} (hw : Host.Writes s h) : Names s s h 80
  | port {s ds : Text} {h : Host} (hw : Host.Writes s h) (hne : ds ≠ [])
      (hds : ∀ c ∈ ds, c.isDigit = true) (hle : Decimal.ofDigits ds ≤ 65535) :
      Names (s ++ ':' :: ds) s h (Decimal.ofDigits ds)

theorem Names.inner (hn : Names address s h port) : ∀ c ∈ address, Url.IsInner c := by
  cases hn with
  | host hw => exact hw.inner
  | port hw hne hds hle =>
    intro c hc
    rcases List.mem_append.1 hc with hc | hc
    · exact hw.inner c hc
    rcases List.mem_cons.1 hc with rfl | hc
    · decide
    · exact .of_isDigit (hds c hc)

theorem Names.ne_nil (hn : Names address s h port) : address ≠ [] := by
  cases hn with
  | host hw => exact hw.ne_nil
  | port hw hne hds hle => simp

/-- **The address of a page has the host and the port of the origin.** -/
theorem read_url (hn : Names address s h port) (hr : Url.IsBehind rest) :
    ∃ u, Url.read (url address rest) = .ok u ∧ u.scheme = "http".toList ∧ u.host? = some h ∧
      u.effectivePort = some port := by
  have hspecial : Url.isSpecial "http".toList = true := by decide
  cases hn with
  | host hw =>
    obtain ⟨u, hread, hscheme, ha⟩ := Url.read_web hw.ne_nil hw.inner
      (fun rest hr => Url.readAuthority_host hspecial hw hr) hr
    refine ⟨u, hread, hscheme, ?_, Url.effectivePort_of_authority hscheme ha⟩
    unfold Url.host?
    rw [ha]
    rfl
  | @port s ds h hw hne hds hle =>
    have hn := Names.port hw hne hds hle
    obtain ⟨u, hread, hscheme, ha⟩ := Url.read_web hn.ne_nil hn.inner
      (fun rest hr => Url.readAuthority_port hspecial hw hne hds hle hr) hr
    refine ⟨u, hread, hscheme, ?_, Url.effectivePort_of_authority hscheme ha⟩
    unfold Url.host?
    rw [ha]
    rfl

/-- Every page is fetched from the host and the port of the origin. -/
theorem read_originRequest {e : Engine} {c : ClientRequest}
    (hn : Names e.config.origin s h port) (hread : Target.read? raw = some c.target)
    (hraw : raw ≠ ['*']) :
    ∃ u, Url.read (Proxy.originRequest e c).url = .ok u ∧ u.scheme = "http".toList ∧
      u.host? = some h ∧ u.effectivePort = some port :=
  read_url hn (Target.isBehind_pathAndQuery hread hraw)

/-! ## 3. At the last colon -/

/-- An address of an origin is its host where it is cut, unless the cut is within brackets. -/
theorem splitLast?_of_names (hn : Names address s h port)
    (hb : ¬ (address = s ∧ s.head? = some '[')) :
    (∃ ds, Text.splitLast? ':' address = some (s, ds) ∧
      Decimal.readNat? 65535 ds = some port) ∨
    Text.splitLast? ':' address = none ∧ address = s ∧ port = 80 := by
  cases hn with
  | host hw =>
    cases hw with
    | plain hs hread =>
      refine .inr ⟨Text.splitLast?_eq_none fun hmem => ?_, rfl, rfl⟩
      have hcolon : Host.isForbidden ':' = true := by decide
      cases hcolon.symm.trans (hs ':' hmem).1
    | bracketed ht hread => exact absurd ⟨rfl, rfl⟩ hb
  | @port s ds h hw hne hds hle =>
    have hcolon : ':' ∉ ds := fun hmem => absurd (hds ':' hmem) (by decide)
    exact .inl ⟨ds, Text.splitLast?_append hcolon, Decimal.readNat?_digits hne hds hle⟩

/-- **Pages and all else reach one place.** Whatever page is asked for, its address has the host
and the port that the address of the origin names, 80 if it names none. The same host, as it is
written, and the same port are cut out of the origin, and the host is cut out of a request; only an
address in brackets that has no port is cut elsewhere. -/
theorem same_place (hn : Names address s h port) :
    (∀ rest, Url.IsBehind rest →
      ∃ u, Url.read (url address rest) = .ok u ∧ u.scheme = "http".toList ∧ u.host? = some h ∧
        u.effectivePort = some port) ∧
    (¬ (address = s ∧ s.head? = some '[') →
      hostAndPort address = (s, port) ∧
      ∀ r : Request, r.host = address → r.placeholder? "hostonly".toList = some s) := by
  refine ⟨fun rest hr => read_url hn hr, fun hb => ?_⟩
  have honly : ∀ r : Request, r.placeholder? "hostonly".toList = some r.hostOnly := fun _ => rfl
  rcases splitLast?_of_names hn hb with ⟨ds, hsplit, hport⟩ | ⟨hsplit, rfl, rfl⟩
  · refine ⟨by simp only [hostAndPort, hsplit, hport, Option.getD_some], fun r hr => ?_⟩
    rw [honly, Request.hostOnly, hr, hsplit]
  · refine ⟨by simp only [hostAndPort, hsplit], fun r hr => ?_⟩
    rw [honly, Request.hostOnly, hr, hsplit]

theorem writes_sample : Host.Writes "[::1]".toList (.six [0, 0, 0, 0, 0, 0, 0, 1]) :=
  @Host.Writes.bracketed "::1".toList _ (by simp [Host.isHex, Percent.digit?]) (by decide +kernel)

theorem names_sample :
    Names "[::1]:8080".toList "[::1]".toList (.six [0, 0, 0, 0, 0, 0, 0, 1]) 8080 :=
  @Names.port _ "8080".toList _ writes_sample (by decide) (List.all_eq_true.1 (by decide))
    (by decide)

/-- The port of an address in brackets is told from the colons in front of it. -/
theorem same_place_sample :
    Names "[::1]:8080".toList "[::1]".toList (.six [0, 0, 0, 0, 0, 0, 0, 1]) 8080 ∧
    hostAndPort "[::1]:8080".toList = ("[::1]".toList, 8080) :=
  ⟨names_sample, ((same_place names_sample).2 (by decide)).1⟩

/-- **An address in brackets without a port is cut at a colon of its own.** -/
theorem exists_cut_address : ¬ ∀ address s h port, Names address s h port →
    hostAndPort address = (s, port) := by
  intro h
  exact absurd (h _ _ _ _ (.host writes_sample)) (by decide)

end Origin

end EdgeInclude

import EdgeInclude.Number.Decimal
import EdgeInclude.Proofs.Url.Join
import Mathlib.Data.List.Basic
import Mathlib.Data.List.TakeWhile

/-!
# Authorities as they are written

The authority of an address on the web is a host and maybe a port behind a colon. Colons stand
within a host as well, between brackets.

* `Text.splitLast?_append`, `Text.splitLast?_eq_none` — a text at the last of its marks.
* `Host.Writes` — a text that writes a host: a name, or an address in brackets or without.
* `Url.readPort_digits` — the port that digits write.
* `Url.readAuthority_host`, `Url.readAuthority_port` — what is read of a host, and of a host and a
  port.
* `Url.read_web` — an address with the scheme of the web begins with its authority.
-/

namespace EdgeInclude

variable {s t ds rest scheme : Text} {c : Char} {h : Host}

/-! ## 1. Marks and digits -/

namespace Text

theorem splitLast?_append (hc : c ∉ t) : splitLast? c (s ++ c :: t) = some (s, t) := by
  have htail : ((s ++ c :: t).reverse.takeWhile (· != c)).reverse = t := by
    have hrev : (s ++ c :: t).reverse = t.reverse ++ c :: s.reverse := by simp
    have hpos : ∀ a ∈ t.reverse, (a != c) = true := fun a ha =>
      bne_iff_ne.2 fun heq => hc (heq ▸ List.mem_reverse.1 ha)
    rw [hrev, List.takeWhile_append_of_pos hpos, List.takeWhile_cons_of_neg (by simp),
      List.append_nil, List.reverse_reverse]
  have hlen : (s ++ c :: t).length - t.length - 1 = s.length := by
    simp only [List.length_append, List.length_cons]
    omega
  simp only [splitLast?, htail, hlen, List.take_left]
  exact if_pos (by simp only [List.length_append, List.length_cons]; omega)

theorem splitLast?_eq_none (hc : c ∉ s) : splitLast? c s = none := by
  have htail : (s.reverse.takeWhile (· != c)).reverse = s := by
    rw [List.takeWhile_eq_self_iff.2, List.reverse_reverse]
    exact fun a ha => bne_iff_ne.2 fun heq => hc (heq ▸ List.mem_reverse.1 ha)
  simp only [splitLast?, htail]
  exact if_neg (Nat.lt_irrefl _)

end Text

theorem toNat_of_isDigit (hc : c.isDigit = true) : 48 ≤ c.toNat ∧ c.toNat ≤ 57 := by
  simp only [Char.isDigit, Bool.and_eq_true, decide_eq_true_eq, ge_iff_le,
    UInt32.le_iff_toNat_le] at hc
  exact hc

/-- The value of a digit, in either way of reading it. -/
theorem digit?_of_isDigit (hc : c.isDigit = true) :
    ((Percent.digit? (UInt8.ofNat c.toNat)).getD 0).toNat = c.toNat - '0'.toNat := by
  have hall : ∀ n < 58, 48 ≤ n →
      ((Percent.digit? (UInt8.ofNat n)).getD 0).toNat = n - '0'.toNat := by
    decide
  obtain ⟨hlow, hhigh⟩ := toNat_of_isDigit hc
  exact hall c.toNat (by omega) hlow

/-- Digits write one number, in either way of reading them. -/
theorem Host.numeral_eq_ofDigits (hds : ∀ c ∈ ds, c.isDigit = true) :
    Host.numeral 10 ds = Decimal.ofDigits ds := by
  unfold Host.numeral Decimal.ofDigits
  refine List.foldl_ext _ _ 0 fun n c hc => ?_
  rw [digit?_of_isDigit (hds c hc), Nat.mul_comm]

theorem Decimal.readNat?_digits {bound : Nat} (hne : ds ≠ []) (hds : ∀ c ∈ ds, c.isDigit = true)
    (hle : ofDigits ds ≤ bound) : readNat? bound ds = some (ofDigits ds) := by
  obtain ⟨d, ds, rfl⟩ := List.exists_cons_of_ne_nil hne
  have hplus : d ≠ '+' := by
    rintro rfl
    exact absurd (hds '+' List.mem_cons_self) (by decide)
  have hall : (d :: ds).all Char.isDigit = true := List.all_eq_true.2 hds
  unfold readNat?
  split
  · rename_i heq
    cases heq
    exact absurd rfl hplus
  · simp [hall, hle]

/-! ## 2. Hosts -/

/-- A character that stands within an authority without a user part, and ends none. -/
def Url.IsInner (c : Char) : Prop := 0x20 < c.toNat ∧ c ∉ "/\\?#@".toList

instance (c : Char) : Decidable (Url.IsInner c) := inferInstanceAs (Decidable (_ ∧ _))

theorem Url.IsInner.not_ends (hc : IsInner c) (special : Bool) :
    endsAuthority special c = false := by
  have hne : ∀ c' ∈ "/\\?#@".toList, (c == c') = false := fun c' hc' =>
    beq_eq_false_iff_ne.2 fun heq => hc.2 (heq ▸ hc')
  simp [endsAuthority, isSlash, hne]

theorem Url.IsInner.ne_at (hc : IsInner c) : c ≠ '@' := by
  rintro rfl
  exact absurd hc (by decide)

theorem Url.IsInner.of_isDigit (hc : c.isDigit = true) : IsInner c := by
  obtain ⟨hlow, -⟩ := toNat_of_isDigit hc
  refine ⟨by omega, fun hmem => ?_⟩
  have hall : "/\\?#@".toList.all (!·.isDigit) = true := by decide
  have hno := List.all_eq_true.1 hall c hmem
  rw [hc] at hno
  cases hno

namespace Host

/-- A text that writes a host: a name or an address of four bytes, or an address of eight words in
brackets. -/
inductive Writes : Text → Host → Prop
  | plain {s : Text} {h : Host} (hs : ∀ c ∈ s, isForbidden c = false ∧ isControl c = false)
      (hread : readSpecial s = .ok h) : Writes s h
  | bracketed {t : Text} {h : Host} (ht : ∀ c ∈ t, isHex c = true ∨ c = ':' ∨ c = '.')
      (hread : readSix t = .ok h) : Writes ('[' :: (t ++ [']'])) h

theorem isInner_of_not_forbidden (hf : isForbidden c = false) (hc : isControl c = false) :
    Url.IsInner c := by
  have hall : ∀ c ∈ "/\\?#@ ".toList, isForbidden c = true := List.all_eq_true.1 (by decide)
  have hne : ∀ c' ∈ "/\\?#@ ".toList, c ≠ c' := by
    rintro c' hc' rfl
    rw [hall c hc'] at hf
    cases hf
  have hblank : c.toNat ≠ 0x20 := fun heq => hne ' ' (by decide) (Char.toNat_inj.1 heq)
  simp only [isControl, Bool.or_eq_false_iff, decide_eq_false_iff_not] at hc
  have hsub : "/\\?#@".toList <+: "/\\?#@ ".toList := by decide
  exact ⟨by omega, fun hmem => hne c (hsub.subset hmem) rfl⟩

theorem toNat_of_isHex (hc : isHex c = true) : 0x30 ≤ c.toNat ∧ c.toNat ≤ 0x39 ∨
    0x41 ≤ c.toNat ∧ c.toNat ≤ 0x46 ∨ 0x61 ≤ c.toNat ∧ c.toNat ≤ 0x66 := by
  have hall : ∀ n < 0x80, (Percent.digit? (UInt8.ofNat n)).isSome = true → 0x30 ≤ n ∧ n ≤ 0x39 ∨
      0x41 ≤ n ∧ n ≤ 0x46 ∨ 0x61 ≤ n ∧ n ≤ 0x66 := by decide
  simp only [isHex, Bool.and_eq_true, decide_eq_true_eq] at hc
  exact hall c.toNat hc.1 hc.2

/-- A character of an address in brackets. -/
theorem isInner_of_six (hc : isHex c = true ∨ c = ':' ∨ c = '.') :
    Url.IsInner c ∧ c ≠ '[' ∧ c ≠ ']' := by
  rcases hc with hc | rfl | rfl
  · have hnat := toNat_of_isHex hc
    have hall : "/\\?#@[]".toList.all (!isHex ·) = true := by decide
    have hne : ∀ c' ∈ "/\\?#@[]".toList, c ≠ c' := by
      rintro c' hc' rfl
      have hno := List.all_eq_true.1 hall c hc'
      rw [hc] at hno
      cases hno
    have hsub : "/\\?#@".toList <+: "/\\?#@[]".toList := by decide
    exact ⟨⟨by omega, fun hmem => hne c (hsub.subset hmem) rfl⟩, hne '[' (by decide),
      hne ']' (by decide)⟩
  · decide
  · decide

theorem Writes.inner (hw : Writes s h) : ∀ c ∈ s, Url.IsInner c := by
  cases hw with
  | plain hs hread => exact fun c hc => isInner_of_not_forbidden (hs c hc).1 (hs c hc).2
  | @bracketed t _ ht hread =>
    intro c hc
    rcases List.mem_cons.1 hc with rfl | hc
    · decide
    rcases List.mem_append.1 hc with hc | hc
    · exact (isInner_of_six (ht c hc)).1
    · obtain rfl := List.mem_singleton.1 hc
      decide

/-- A text that writes a host is read as the host. -/
theorem Writes.read (hw : Writes s h) : readSpecial s = .ok h := by
  cases hw with
  | plain hs hread => exact hread
  | @bracketed t _ ht hread =>
    have hopen : (('[' :: (t ++ [']'])).head? == some '[') = true := rfl
    have hun : unbracket? ('[' :: (t ++ [']'])) = some t := by simp [unbracket?]
    simp only [readSpecial, hopen, hun, if_true]
    exact hread

theorem Writes.ne_nil (hw : Writes s h) : s ≠ [] := by
  rintro rfl
  have hnil : readSpecial [] = .error .emptyHost := by decide +kernel
  cases hnil.symm.trans hw.read

end Host

namespace Url

/-! ## 3. Hosts and ports within an authority -/

/-- What may stand behind a host within an authority: a port, or nothing. -/
def IsPortPart (s : Text) : Prop := s = [] ∨ ∃ p, s = ':' :: p

/-- What may stand behind an authority. -/
def IsBehind (s : Text) : Prop := ∀ c ∈ s.head?, c = '/' ∨ c = '\\' ∨ c = '?' ∨ c = '#'

theorem isBehind_nil : IsBehind [] := by
  intro c hc
  cases hc

theorem IsBehind.not_digit (hr : IsBehind (c :: rest)) : c.isDigit = false := by
  rcases hr c rfl with rfl | rfl | rfl | rfl
  · decide
  · decide
  · decide
  · decide

theorem splitHost_stop (brackets : Bool) (hb : brackets = false) (hr : IsPortPart rest) :
    splitHost brackets rest = ([], rest) := by
  subst hb
  rcases hr with rfl | ⟨p, rfl⟩
  · rfl
  · rfl

/-- A host without colons and brackets ends at the first colon. -/
theorem splitHost_plain (hs : ∀ c ∈ s, c ≠ ':' ∧ c ≠ '[' ∧ c ≠ ']') (hr : IsPortPart rest) :
    splitHost false (s ++ rest) = (s, rest) := by
  induction s with
  | nil => exact splitHost_stop false rfl hr
  | cons c s ih =>
    obtain ⟨hcolon, hopen, hclose⟩ := hs c List.mem_cons_self
    have hrest := ih fun c hc => hs c (List.mem_cons_of_mem _ hc)
    simp [splitHost, hcolon, hopen, hclose, hrest]

/-- Within brackets colons do not count. -/
theorem splitHost_brackets (ht : ∀ c ∈ t, c ≠ '[' ∧ c ≠ ']') (hr : IsPortPart rest) :
    splitHost true (t ++ ']' :: rest) = (t ++ [']'], rest) := by
  induction t with
  | nil => simp [splitHost, splitHost_stop false rfl hr]
  | cons c t ih =>
    obtain ⟨hopen, hclose⟩ := ht c List.mem_cons_self
    have hrest := ih fun c hc => ht c (List.mem_cons_of_mem _ hc)
    simp [splitHost, hopen, hclose, hrest]

/-- A host is told from what stands behind it. -/
theorem splitHost_append (hw : Host.Writes s h) (hr : IsPortPart rest) :
    splitHost false (s ++ rest) = (s, rest) := by
  cases hw with
  | plain hs hread =>
    refine splitHost_plain (fun c hc => ?_) hr
    have hall : ∀ c' ∈ ":[]".toList, Host.isForbidden c' = true := List.all_eq_true.1 (by decide)
    have hne : ∀ c' ∈ ":[]".toList, c ≠ c' := by
      rintro c' hc' rfl
      cases (hall c hc').symm.trans (hs c hc).1
    exact ⟨hne ':' (by decide), hne '[' (by decide), hne ']' (by decide)⟩
  | @bracketed t _ ht hread =>
    have hinner := splitHost_brackets (fun c hc => (Host.isInner_of_six (ht c hc)).2) hr
    rw [List.cons_append, List.append_assoc, List.singleton_append]
    simp [splitHost, hinner]

/-- The port that digits write, none where the scheme has it by default. -/
theorem readPort_digits (hne : ds ≠ []) (hds : ∀ c ∈ ds, c.isDigit = true)
    (hle : Decimal.ofDigits ds ≤ 65535) (hr : IsBehind rest) :
    readPort scheme (ds ++ rest) =
      .ok (if defaultPort scheme == some (Decimal.ofDigits ds) then none
        else some (Decimal.ofDigits ds), rest) := by
  have htake : (ds ++ rest).takeWhile Char.isDigit = ds := by
    rw [List.takeWhile_append_of_pos hds]
    cases rest with
    | nil => rw [List.takeWhile_nil, List.append_nil]
    | cons c rest => rw [List.takeWhile_cons_of_neg (by simp [hr.not_digit]), List.append_nil]
  have hempty : ds.isEmpty = false := List.isEmpty_eq_false_iff.2 hne
  simp only [readPort, htake, List.drop_left, Host.numeral_eq_ofDigits hds, hempty, Bool.false_or]
  rw [if_neg]
  cases rest with
  | nil => simpa using hle
  | cons c rest => rcases hr c rfl with rfl | rfl | rfl | rfl <;> simp [hle]

/-! ## 4. Authorities -/

theorem IsBehind.ends (hr : IsBehind rest) (c : Char) (hc : rest.head? = some c) :
    endsAuthority true c = true := by
  rcases hr c hc with rfl | rfl | rfl | rfl
  · rfl
  · rfl
  · rfl
  · rfl

/-- The authority at the front of an address, and what is behind it. -/
theorem takeWhile_inner (hs : ∀ c ∈ s, IsInner c) (hr : IsBehind rest) :
    (s ++ rest).takeWhile (!endsAuthority true ·) = s := by
  rw [List.takeWhile_append_of_pos fun c hc => by simp [(hs c hc).not_ends]]
  cases rest with
  | nil => rw [List.takeWhile_nil, List.append_nil]
  | cons c rest => rw [List.takeWhile_cons_of_neg (by simp [hr.ends c rfl]), List.append_nil]

/-- A host and its port part are read as an authority without a user part. -/
theorem readAuthority_append {port : Text} (hscheme : isSpecial scheme = true)
    (hw : Host.Writes s h) (hport : IsPortPart port) (hinner : ∀ c ∈ port, IsInner c)
    (hr : IsBehind rest) :
    readAuthority scheme (s ++ port ++ rest) =
      (match port with
        | ':' :: p => readPort scheme (p ++ rest)
        | _ => .ok (none, port ++ rest)).map fun (p, rest) => (⟨[], none, some h, p⟩, rest) := by
  have hall : ∀ c ∈ s ++ port, IsInner c := by
    intro c hc
    rcases List.mem_append.1 hc with hc | hc
    · exact hw.inner c hc
    · exact hinner c hc
  have hat : Text.splitLast? '@' (s ++ port) = none :=
    Text.splitLast?_eq_none fun hmem => (hall '@' hmem).ne_at rfl
  have hhost : readHost true s = .ok (some h) := by
    have hne : s.isEmpty = false := List.isEmpty_eq_false_iff.2 hw.ne_nil
    simp [readHost, hne, hw.read, Except.map]
  have huser : readUser [] = ([], none) := rfl
  simp only [readAuthority, hscheme, takeWhile_inner hall hr, List.drop_left, hat,
    splitHost_append hw hport, hhost, huser, Option.getD_none]
  rcases hport with rfl | ⟨p, rfl⟩
  · rfl
  · cases readPort scheme (p ++ rest) with
    | error e => rfl
    | ok found => rfl

/-- **A host alone** is read as an authority without a port. -/
theorem readAuthority_host (hscheme : isSpecial scheme = true) (hw : Host.Writes s h)
    (hr : IsBehind rest) :
    readAuthority scheme (s ++ rest) = .ok (⟨[], none, some h, none⟩, rest) := by
  have happend := readAuthority_append hscheme hw (.inl rfl) nofun hr
  rwa [List.append_nil] at happend

/-- **A host with a port** is read as an authority with this port, unless the scheme has it by
default. -/
theorem readAuthority_port (hscheme : isSpecial scheme = true) (hw : Host.Writes s h)
    (hne : ds ≠ []) (hds : ∀ c ∈ ds, c.isDigit = true) (hle : Decimal.ofDigits ds ≤ 65535)
    (hr : IsBehind rest) :
    readAuthority scheme (s ++ ':' :: ds ++ rest) =
      .ok (⟨[], none, some h, if defaultPort scheme == some (Decimal.ofDigits ds) then none
        else some (Decimal.ofDigits ds)⟩, rest) := by
  have hinner : ∀ c ∈ ':' :: ds, IsInner c := by
    intro c hc
    rcases List.mem_cons.1 hc with rfl | hc
    · decide
    · exact .of_isDigit (hds c hc)
  rw [readAuthority_append hscheme hw (.inr ⟨ds, rfl⟩) hinner hr]
  simp only [readPort_digits hne hds hle hr]
  rfl

/-- A port that the scheme has by default is used all the same. -/
theorem effectivePort_of_authority {u : Url} {name : Text} {password : Option Text}
    {host : Option Host} {n : Nat} (hscheme : u.scheme = scheme)
    (ha : u.authority =
      some ⟨name, password, host, if defaultPort scheme == some n then none else some n⟩) :
    u.effectivePort = some n := by
  unfold effectivePort port?
  rw [ha, hscheme, Option.bind_some]
  dsimp only
  cases hdefault : defaultPort scheme == some n with
  | true => exact eq_of_beq hdefault
  | false => rfl

/-! ## 5. Addresses -/

theorem IsBehind.of_prefix (hr : IsBehind rest) (hp : s <+: rest) : IsBehind s := by
  obtain ⟨more, rfl⟩ := hp
  cases s with
  | nil => exact isBehind_nil
  | cons c s => exact hr

theorem IsBehind.filter {p : Char → Bool} (hr : IsBehind rest)
    (hp : ∀ c, c = '/' ∨ c = '\\' ∨ c = '?' ∨ c = '#' → p c = true) : IsBehind (rest.filter p) := by
  cases rest with
  | nil => exact isBehind_nil
  | cons c rest =>
    rw [List.filter_cons_of_pos (hp c (hr c rfl))]
    exact hr

/-- Blanks at the end of a text stand behind what goes on without blanks. -/
theorem trimEnd_append {p : Char → Bool} (hne : s ≠ []) (hs : ∀ c ∈ s, p c = false) (rest : Text) :
    ((s ++ rest).reverse.dropWhile p).reverse = s ++ (rest.reverse.dropWhile p).reverse := by
  have hback : s.reverse.dropWhile p = s.reverse := by
    obtain ⟨c, s', hrev⟩ := List.exists_cons_of_ne_nil (mt List.reverse_eq_nil_iff.1 hne)
    have hc : p c = false := hs c (List.mem_reverse.1 (hrev ▸ List.mem_cons_self))
    rw [hrev]
    exact List.dropWhile_cons_of_neg (by simp [hc])
  rw [List.reverse_append, List.dropWhile_append]
  split
  · rename_i hempty
    rw [hback, List.reverse_reverse, List.isEmpty_iff.1 hempty, List.reverse_nil, List.append_nil]
  · rw [List.reverse_append, List.reverse_reverse]

/-- Cleaning takes blanks away that stand behind an authority, and leaves the authority. -/
theorem clean_append (hne : s ≠ []) (hs : ∀ c ∈ s, 0x20 < c.toNat) (hr : IsBehind rest) :
    ∃ rest', IsBehind rest' ∧ clean (s ++ rest) = s ++ rest' := by
  let blank : Char → Bool := (·.toNat ≤ 0x20)
  let kept : Char → Bool := fun c => c != '\t' && c != '\n' && c != '\r'
  have hblank : ∀ c ∈ s, blank c = false := fun c hc => by simpa [blank] using hs c hc
  have hfront : (s ++ rest).dropWhile blank = s ++ rest := by
    obtain ⟨c, s, rfl⟩ := List.exists_cons_of_ne_nil hne
    exact List.dropWhile_cons_of_neg (by simp [hblank c List.mem_cons_self])
  have hkept : s.filter kept = s := by
    refine List.filter_eq_self.2 fun c hc => ?_
    have hnat := hs c hc
    simp only [kept, Bool.and_eq_true, bne_iff_ne]
    refine ⟨⟨?_, ?_⟩, ?_⟩
    all_goals
      rintro rfl
      exact absurd hnat (by decide)
  have hprefix : (rest.reverse.dropWhile blank).reverse <+: rest := by
    simpa using List.reverse_prefix.2 (List.dropWhile_suffix blank (l := rest.reverse))
  refine ⟨(rest.reverse.dropWhile blank).reverse.filter kept,
    (hr.of_prefix hprefix).filter ?_, ?_⟩
  · rintro c (rfl | rfl | rfl | rfl) <;> decide
  · have hclean : clean (s ++ rest) =
      (((s ++ rest).dropWhile blank).reverse.dropWhile blank).reverse.filter kept := rfl
    rw [hclean, hfront, trimEnd_append hne hblank, List.filter_append, hkept]

/-- **An address with the scheme of the web begins with its authority.** -/
theorem read_web {address : Text} {a : Authority} (hne : address ≠ [])
    (hinner : ∀ c ∈ address, IsInner c)
    (hread : ∀ rest, IsBehind rest → readAuthority "http".toList (address ++ rest) = .ok (a, rest))
    (hr : IsBehind rest) :
    ∃ u, read ("http://".toList ++ address ++ rest) = .ok u ∧ u.scheme = "http".toList ∧
      u.authority = some a := by
  have hnat : ∀ c ∈ "http://".toList ++ address, 0x20 < c.toNat := by
    intro c hc
    rcases List.mem_append.1 hc with hc | hc
    · have hall : "http://".toList.all (0x20 < ·.toNat) = true := by decide
      exact of_decide_eq_true (List.all_eq_true.1 hall c hc)
    · exact (hinner c hc).1
  obtain ⟨rest', hr', hclean⟩ := clean_append (by simp) hnat hr
  have hslash : ("//".toList ++ (address ++ rest')).dropWhile (isSlash true) =
      address ++ rest' := by
    obtain ⟨c, address, rfl⟩ := List.exists_cons_of_ne_nil hne
    have hc := (hinner c List.mem_cons_self).not_ends true
    simp only [endsAuthority, Bool.or_eq_false_iff] at hc
    have hstop : (c :: address ++ rest').dropWhile (isSlash true) = c :: address ++ rest' :=
      List.dropWhile_cons_of_neg (by simp [hc.1.1])
    rw [List.dropWhile_append_of_pos (List.all_eq_true.1 (by decide)), hstop]
  have hsplit : splitScheme? ("http://".toList ++ address ++ rest') =
      some ("http".toList, "//".toList ++ (address ++ rest')) := by
    rw [List.append_assoc]
    rfl
  obtain ⟨u, hafter, hscheme, ha⟩ : ∃ u, readAfterSlashes "http".toList (address ++ rest') = .ok u ∧
      u.scheme = "http".toList ∧ u.authority = some a := by
    unfold readAfterSlashes
    rw [hread rest' hr']
    exact ⟨_, rfl, rfl, rfl⟩
  refine ⟨u, ?_, hscheme, ha⟩
  unfold read readFrom
  simp only [hclean, hsplit]
  unfold readWithScheme
  rw [if_neg (by decide), if_pos (by decide)]
  simp only [Option.filter_none]
  rw [hslash]
  exact hafter

end Url

end EdgeInclude

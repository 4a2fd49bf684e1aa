import EdgeInclude.Proofs.Text.Trim
import EdgeInclude.Tag.Attributes
import Mathlib.Data.List.TakeWhile

/-!
# Attributes as they are written

Between the blanks of a tag stand attributes and words. Where a quoted value ends is plain from its
second quote, and so the next attribute may follow at once; a bare value and a word reach up to the
next blank.

* `Attribute.Part`, `Attribute.Part.written` — the parts of a text of attributes, and how they are
  written.
* `Attribute.Spaced` — words and bare values end where a blank follows, or the end.
* `Attribute.readAll_append` — reading parts gives their attributes, and then what follows.
* `Attribute.readAll_written` — reading what is written gives it back; a quoted value that is not
  closed fails, wherever it stands.
-/

namespace EdgeInclude.Attribute

/-! ## 1. What is written -/

/-- A part of a text of attributes. -/
inductive Part where
  | blanks (s : Text)
  | word (w : Text)
  | bare (name value : Text)
  | quoted (name : Text) (quote : Char) (value : Text)
  deriving DecidableEq, Repr

/-- Whether a text holds neither a blank nor an equals sign. -/
def Unbroken (w : Text) : Prop := '=' ∉ w ∧ ∀ c ∈ w, Text.isBlank c = false

/-- A name is unbroken and not empty. -/
def IsName (n : Text) : Prop := n ≠ [] ∧ Unbroken n

/-- Whether the first character of a text is as it should be, if there is one. -/
def decidableHead (p : Char → Prop) [DecidablePred p] : (s : Text) → Decidable (∀ c ∈ s.head?, p c)
  | [] => .isTrue nofun
  | c :: _ => decidable_of_iff (p c) ⟨fun h _ he => Option.some.inj he ▸ h, fun h => h c rfl⟩

-- the characters of the text are looked at, not all characters that there are
instance (w : Text) : Decidable (Unbroken w) :=
  @instDecidableAnd _ _ inferInstance (List.decidableBAll _ w)

instance (n : Text) : Decidable (IsName n) := inferInstanceAs (Decidable (_ ∧ _))

namespace Part

/-- The text of a part. -/
def written : Part → Text
  | blanks s => s
  | word w => w
  | bare n v => n ++ '=' :: v
  | quoted n q v => n ++ '=' :: q :: (v ++ [q])

/-- The attribute that a part gives. -/
def attribute? : Part → Option Attribute
  | blanks _ | word _ => none
  | bare n v | quoted n _ v => some ⟨Text.lower n, v⟩

/-- What a part may hold. -/
def IsProper : Part → Prop
  | blanks s => ∀ c ∈ s, Text.isBlank c = true
  | word w => Unbroken w
  | bare n v => IsName n ∧ v ≠ [] ∧ (∀ c ∈ v, Text.isBlank c = false) ∧
      ∀ c ∈ v.head?, isQuote c = false
  | quoted n q v => IsName n ∧ isQuote q = true ∧ q ∉ v

instance : (p : Part) → Decidable p.IsProper
  | blanks s => List.decidableBAll _ s
  | word w => inferInstanceAs (Decidable (Unbroken w))
  | bare n v =>
    have := @instDecidableAnd _ _ (List.decidableBAll (Text.isBlank · = false) v)
      (decidableHead (isQuote · = false) v)
    inferInstanceAs (Decidable (IsName n ∧ v ≠ [] ∧
      (∀ c ∈ v, Text.isBlank c = false) ∧ ∀ c ∈ v.head?, isQuote c = false))
  | quoted n q v => inferInstanceAs (Decidable (IsName n ∧ isQuote q = true ∧ q ∉ v))

/-- Whether only a blank, or the end, shows where a part ends. -/
def isOpen : Part → Bool
  | blanks _ | quoted .. => false
  | word _ | bare .. => true

end Part

/-- The text of parts. -/
def text (ps : List Part) : Text := ps.flatMap Part.written

/-- Whether a text is at its end or goes on with a blank. -/
def Ends (s : Text) : Prop := ∀ c ∈ s.head?, Text.isBlank c = true

/-- Whether parts with `s` behind them stay apart. -/
def Spaced (s : Text) : List Part → Prop
  | [] => True
  | p :: ps => (p.isOpen = true → Ends (text ps ++ s)) ∧ Spaced s ps

instance (s : Text) : Decidable (Ends s) := decidableHead _ s

instance decidableSpaced (s : Text) : (ps : List Part) → Decidable (Spaced s ps)
  | [] => inferInstanceAs (Decidable True)
  | p :: ps =>
    have := decidableSpaced s ps
    inferInstanceAs (Decidable ((p.isOpen = true → Ends (text ps ++ s)) ∧ Spaced s ps))

variable {n v w s rest : Text} {q : Char} {ps : List Part}

/-! ## 2. Blanks and names -/

theorem Unbroken.isNameChar (h : Unbroken w) : ∀ c ∈ w, isNameChar c = true := by
  intro c hc
  have hne : c ≠ '=' := fun he => h.1 (he ▸ hc)
  simp [Attribute.isNameChar, hne, h.2 c hc]

theorem IsName.trimStart (h : IsName n) (s : Text) : Text.trimStart (n ++ s) = n ++ s := by
  obtain ⟨c, n, rfl⟩ := List.exists_cons_of_ne_nil h.1
  exact Text.trimStart_cons (h.2.2 c List.mem_cons_self) (n ++ s)

/-- A run of characters of one kind ends where one of another kind follows, or the end. -/
theorem span_append {p : Char → Bool} (h : ∀ c ∈ w, p c = true)
    (hs : ∀ c ∈ s.head?, p c = false) :
    (w ++ s).takeWhile p = w ∧ (w ++ s).dropWhile p = s := by
  rw [List.takeWhile_append_of_pos h, List.dropWhile_append_of_pos h]
  cases s with
  | nil => exact ⟨List.append_nil w, rfl⟩
  | cons c s =>
    have hc : ¬ p c = true := by rw [hs c rfl]; exact Bool.false_ne_true
    rw [List.takeWhile_cons_of_neg hc, List.dropWhile_cons_of_neg hc]
    exact ⟨List.append_nil w, rfl⟩

/-! ## 3. One part -/

/-- One step of reading. -/
theorem readAll_eq (s : Text) : readAll s =
    match (Text.trimStart s).dropWhile isNameChar with
    | '=' :: rest =>
      let name := (Text.trimStart s).takeWhile isNameChar
      match readValue? rest with
      | none => .error (.unterminatedQuote (Text.lower name))
      | some (value, rest') => (readAll rest').map (named name value ++ ·)
    | _ :: rest => readAll rest
    | [] => .ok [] := by
  rw [readAll]
  split
  · split
    · simp [*]
    · simp [*]
  · simp [*]
  · simp [*]

theorem readAll_nil : readAll [] = .ok [] := by
  rw [readAll_eq]
  rfl

theorem readAll_blanks (h : Text.AllBlank w) : readAll (w ++ s) = readAll s := by
  rw [readAll_eq, h.trimStart_append, ← readAll_eq]

theorem readAll_word (h : Unbroken w) (hs : Ends s) : readAll (w ++ s) = readAll s := by
  by_cases hne : w = []
  · rw [hne, List.nil_append]
  · have hstop : ∀ c ∈ s.head?, isNameChar c = false := by
      intro c hc
      rw [isNameChar, hs c hc, Bool.not_true, Bool.and_false]
    rw [readAll_eq, IsName.trimStart ⟨hne, h⟩, (span_append h.isNameChar hstop).2]
    cases s with
    | nil => rw [readAll_nil]
    | cons c s =>
      -- the blank behind the word is skipped, in the one text as in the other
      have hblank : Text.isBlank c = true := hs c rfl
      have hc : c ≠ '=' := by
        rintro rfl
        cases hblank
      have hskip : readAll (c :: s) = readAll s :=
        readAll_blanks (w := [c]) (by simpa [Text.AllBlank] using hblank)
      simp only [hskip]

/-- Reading an attribute. -/
theorem readAll_name (hn : IsName n) (rest : Text) : readAll (n ++ '=' :: rest) =
    match readValue? rest with
    | none => .error (.unterminatedQuote (Text.lower n))
    | some (value, rest') => (readAll rest').map (⟨Text.lower n, value⟩ :: ·) := by
  have hstop : ∀ c ∈ ('=' :: rest).head?, isNameChar c = false := by
    rintro c ⟨⟩
    rfl
  obtain ⟨htake, hdrop⟩ := span_append hn.2.isNameChar hstop
  have hnamed : ∀ value, named n value = [⟨Text.lower n, value⟩] := fun value =>
    if_neg (by rw [List.isEmpty_iff]; exact hn.1)
  rw [readAll_eq, hn.trimStart, hdrop]
  simp only [htake, hnamed, List.singleton_append]

theorem readValue?_bare (hv : v ≠ []) (hblank : ∀ c ∈ v, Text.isBlank c = false)
    (hquote : ∀ c ∈ v.head?, isQuote c = false) (hs : Ends s) :
    readValue? (v ++ s) = some (v, s) := by
  obtain ⟨c, v, rfl⟩ := List.exists_cons_of_ne_nil hv
  obtain ⟨htake, hdrop⟩ := span_append (p := (!Text.isBlank ·)) (w := c :: v) (s := s)
    (fun a ha => by rw [hblank a ha]; rfl) (fun a ha => by rw [hs a ha]; rfl)
  show (if isQuote c then _ else _) = _
  rw [hquote c rfl]
  exact congrArg some (Prod.ext htake hdrop)

theorem splitAtFirst?_append (hv : q ∉ v) (s : Text) :
    Text.splitAtFirst? q (v ++ q :: s) = some (v, s) := by
  obtain ⟨htake, -⟩ := span_append (p := (· != q)) (w := v) (s := q :: s)
    (fun c hc => bne_iff_ne.2 fun he => hv (he ▸ hc)) (fun c hc => by cases hc; simp)
  unfold Text.splitAtFirst?
  rw [htake, if_pos (by simp)]
  simp

theorem splitAtFirst?_eq_none (hv : q ∉ v) : Text.splitAtFirst? q v = none := by
  have htake : v.takeWhile (· != q) = v :=
    List.takeWhile_eq_self_iff.2 fun c hc => bne_iff_ne.2 fun he => hv (he ▸ hc)
  unfold Text.splitAtFirst?
  rw [htake]
  exact if_neg (Nat.lt_irrefl _)

theorem readValue?_quoted (hq : isQuote q = true) (s : Text) :
    readValue? (q :: s) = Text.splitAtFirst? q s := if_pos hq

/-! ## 4. All parts -/

/-- **Reading parts gives their attributes, and then what follows.** -/
theorem readAll_append (hp : ∀ p ∈ ps, p.IsProper) (hs : Spaced s ps) :
    readAll (text ps ++ s) = (readAll s).map (ps.filterMap Part.attribute? ++ ·) := by
  induction ps with
  | nil =>
    show readAll s = _
    cases readAll s <;> rfl
  | cons p ps ih =>
    obtain ⟨hp, hps⟩ := List.forall_mem_cons.1 hp
    obtain ⟨hend, hs⟩ := hs
    have ih := ih hps hs
    have htext : text (p :: ps) ++ s = p.written ++ (text ps ++ s) := by
      rw [text, List.flatMap_cons, List.append_assoc]
      rfl
    have hmap : ∀ a, (readAll (text ps ++ s)).map (a :: ·) =
        (readAll s).map (a :: ps.filterMap Part.attribute? ++ ·) := by
      intro a
      rw [ih]
      cases readAll s <;> rfl
    rw [htext]
    cases p with
    | blanks b => exact (readAll_blanks hp).trans ih
    | word w => exact (readAll_word hp (hend rfl)).trans ih
    | bare n v =>
      obtain ⟨hn, hv, hblank, hquote⟩ := hp
      show readAll (n ++ '=' :: v ++ (text ps ++ s)) = _
      rw [List.append_assoc, List.cons_append, readAll_name hn,
        readValue?_bare hv hblank hquote (hend rfl)]
      exact hmap _
    | quoted n q v =>
      obtain ⟨hn, hq, hv⟩ := hp
      show readAll (n ++ '=' :: q :: (v ++ [q]) ++ (text ps ++ s)) = _
      have hw : n ++ '=' :: q :: (v ++ [q]) ++ (text ps ++ s) =
          n ++ '=' :: q :: (v ++ q :: (text ps ++ s)) := by simp
      rw [hw, readAll_name hn, readValue?_quoted hq, splitAtFirst?_append hv]
      exact hmap _

/-- **Reading gives back what is written**: the attributes in order, with their names in lower case
and their values as they are, and nothing for the words between them. A quoted value that is not
closed fails, whatever stands in front of it. -/
theorem readAll_written (hp : ∀ p ∈ ps, p.IsProper) :
    (Spaced [] ps → readAll (text ps) = .ok (ps.filterMap Part.attribute?)) ∧
    ∀ n q v, IsName n → isQuote q = true → q ∉ v → Spaced (n ++ '=' :: q :: v) ps →
      readAll (text ps ++ (n ++ '=' :: q :: v)) = .error (.unterminatedQuote (Text.lower n)) := by
  constructor
  · intro hs
    have h := readAll_append hp hs
    rw [List.append_nil, readAll_nil] at h
    rw [h, Except.map, List.append_nil]
  · intro n q v hn hq hv hs
    rw [readAll_append hp hs, readAll_name hn, readValue?_quoted hq, splitAtFirst?_eq_none hv]
    rfl

/-- Attributes in three forms, with a word among them; of two quotes in one value only the one that
opens it closes it. -/
def mixed : List Part :=
  [.blanks [' '], .quoted "SRC".toList '"' "a=b".toList, .quoted "ttl".toList '"' [], .blanks [' '],
    .word "flag".toList, .blanks ['\n'], .bare "key".toList "v='2'".toList, .blanks [' '],
    .quoted "onerror".toList '\'' "x \"y\"".toList]

theorem readAll_written_mixed :
    text mixed = " SRC=\"a=b\"ttl=\"\" flag\nkey=v='2' onerror='x \"y\"'".toList ∧
    readAll (text mixed) = .ok [⟨"src".toList, "a=b".toList⟩, ⟨"ttl".toList, []⟩,
      ⟨"key".toList, "v='2'".toList⟩, ⟨"onerror".toList, "x \"y\"".toList⟩] ∧
    readAll (text mixed ++ ("Key".toList ++ '=' :: '"' :: "open '".toList)) =
      .error (.unterminatedQuote "key".toList) := by
  have hproper : ∀ p ∈ mixed, p.IsProper := by decide +kernel
  have hattributes : mixed.filterMap Part.attribute? = [⟨"src".toList, "a=b".toList⟩,
      ⟨"ttl".toList, []⟩, ⟨"key".toList, "v='2'".toList⟩,
      ⟨"onerror".toList, "x \"y\"".toList⟩] := by
    decide +kernel
  obtain ⟨hread, hfail⟩ := readAll_written hproper
  rw [hattributes] at hread
  exact ⟨by decide +kernel, hread (by decide +kernel), hfail "Key".toList '"' "open '".toList
    (by decide +kernel) rfl (by decide +kernel) (by decide +kernel)⟩

end EdgeInclude.Attribute

import EdgeInclude.Proofs.Occurrence
import EdgeInclude.Proofs.Text.Trim
import EdgeInclude.Template
import Mathlib.Data.List.Basic
import Mathlib.Data.List.Infix

/-!
# Templates as they are written

A template is read from mark to mark: the first opening mark, the first closing mark behind it, and
so on from there. So each placeholder is found where it has been written, as long as no literal runs
into the mark behind it; and reading fails at the first mark that is not closed or has nothing
between the braces.

* `Template.Slot`, `Template.Written` — placeholders and templates as they are written.
* `Template.Written.IsProper.compile_eq` — what is written is read back, part by part.
* `Template.Written.render_parts` — the literals and the values in order; values are not read again.
* `Template.Meets`, `Template.Fails` — the opening marks that reading comes to, and those that it
  fails at.
* `Template.compile_law` — both together.
-/

namespace EdgeInclude.Template

variable {source s u before after rest : Text} {pos i j : Nat}

/-! ## 1. One step of reading -/

/-- One step of reading. -/
theorem compileFrom_eq (source s : Text) : compileFrom source s =
    match splitFirst? opening s with
    | none => .ok (literalParts s)
    | some (before, after) =>
      match splitFirst? closing after with
      | none => .error (.unterminatedPlaceholder source)
      | some (u, rest) =>
        if (token u).isEmpty then .error (.emptyPlaceholder source)
        else (compileFrom source rest).map fun parts =>
          literalParts before ++ .placeholder (token u) :: parts := by
  rw [compileFrom]
  split
  · simp [*]
  · split
    · simp [*]
    · simp [*]

theorem compileFrom_literal (ho : splitFirst? opening s = none) :
    compileFrom source s = .ok (literalParts s) := by
  rw [compileFrom_eq, ho]

theorem compileFrom_unclosed (ho : splitFirst? opening s = some (before, after))
    (hc : splitFirst? closing after = none) :
    compileFrom source s = .error (.unterminatedPlaceholder source) := by
  rw [compileFrom_eq, ho]
  dsimp only
  rw [hc]

theorem compileFrom_closed (ho : splitFirst? opening s = some (before, after))
    (hc : splitFirst? closing after = some (u, rest)) :
    compileFrom source s =
      if (token u).isEmpty then .error (.emptyPlaceholder source)
      else (compileFrom source rest).map fun parts =>
        literalParts before ++ .placeholder (token u) :: parts := by
  rw [compileFrom_eq, ho]
  dsimp only
  rw [hc]

theorem flatMap_literalParts (r : Request) (empty s : Text) :
    (literalParts s).flatMap (Part.render r empty) = s := by
  cases s with
  | nil => rfl
  | cons c s => exact List.append_nil _

/-! ## 2. Placeholders as they are written -/

/-- A placeholder as it is written: its token between blanks, and perhaps between single braces. -/
structure Slot where
  front : Text
  token : Text
  back : Text
  braced : Bool
  deriving DecidableEq, Repr

namespace Slot

/-- The token, in its single braces if it has some. -/
def core (p : Slot) : Text := if p.braced then '\x7b' :: p.token ++ ['\x7d'] else p.token

/-- What stands between the marks. -/
def inner (p : Slot) : Text := p.front ++ p.core ++ p.back

/-- The whole placeholder. -/
def written (p : Slot) : Text := opening ++ p.inner ++ closing

/-- What a placeholder may be: a token that is trimmed and does not run into the closing mark,
between blanks; behind a single brace there is at least one blank. -/
structure IsProper (p : Slot) : Prop where
  front : Text.AllBlank p.front
  back : Text.AllBlank p.back
  ne_nil : p.token ≠ []
  trimmed : Text.IsTrimmed p.token
  unclosed : ¬ closing <:+: p.token
  last : p.token.getLast? ≠ some '\x7d'
  spaced : p.braced = true → p.back ≠ []

instance (p : Slot) : Decidable p.IsProper :=
  decidable_of_iff (Text.AllBlank p.front ∧ Text.AllBlank p.back ∧ p.token ≠ [] ∧
      Text.IsTrimmed p.token ∧ ¬ closing <:+: p.token ∧ p.token.getLast? ≠ some '\x7d' ∧
      (p.braced = true → p.back ≠ []))
    ⟨fun ⟨hf, hb, hne, ht, hu, hl, hs⟩ => ⟨hf, hb, hne, ht, hu, hl, hs⟩,
      fun ⟨hf, hb, hne, ht, hu, hl, hs⟩ => ⟨hf, hb, hne, ht, hu, hl, hs⟩⟩

end Slot

theorem unbrace?_eq_some_iff : unbrace? s = some u ↔ s = '\x7b' :: u ++ ['\x7d'] := by
  constructor
  · intro h
    unfold unbrace? at h
    split at h
    · rw [Text.dropLast_eq_some_iff.1 h]
      rfl
    · cases h
  · rintro rfl
    exact Text.dropLast_eq_some_iff.2 rfl

theorem unbrace?_eq_none (h : s.getLast? ≠ some '\x7d') : unbrace? s = none := by
  cases hu : unbrace? s with
  | none => rfl
  | some u =>
    rw [unbrace?_eq_some_iff.1 hu] at h
    exact absurd List.getLast?_concat h

namespace Slot

variable {p : Slot}

theorem IsProper.isTrimmed_core (h : p.IsProper) : Text.IsTrimmed p.core := by
  unfold core
  split
  · refine ⟨rfl, ?_⟩
    rw [List.getLast?_concat]
    rfl
  · exact h.trimmed

theorem IsProper.unclosed_core (h : p.IsProper) : ¬ closing <:+: p.core := by
  unfold core
  split
  · -- the token runs neither into the brace behind it nor into the one in front
    have hfront : ¬ closing <:+: ['\x7b'] ++ p.token :=
      not_pair_infix_append (by decide) h.unclosed (fun hl => absurd hl (by decide))
    have hlast : (['\x7b'] ++ p.token).getLast? = p.token.getLast? :=
      List.getLast?_append_of_ne_nil _ h.ne_nil
    exact not_pair_infix_append hfront (by decide) fun hl => absurd (hlast.symm.trans hl) h.last
  · exact h.unclosed

theorem IsProper.unclosed_inner (h : p.IsProper) : ¬ closing <:+: p.inner := by
  have hfront := h.front.not_mem (c := '\x7d') rfl
  have hback := h.back.not_mem (c := '\x7d') rfl
  refine not_pair_infix_append (not_pair_infix_append (not_pair_infix_of_not_mem hfront)
    h.unclosed_core fun hl => absurd (List.mem_of_getLast? hl) hfront)
    (not_pair_infix_of_not_mem hback) fun _ hh => hback (List.mem_of_head? hh)

theorem IsProper.last_inner (h : p.IsProper) : p.inner.getLast? ≠ some '\x7d' := by
  have hback := h.back.not_mem (c := '\x7d') rfl
  unfold inner
  by_cases hne : p.back = []
  · have hplain : p.core = p.token := if_neg fun hb => h.spaced hb hne
    rw [hne, List.append_nil, hplain, List.getLast?_append_of_ne_nil _ h.ne_nil]
    exact h.last
  · rw [List.getLast?_append_of_ne_nil _ hne]
    exact fun hl => hback (List.mem_of_getLast? hl)

/-- **A placeholder has the token that is written in it.** -/
theorem IsProper.token_inner (h : p.IsProper) : Template.token p.inner = p.token := by
  have htrim : Text.trim p.inner = p.core := Text.trim_surrounded h.front h.isTrimmed_core h.back
  unfold Template.token
  dsimp only
  rw [htrim]
  by_cases hb : p.braced = true
  · have hcore : p.core = '\x7b' :: p.token ++ ['\x7d'] := if_pos hb
    rw [unbrace?_eq_some_iff.2 hcore]
    exact Text.trim_eq_self h.trimmed
  · have hcore : p.core = p.token := if_neg hb
    rw [hcore, unbrace?_eq_none h.last]

end Slot

/-! ## 3. Templates as they are written -/

/-- A template as it is written: placeholders, each behind a literal, and a last literal. -/
structure Written where
  slots : List (Text × Slot)
  last : Text
  deriving DecidableEq, Repr

namespace Written

/-- The text of a template. -/
def text (w : Written) : Text := w.slots.flatMap (fun x => x.1 ++ x.2.written) ++ w.last

/-- The tokens, in order. -/
def tokens (w : Written) : List Text := w.slots.map (·.2.token)

/-- The parts, in order. -/
def parts (w : Written) : List Part :=
  w.slots.flatMap (fun x => literalParts x.1 ++ [.placeholder x.2.token]) ++ literalParts w.last

/-- The literals and the values of the tokens, in order. -/
def filled (w : Written) (r : Request) (empty : Text) : Text :=
  w.slots.flatMap (fun x => x.1 ++ (r.placeholder? x.2.token).getD empty) ++ w.last

/-- What a template may be: no literal has an opening mark, or runs into the one behind it. -/
structure IsProper (w : Written) : Prop where
  slots : ∀ x ∈ w.slots, x.2.IsProper
  literals : ∀ x ∈ w.slots, ¬ opening <:+: x.1 ∧ x.1.getLast? ≠ some '\x7b'
  last : ¬ opening <:+: w.last

instance (w : Written) : Decidable w.IsProper :=
  decidable_of_iff ((∀ x ∈ w.slots, x.2.IsProper) ∧
      (∀ x ∈ w.slots, ¬ opening <:+: x.1 ∧ x.1.getLast? ≠ some '\x7b') ∧ ¬ opening <:+: w.last)
    ⟨fun ⟨hs, hl, he⟩ => ⟨hs, hl, he⟩, fun ⟨hs, hl, he⟩ => ⟨hs, hl, he⟩⟩

variable {w : Written}

theorem IsProper.compileFrom_text (h : w.IsProper) :
    compileFrom source w.text = .ok w.parts := by
  obtain ⟨slots, last⟩ := w
  induction slots with
  | nil => exact compileFrom_literal (splitFirst?_eq_none (nowhereFrom_zero_iff.2 h.last))
  | cons x slots ih =>
    obtain ⟨lit, p⟩ := x
    obtain ⟨hslots, hliterals, hlast⟩ := h
    obtain ⟨hp, hslots⟩ := List.forall_mem_cons.1 hslots
    obtain ⟨⟨hlit, hbrace⟩, hliterals⟩ := List.forall_mem_cons.1 hliterals
    have ho : splitFirst? opening (text ⟨(lit, p) :: slots, last⟩) =
        some (lit, p.inner ++ closing ++ text ⟨slots, last⟩) := by
      have htext : text ⟨(lit, p) :: slots, last⟩ =
          lit ++ opening ++ (p.inner ++ closing ++ text ⟨slots, last⟩) := by
        simp only [text, Slot.written, List.flatMap_cons, List.append_assoc]
      rw [htext]
      exact splitFirst?_pair_append hlit hbrace
    have hc : splitFirst? closing (p.inner ++ closing ++ text ⟨slots, last⟩) =
        some (p.inner, text ⟨slots, last⟩) :=
      splitFirst?_pair_append hp.unclosed_inner hp.last_inner
    rw [compileFrom_closed ho hc, hp.token_inner, ih ⟨hslots, hliterals, hlast⟩, if_neg]
    · simp only [Except.map, parts, List.flatMap_cons, List.append_assoc, List.cons_append,
        List.nil_append]
    · rw [List.isEmpty_iff]
      exact hp.ne_nil

/-- **What is written is read back**, part by part. -/
theorem IsProper.compile_eq (h : w.IsProper) : compile w.text = .ok ⟨w.text, w.parts⟩ := by
  unfold compile
  rw [h.compileFrom_text]
  rfl

theorem placeholders_parts (w : Written) (source : Text) :
    placeholders ⟨source, w.parts⟩ = w.tokens := by
  have hliteral : ∀ s : Text, (placeholders ⟨source, literalParts s⟩) = [] := fun s => by
    cases s <;> rfl
  obtain ⟨slots, last⟩ := w
  induction slots with
  | nil => exact hliteral last
  | cons x slots ih =>
    have hcut : placeholders ⟨source, parts ⟨x :: slots, last⟩⟩ =
        placeholders ⟨source, literalParts x.1⟩ ++
          (x.2.token :: placeholders ⟨source, parts ⟨slots, last⟩⟩) := by
      simp only [placeholders, parts, List.flatMap_cons, List.append_assoc, List.filterMap_append]
      rfl
    rw [hcut, hliteral, ih]
    rfl

/-- **Values are put in as they are**, one behind the other. -/
theorem render_parts (w : Written) (source : Text) (r : Request) (empty : Text) :
    render ⟨source, w.parts⟩ r empty = w.filled r empty := by
  unfold render filled parts
  rw [List.flatMap_append, flatMap_literalParts, List.flatMap_assoc]
  congr 2
  funext x
  rw [List.flatMap_append, flatMap_literalParts]
  exact congrArg _ (List.append_nil _)

end Written

/-! ## 4. Where reading fails -/

/-- The opening marks that reading comes to from a position on: the first one, and those that it
comes to from behind its closing mark. -/
inductive Meets (s : Text) : Nat → Nat → Prop where
  | here {pos i : Nat} (ho : FirstAt opening s pos i) : Meets s pos i
  | behind {pos i j k : Nat} (ho : FirstAt opening s pos i)
      (hc : FirstAt closing s (i + opening.length) j) (hm : Meets s (j + closing.length) k) :
      Meets s pos k

/-- Whether a text is blank, or a pair of single braces around blanks. -/
def Hollow (u : Text) : Prop :=
  Text.AllBlank u ∨ ∃ l m r, Text.AllBlank l ∧ Text.AllBlank m ∧ Text.AllBlank r ∧
    u = l ++ '\x7b' :: m ++ '\x7d' :: r

/-- Whether the opening mark at a position is not closed, or is closed around nothing. -/
inductive Fails (s : Text) (i : Nat) : Prop where
  | unclosed (hc : NowhereFrom closing s (i + opening.length)) : Fails s i
  | hollow {j : Nat} (hc : FirstAt closing s (i + opening.length) j)
      (hh : Hollow ((s.drop (i + opening.length)).take (j - (i + opening.length)))) : Fails s i

theorem token_eq_nil_iff : token u = [] ↔ Hollow u := by
  obtain ⟨l, r, hl, hr, hu⟩ := Text.exists_trim u
  unfold token Hollow
  dsimp only
  constructor
  · intro h
    split at h
    · rename_i m hm
      rw [unbrace?_eq_some_iff.1 hm] at hu
      exact .inr ⟨l, m, r, hl, Text.trim_eq_nil_iff.1 h, hr, by rw [hu]; simp⟩
    · exact .inl (Text.trim_eq_nil_iff.1 h)
  · rintro (h | ⟨l, m, r, hl, hm, hr, rfl⟩)
    · rw [Text.trim_eq_nil_iff.2 h]
      rfl
    · have hbraces : Text.trim (l ++ '\x7b' :: m ++ '\x7d' :: r) = '\x7b' :: m ++ ['\x7d'] := by
        have htrimmed : Text.IsTrimmed ('\x7b' :: m ++ ['\x7d']) :=
          ⟨rfl, by rw [List.getLast?_concat]; rfl⟩
        rw [← Text.trim_surrounded hl htrimmed hr]
        simp
      rw [hbraces, unbrace?_eq_some_iff.2 rfl]
      exact Text.trim_eq_nil_iff.2 hm

/-- An opening mark that reading comes to is the first one, or behind its closing mark. -/
theorem meets_iff {k : Nat} (ho : FirstAt opening s pos i) : Meets s pos k ↔
    k = i ∨ ∃ j, FirstAt closing s (i + opening.length) j ∧ Meets s (j + closing.length) k := by
  constructor
  · intro h
    cases h with
    | here ho' => exact .inl (ho'.unique ho)
    | behind ho' hc hm =>
      cases ho'.unique ho
      exact .inr ⟨_, hc, hm⟩
  · rintro (rfl | ⟨j, hc, hm⟩)
    · exact .here ho
    · exact .behind ho hc hm

theorem not_meets {k : Nat} (ho : NowhereFrom opening s pos) : ¬ Meets s pos k := by
  rintro (ho' | ⟨ho', -, -⟩) <;> exact ho'.not_nowhereFrom ho

/-- **Reading fails at the first mark that it cannot read, and only there.** -/
theorem compileFrom_error_iff (source s : Text) (pos : Nat) :
    (∃ e, compileFrom source (s.drop pos) = .error e) ↔ ∃ i, Meets s pos i ∧ Fails s i := by
  -- each placeholder leaves less of the text
  induction hn : s.length - pos using Nat.strongRecOn generalizing pos with
  | _ n ih =>
    rcases firstAt_or_nowhereFrom opening s pos with ⟨i, ho⟩ | ho
    · have hopen := splitFirst?_drop_of_firstAt ho
      rcases firstAt_or_nowhereFrom closing s (i + opening.length) with ⟨j, hc⟩ | hc
      · have hclose := splitFirst?_drop_of_firstAt hc
        have hfails : Fails s i ↔
            Hollow ((s.drop (i + opening.length)).take (j - (i + opening.length))) := by
          constructor
          · rintro (hc' | ⟨hc', hh⟩)
            · exact absurd hc' hc.not_nowhereFrom
            · exact hc'.unique hc ▸ hh
          · exact .hollow hc
        rw [compileFrom_closed hopen hclose]
        by_cases hh : Hollow ((s.drop (i + opening.length)).take (j - (i + opening.length)))
        · rw [if_pos (List.isEmpty_iff.2 (token_eq_nil_iff.2 hh))]
          exact ⟨fun _ => ⟨i, .here ho, hfails.2 hh⟩, fun _ => ⟨_, rfl⟩⟩
        · have hlt : s.length - (j + closing.length) < n := by
            have h1 := hc.stands.end_le (by decide)
            have h2 := ho.from_le
            have h3 := hc.from_le
            have h4 : 0 < closing.length := by decide
            omega
          have hrest := ih _ hlt (j + closing.length) rfl
          rw [if_neg (by rwa [List.isEmpty_iff, token_eq_nil_iff])]
          constructor
          · rintro ⟨e, he⟩
            cases hp : compileFrom source (s.drop (j + closing.length)) with
            | ok parts =>
              rw [hp] at he
              cases he
            | error e' =>
              obtain ⟨k, hm, hf⟩ := hrest.1 ⟨e', hp⟩
              exact ⟨k, .behind ho hc hm, hf⟩
          · rintro ⟨k, hm, hf⟩
            rcases (meets_iff ho).1 hm with rfl | ⟨j', hc', hm'⟩
            · exact absurd (hfails.1 hf) hh
            · cases hc'.unique hc
              obtain ⟨e, he⟩ := hrest.2 ⟨k, hm', hf⟩
              exact ⟨e, by rw [he]; rfl⟩
      · rw [compileFrom_unclosed hopen (splitFirst?_drop_of_nowhereFrom hc)]
        exact ⟨fun _ => ⟨i, .here ho, .unclosed hc⟩, fun _ => ⟨_, rfl⟩⟩
    · rw [compileFrom_literal (splitFirst?_drop_of_nowhereFrom ho)]
      exact ⟨fun ⟨_, h⟩ => (nomatch h), fun ⟨_, hm, _⟩ => absurd hm (not_meets ho)⟩

theorem compile_error_iff (s : Text) :
    (∃ e, compile s = .error e) ↔ ∃ i, Meets s 0 i ∧ Fails s i := by
  rw [← compileFrom_error_iff s s 0, List.drop_zero]
  unfold compile
  cases compileFrom s s with
  | ok parts => exact ⟨fun ⟨_, h⟩ => (nomatch h), fun ⟨_, h⟩ => (nomatch h)⟩
  | error e => exact ⟨fun _ => ⟨e, rfl⟩, fun _ => ⟨e, rfl⟩⟩

/-! ## 5. The law of templates -/

/-- **What a template stands for, and where reading it fails.** A template that is written from
literals and placeholders has those placeholders, in order, and gives the literals with the values
in their places; a value is not read again, whatever marks it has. Reading a text fails exactly if
it comes to an opening mark that is not closed, or is closed around nothing. -/
theorem compile_law :
    (∀ w : Written, w.IsProper → ∃ t, compile w.text = .ok t ∧ t.placeholders = w.tokens ∧
      ∀ r empty, t.render r empty = w.filled r empty) ∧
    ∀ s : Text, (∃ e, compile s = .error e) ↔ ∃ i, Meets s 0 i ∧ Fails s i :=
  ⟨fun w hw => ⟨_, hw.compile_eq, w.placeholders_parts _, w.render_parts _⟩, compile_error_iff⟩

/-- Braces in literals and in a token, and a token in braces of its own. -/
def tangled : Written :=
  ⟨[("a\x7d\x7d\x7bb".toList, ⟨[' '], "remote".toList, ['\n'], true⟩),
    ([], ⟨[], "\x7bx".toList, [], false⟩)], "\x7d\x7b".toList⟩

/-- A request from a client whose name looks like a placeholder. -/
def disguised : Request :=
  { Request.ofParts Request.get .root .empty with remote := "\x7b\x7bpath\x7d\x7d".toList }

theorem compile_law_tangled :
    tangled.IsProper ∧
    tangled.text = ("a\x7d\x7d\x7bb" ++ "\x7b\x7b \x7bremote\x7d\n\x7d\x7d" ++
      "\x7b\x7b\x7bx\x7d\x7d" ++ "\x7d\x7b").toList ∧
    ∃ t, compile tangled.text = .ok t ∧ t.placeholders = ["remote".toList, "\x7bx".toList] ∧
      t.render disguised ['-'] = "a\x7d\x7d\x7bb\x7b\x7bpath\x7d\x7d-\x7d\x7b".toList := by
  have hw : tangled.IsProper := by decide +kernel
  obtain ⟨t, hc, htokens, hrender⟩ := compile_law.1 tangled hw
  exact ⟨hw, by decide, t, hc, htokens, (hrender disguised ['-']).trans (by decide)⟩

/-- The inner braces of a placeholder need a blank behind them. -/
example : compile "\x7b\x7b\x7bx\x7d\x7d\x7d".toList =
    .ok ⟨"\x7b\x7b\x7bx\x7d\x7d\x7d".toList, [.placeholder "\x7bx".toList, .literal ['\x7d']]⟩ := by
  cbv

end EdgeInclude.Template

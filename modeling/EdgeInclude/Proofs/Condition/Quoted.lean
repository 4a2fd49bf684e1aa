import EdgeInclude.Condition
import EdgeInclude.Proofs.Occurrence
import EdgeInclude.Proofs.Text.Trim
import EdgeInclude.Tag.Attributes
import Mathlib.Data.List.Basic
import Mathlib.Order.Nat
import Mathlib.Tactic.Tauto

/-!
# Comparing quoted operands

Where a condition is cut is told by its first comparison sign, wherever that stands; the quotes
around an operand are only looked at afterwards. So two quoted operands are compared as they are
written unless there is a sign in the left one. Then the condition is cut within that operand, and
its truth is told by that sign alone.

* `Condition.FirstSign` — the comparison sign that stands first in a text.
* `Condition.FirstSign.split?_eq` — a condition is cut there.
* `Condition.exists_unquoted` — what unquoting takes away.
* `Condition.quoted_law` — what a comparison of two quoted operands says.
* `Condition.exists_misread` — two equal operands with a sign in them, and a condition that calls
  them different.
-/

namespace EdgeInclude

/-! ## 1. Comparison signs -/

namespace Comparison

/-- The first character of a comparison sign. -/
def mark : Comparison → Char
  | eq => '='
  | ne => '!'

/-- A comparison as it is written. -/
def sign (op : Comparison) : Text := [op.mark, '=']

/-- What a comparison says of two texts. -/
def Relates (op : Comparison) (a b : Text) : Prop :=
  match op with
  | eq => a = b
  | ne => a ≠ b

theorem mark_injective {op other : Comparison} (h : op.mark = other.mark) : op = other := by
  cases op <;> cases other <;> first | rfl | cases h

end Comparison

namespace Condition

variable {s more a b raw : Text} {op other : Comparison} {i : Nat} {p q : Char}

/-- A comparison sign stands at a position, and none in front of it. -/
structure FirstSign (s : Text) (op : Comparison) (i : Nat) : Prop where
  stands : StandsAt op.sign s i
  least : ∀ j < i, ∀ other : Comparison, ¬ StandsAt other.sign s j

theorem FirstSign.end_le (h : FirstSign s op i) : i + 2 ≤ s.length :=
  h.stands.end_le (List.cons_ne_nil _ _)

theorem FirstSign.firstAt (h : FirstSign s op i) : FirstAt op.sign s 0 i :=
  ⟨Nat.zero_le i, h.stands, fun j _ hj => h.least j hj op⟩

/-- Every other sign is cut out further behind, if at all. -/
theorem FirstSign.cut_other (h : FirstSign s op i) (hne : other ≠ op) :
    splitFirst? other.sign s = none ∨
      ∃ before rest, splitFirst? other.sign s = some (before, rest) ∧ i < before.length := by
  rcases firstAt_or_nowhereFrom other.sign s 0 with ⟨k, hk⟩ | hn
  · have hend := hk.stands.end_le (List.cons_ne_nil _ _)
    have hcut := splitFirst?_drop_of_firstAt hk
    refine .inr ⟨_, _, hcut, ?_⟩
    have hik : i ≠ k := by
      rintro rfl
      -- one character cannot begin two signs
      obtain ⟨_, hown⟩ := h.stands
      obtain ⟨_, hother⟩ := hk.stands
      exact hne (Comparison.mark_injective (List.cons.inj (hother.trans hown.symm)).1)
    have hle : i ≤ k := Nat.le_of_not_lt fun hlt => h.least k hlt other hk.stands
    rw [List.drop_zero, List.length_take]
    omega
  · exact .inl (splitFirst?_eq_none hn)

/-- **A condition is cut at the sign that stands first.** -/
theorem FirstSign.split?_eq (h : FirstSign s op i) :
    split? s = some (s.take i, op, s.drop (i + 2)) := by
  have hcut : splitFirst? op.sign s = some (s.take i, s.drop (i + 2)) :=
    splitFirst?_drop_of_firstAt h.firstAt
  have hlen : (s.take i).length = i := by
    have := h.end_le
    rw [List.length_take]
    omega
  have heq : "==".toList = Comparison.eq.sign := rfl
  have hne : "!=".toList = Comparison.ne.sign := rfl
  unfold split?
  rw [heq, hne]
  cases op with
  | eq =>
    rw [hcut]
    rcases h.cut_other (show Comparison.ne ≠ .eq by decide) with hn | ⟨before, rest, hc, hlt⟩
    · rw [hn]
    · rw [hc]
      exact if_pos (by omega)
  | ne =>
    rw [hcut]
    rcases h.cut_other (show Comparison.eq ≠ .ne by decide) with hn | ⟨before, rest, hc, hlt⟩
    · rw [hn]
    · rw [hc]
      exact if_neg (by omega)

theorem FirstSign.unique {k : Nat} (h : FirstSign s op i) (h' : FirstSign s other k) :
    op = other := by
  have hsplit := h.split?_eq.symm.trans h'.split?_eq
  exact congrArg (·.2.1) (Option.some.inj hsplit)

theorem firstSign_or_none (s : Text) :
    (∃ op i, FirstSign s op i) ∨ ∀ op : Comparison, ¬ op.sign <:+: s := by
  classical
  by_cases h : ∃ j, ∃ op : Comparison, StandsAt op.sign s j
  · left
    obtain ⟨op, hop⟩ := Nat.find_spec h
    exact ⟨op, _, hop, fun j hj other hs => Nat.find_min h hj ⟨other, hs⟩⟩
  · right
    intro op
    exact nowhereFrom_zero_iff.1 fun j _ hs => h ⟨j, op, hs⟩

/-! ## 2. Operands -/

/-- Whether a character may go when an operand is unquoted. -/
def isWrapping (c : Char) : Bool := Text.isBlank c || Attribute.isQuote c

theorem isWrapping_of_isQuote (hq : Attribute.isQuote q = true) : isWrapping q = true := by
  rw [isWrapping, hq, Bool.or_true]

theorem isBlank_of_isQuote (hq : Attribute.isQuote q = true) : Text.isBlank q = false := by
  unfold Attribute.isQuote at hq
  rw [Bool.or_eq_true, beq_iff_eq, beq_iff_eq] at hq
  rcases hq with rfl | rfl <;> rfl

/-- Unquoting takes blanks and quotes away, at the ends. -/
theorem exists_unquoted (raw : Text) :
    ∃ l r, raw = l ++ unquoted raw ++ r ∧ ∀ c ∈ l ++ r, isWrapping c = true := by
  obtain ⟨l, r, hl, hr, hraw⟩ := Text.exists_trim raw
  have hblank : ∀ c ∈ l ++ r, isWrapping c = true := by
    intro c hc
    rw [isWrapping, Bool.or_eq_true]
    exact .inl ((List.mem_append.1 hc).elim (hl c) (hr c))
  have hquoted : ∀ {q : Char} {u : Text}, Attribute.isQuote q = true →
      Text.unquote? q (Text.trim raw) = some u →
      ∃ l r, raw = l ++ u ++ r ∧ ∀ c ∈ l ++ r, isWrapping c = true := by
    intro q u hq hu
    rw [Text.unquote?_eq_some_iff] at hu
    refine ⟨l ++ [q], q :: r, ?_, fun c hc => ?_⟩
    · rw [hu] at hraw
      rw [hraw]
      simp
    · have hc' : c ∈ l ++ r ∨ c = q := by
        simp only [List.mem_append, List.mem_cons, List.not_mem_nil] at hc ⊢
        tauto
      rcases hc' with hc | rfl
      · exact hblank c hc
      · rw [isWrapping, hq, Bool.or_true]
  unfold unquoted
  dsimp only
  split
  · rename_i u hu
    exact hquoted rfl hu
  · cases hu : Text.unquote? '\'' (Text.trim raw) with
    | some u => exact hquoted rfl hu
    | none => exact ⟨l, r, hraw, hblank⟩

theorem unquoted_isInfix (raw : Text) : unquoted raw <:+: raw := by
  obtain ⟨l, r, h, -⟩ := exists_unquoted raw
  exact ⟨l, r, h.symm⟩

/-- A mark of two that may not go stands within what it is wrapped in, if at all. -/
theorem pair_infix_wrapped_iff {c d : Char} {l r : Text} (hc : isWrapping c = false)
    (hd : isWrapping d = false) (hl : ∀ x ∈ l, isWrapping x = true)
    (hr : ∀ x ∈ r, isWrapping x = true) : [c, d] <:+: l ++ a ++ r ↔ [c, d] <:+: a := by
  have hcl : c ∉ l := fun h => by
    rw [hl c h] at hc
    cases hc
  have hdr : d ∉ r := fun h => by
    rw [hr d h] at hd
    cases hd
  constructor
  · intro h
    rcases pair_infix_append.1 h with h | h | ⟨-, h⟩
    · rcases pair_infix_append.1 h with h | h | ⟨h, -⟩
      · exact absurd (h.subset List.mem_cons_self) hcl
      · exact h
      · exact absurd (List.mem_of_getLast? h) hcl
    · exact absurd (h.subset (List.mem_cons_of_mem _ List.mem_cons_self)) hdr
    · exact absurd (List.mem_of_head? h) hdr
  · intro h
    exact h.trans (List.infix_append l a r)

theorem isWrapping_mark (op : Comparison) : isWrapping op.mark = false := by cases op <;> rfl

/-- A sign stays where it is when an operand is unquoted. -/
theorem sign_infix_unquoted (h : op.sign <:+: raw) : op.sign <:+: unquoted raw := by
  obtain ⟨l, r, hraw, hwrap⟩ := exists_unquoted raw
  rw [hraw] at h
  exact (pair_infix_wrapped_iff (isWrapping_mark op) rfl
    (fun c hc => hwrap c (List.mem_append_left _ hc))
    fun c hc => hwrap c (List.mem_append_right _ hc)).1 h

/-- An operand without placeholders stands for what is left of it without its quotes. -/
theorem operand_literal (h : ¬ Template.opening <:+: raw) :
    operand raw = .ok (.literal (unquoted raw)) := by
  have hno : ¬ Template.opening <:+: unquoted raw := fun hi => h (hi.trans (unquoted_isInfix raw))
  have hnot : occursIn Template.opening (unquoted raw) = false := by
    unfold occursIn
    rw [splitFirst?_eq_none (nowhereFrom_zero_iff.2 hno)]
    rfl
  unfold operand Value.compile
  rw [hnot]
  rfl

/-- What stands between quotes is left as it is. -/
theorem unquoted_quoted {l r : Text} (hq : Attribute.isQuote q = true) (hl : Text.AllBlank l)
    (hr : Text.AllBlank r) : unquoted (l ++ (q :: a ++ [q]) ++ r) = a := by
  have hends := isBlank_of_isQuote hq
  have htrimmed : Text.IsTrimmed (q :: a ++ [q]) := by
    refine ⟨hends, ?_⟩
    rw [List.getLast?_concat]
    exact hends
  unfold unquoted
  dsimp only
  rw [Text.trim_surrounded hl htrimmed hr]
  cases h : Text.unquote? '"' (q :: a ++ [q]) with
  | some u =>
    obtain ⟨rfl, htail⟩ := List.cons.inj (Text.unquote?_eq_some_iff.1 h)
    exact (List.append_cancel_right htail).symm
  | none =>
    -- then the quote is the other one
    have hne : q ≠ '"' := by
      rintro rfl
      rw [Text.unquote?_eq_some_iff.2 rfl] at h
      cases h
    unfold Attribute.isQuote at hq
    rw [Bool.or_eq_true, beq_iff_eq, beq_iff_eq, or_iff_right hne] at hq
    subst hq
    rw [Text.unquote?_eq_some_iff.2 rfl]
    rfl

/-! ## 3. Comparisons as they are written -/

/-- A left operand between quotes, up to the comparison sign. -/
def leftOperand (q : Char) (a : Text) : Text := [q] ++ a ++ [q, ' ']

/-- A right operand between quotes, behind the comparison sign. -/
def rightOperand (q : Char) (b : Text) : Text := [' ', q] ++ b ++ [q]

/-- A comparison of two quoted operands, as it is written. -/
def comparison (p : Char) (a : Text) (op : Comparison) (q : Char) (b : Text) : Text :=
  leftOperand p a ++ op.sign ++ rightOperand q b

theorem pair_infix_leftOperand_iff {c d : Char} (hp : Attribute.isQuote p = true)
    (hc : isWrapping c = false) (hd : isWrapping d = false) :
    [c, d] <:+: leftOperand p a ↔ [c, d] <:+: a := by
  have hw := isWrapping_of_isQuote hp
  have hspace : isWrapping ' ' = true := rfl
  exact pair_infix_wrapped_iff hc hd (by simp [hw]) (by simp [hw, hspace])

theorem pair_infix_rightOperand_iff {c d : Char} (hq : Attribute.isQuote q = true)
    (hc : isWrapping c = false) (hd : isWrapping d = false) :
    [c, d] <:+: rightOperand q b ↔ [c, d] <:+: b := by
  have hw := isWrapping_of_isQuote hq
  have hspace : isWrapping ' ' = true := rfl
  exact pair_infix_wrapped_iff hc hd (by simp [hw, hspace]) (by simp [hw])

theorem unquoted_leftOperand (hp : Attribute.isQuote p = true) :
    unquoted (leftOperand p a) = a := by
  have h := unquoted_quoted (a := a) (l := []) (r := [' ']) hp nofun (by decide)
  simpa [leftOperand] using h

theorem unquoted_rightOperand (hq : Attribute.isQuote q = true) :
    unquoted (rightOperand q b) = b := by
  have h := unquoted_quoted (a := b) (l := [' ']) (r := []) hq (by decide) nofun
  simpa [rightOperand] using h

/-- A comparison has a placeholder only if one of its operands has. -/
theorem no_opening_comparison (hp : Attribute.isQuote p = true) (hq : Attribute.isQuote q = true)
    (ha : ¬ Template.opening <:+: a) (hb : ¬ Template.opening <:+: b) (op : Comparison) :
    ¬ Template.opening <:+: comparison p a op q b := by
  have hsign : '\x7b' ∉ op.sign := by cases op <;> decide
  have hleft : ¬ Template.opening <:+: leftOperand p a :=
    mt (pair_infix_leftOperand_iff hp rfl rfl).1 ha
  have hright : ¬ Template.opening <:+: rightOperand q b :=
    mt (pair_infix_rightOperand_iff hq rfl rfl).1 hb
  refine not_pair_infix_append (not_pair_infix_append hleft (not_pair_infix_of_not_mem hsign) ?_)
    hright ?_
  · exact fun _ h => hsign (List.mem_of_head? h)
  · have hlast : (leftOperand p a ++ op.sign).getLast? = op.sign.getLast? :=
      List.getLast?_append_of_ne_nil _ (List.cons_ne_nil _ _)
    rw [hlast]
    exact fun h => absurd (List.mem_of_getLast? h) hsign

theorem trim_comparison (hp : Attribute.isQuote p = true) (hq : Attribute.isQuote q = true) :
    Text.trim (comparison p a op q b) = comparison p a op q b := by
  refine Text.trim_eq_self ⟨isBlank_of_isQuote hp, ?_⟩
  have hlast : (comparison p a op q b).getLast? = some q := by
    have hcut : comparison p a op q b = leftOperand p a ++ op.sign ++ ([' ', q] ++ b) ++ [q] := by
      simp [comparison, rightOperand]
    rw [hcut, List.getLast?_concat]
  rw [hlast]
  exact isBlank_of_isQuote hq

/-- Without a sign in the left operand, the sign between the operands stands first. -/
theorem firstSign_between (hp : Attribute.isQuote p = true)
    (ha : ∀ other : Comparison, ¬ other.sign <:+: a) (op : Comparison) (q : Char) (b : Text) :
    FirstSign (comparison p a op q b) op (leftOperand p a).length := by
  unfold comparison
  rw [List.append_assoc]
  refine ⟨⟨rightOperand q b, List.drop_left.symm⟩, fun j hj other hs => ?_⟩
  rcases standsAt_pair_append hs hj with hs | ⟨hlast, -⟩
  · have hin := hs.isInfix.trans (List.drop_suffix j _).isInfix
    exact ha other ((pair_infix_leftOperand_iff hp (isWrapping_mark other) rfl).1 hin)
  · have hblank : (leftOperand p a).getLast? = some ' ' := by
      have hcut : leftOperand p a = [p] ++ a ++ [p] ++ [' '] := by simp [leftOperand]
      rw [hcut, List.getLast?_concat]
    rw [hblank] at hlast
    cases other <;> cases hlast

/-- A sign in the left operand stands first, as there is none in the quote. -/
theorem FirstSign.comparison (h : FirstSign a other i) (hp : Attribute.isQuote p = true)
    (op : Comparison) (q : Char) (b : Text) :
    FirstSign (comparison p a op q b) other (i + 1) := by
  have hcut : Condition.comparison p a op q b =
      p :: (a ++ ([p, ' '] ++ op.sign ++ rightOperand q b)) := by
    simp [Condition.comparison, leftOperand]
  rw [hcut]
  refine ⟨h.stands.append, fun j hj sign hs => ?_⟩
  cases j with
  | zero =>
    obtain ⟨_, hs⟩ := hs
    have hmark : sign.mark = p := (List.cons.inj hs).1
    have hw := isWrapping_of_isQuote hp
    rw [← hmark, isWrapping_mark] at hw
    cases hw
  | succ j =>
    have hend := h.end_le
    have hs' : StandsAt sign.sign (a ++ ([p, ' '] ++ op.sign ++ rightOperand q b)) j := hs
    refine h.least j (by omega) sign (hs'.of_append ?_)
    show 2 ≤ _
    omega

theorem parse_of_firstSign {left right : Value} (ht : Text.trim s = s) (h : FirstSign s op i)
    (hl : operand (s.take i) = .ok left) (hr : operand (s.drop (i + 2)) = .ok right) :
    parse s = .ok ⟨s, left, some (op, right)⟩ := by
  have hne : s.isEmpty = false := by
    have := h.end_le
    rw [List.isEmpty_eq_false_iff, ← List.length_pos_iff]
    omega
  unfold parse
  dsimp only
  rw [ht, hne, h.split?_eq]
  dsimp only
  rw [hl, hr]
  rfl

theorem holds_literals (s a b : Text) (op : Comparison) (r : Request) :
    (Condition.mk s (.literal a) (some (op, .literal b))).holds r = true ↔ op.Relates a b := by
  cases op with
  | eq => exact beq_iff_eq
  | ne => exact bne_iff_ne

/-- Without a sign in the left operand, the two operands are compared as they are written. -/
theorem parse_comparison (hp : Attribute.isQuote p = true) (hq : Attribute.isQuote q = true)
    (hoa : ¬ Template.opening <:+: a) (hob : ¬ Template.opening <:+: b)
    (ha : ∀ other : Comparison, ¬ other.sign <:+: a) (op : Comparison) :
    parse (comparison p a op q b) =
      .ok ⟨comparison p a op q b, .literal a, some (op, .literal b)⟩ := by
  have hfirst := firstSign_between hp ha op q b
  have htake : (comparison p a op q b).take (leftOperand p a).length = leftOperand p a := by
    rw [comparison, List.append_assoc, List.take_left]
  have hdrop : (comparison p a op q b).drop ((leftOperand p a).length + 2) = rightOperand q b := by
    rw [comparison, ← List.drop_drop, List.append_assoc, List.drop_left]
    rfl
  refine parse_of_firstSign (trim_comparison hp hq) hfirst ?_ ?_
  · rw [htake, operand_literal (mt (pair_infix_leftOperand_iff hp rfl rfl).1 hoa),
      unquoted_leftOperand hp]
  · rw [hdrop, operand_literal (mt (pair_infix_rightOperand_iff hq rfl rfl).1 hob),
      unquoted_rightOperand hq]

/-- **With a sign in the left operand, the condition is cut within it**: on its two sides stand
texts of which only the right one has the sign between the operands. -/
theorem parse_comparison_of_firstSign (hp : Attribute.isQuote p = true)
    (hq : Attribute.isQuote q = true) (hoa : ¬ Template.opening <:+: a)
    (hob : ¬ Template.opening <:+: b) (h : FirstSign a other i) (op : Comparison) :
    ∃ x y, x ≠ y ∧ parse (comparison p a op q b) =
      .ok ⟨comparison p a op q b, .literal x, some (other, .literal y)⟩ := by
  have hfirst := h.comparison hp op q b
  have hplain := no_opening_comparison hp hq hoa hob op
  have hleft : ¬ op.sign <:+: (comparison p a op q b).take (i + 1) := by
    refine nowhereFrom_zero_iff.1 fun j _ hs => ?_
    have hlen := hs.end_le (List.cons_ne_nil _ _)
    rw [List.length_take] at hlen
    have hin : StandsAt op.sign (comparison p a op q b) j := by
      rw [← List.take_append_drop (i + 1) (comparison p a op q b)]
      exact hs.append
    have hsign : 0 < op.sign.length := Nat.zero_lt_two
    exact hfirst.least j (by omega) op hin
  have hright : op.sign <:+: (comparison p a op q b).drop (i + 1 + 2) := by
    have hend := h.end_le
    have hlen : i + 1 + 2 ≤ (leftOperand p a).length := by
      simp [leftOperand]
      omega
    rw [comparison, List.append_assoc, List.drop_append_of_le_length hlen]
    exact ⟨_, rightOperand q b, by rw [List.append_assoc]⟩
  refine ⟨unquoted ((comparison p a op q b).take (i + 1)),
    unquoted ((comparison p a op q b).drop (i + 1 + 2)), fun heq => ?_, ?_⟩
  · have hsign := sign_infix_unquoted hright
    rw [← heq] at hsign
    exact hleft (hsign.trans (unquoted_isInfix _))
  · exact parse_of_firstSign (trim_comparison hp hq) hfirst
      (operand_literal fun hi => hplain (hi.trans (List.take_prefix _ _).isInfix))
      (operand_literal fun hi => hplain (hi.trans (List.drop_suffix _ _).isInfix))

/-- **What a comparison of two quoted operands says**, for every request. It is always read. Without
a comparison sign in the left operand it compares the two operands as they are written. With one,
its truth is told by the sign that stands first there, whatever the operands are: it holds exactly
if that sign says that they differ. -/
theorem quoted_law (hp : Attribute.isQuote p = true) (hq : Attribute.isQuote q = true)
    (hoa : ¬ Template.opening <:+: a) (hob : ¬ Template.opening <:+: b) (op : Comparison) :
    ∃ c, parse (comparison p a op q b) = .ok c ∧
      ((∀ other : Comparison, ¬ other.sign <:+: a) →
        ∀ r, c.holds r = true ↔ op.Relates a b) ∧
      ∀ other i, FirstSign a other i → ∀ r, c.holds r = true ↔ other = .ne := by
  rcases firstSign_or_none a with ⟨other, i, hfirst⟩ | hnone
  · obtain ⟨x, y, hne, hparse⟩ := parse_comparison_of_firstSign hp hq hoa hob hfirst op
    refine ⟨_, hparse, fun hno => ?_, fun sign k hsign r => ?_⟩
    · exact absurd (hfirst.stands.isInfix.trans (List.drop_suffix i a).isInfix) (hno other)
    · obtain rfl := hfirst.unique hsign
      rw [holds_literals]
      cases other with
      | eq => exact ⟨fun h => absurd h hne, nofun⟩
      | ne => exact ⟨fun _ => rfl, fun _ => hne⟩
  · refine ⟨_, parse_comparison hp hq hoa hob hnone op, fun _ r => holds_literals _ a b op r,
      fun sign k hsign => ?_⟩
    exact absurd (hsign.stands.isInfix.trans (List.drop_suffix k a).isInfix) (hnone sign)

/-- Quotes, blanks and a lone exclamation mark in the left operand, and a sign in the right one. -/
theorem quoted_law_sample :
    comparison '"' " it's =!".toList .ne '\'' "a==b".toList = "\" it's =!\" != 'a==b'".toList ∧
    ∃ c, parse (comparison '"' " it's =!".toList .ne '\'' "a==b".toList) = .ok c ∧
      ∀ r, c.holds r = true := by
  have hno : ∀ other : Comparison, ¬ other.sign <:+: " it's =!".toList := by
    intro other
    cases other <;> decide +kernel
  have hquote : Attribute.isQuote '"' = true := by decide
  have hsingle : Attribute.isQuote '\'' = true := by decide
  have ha : ¬ Template.opening <:+: " it's =!".toList := by decide +kernel
  have hb : ¬ Template.opening <:+: "a==b".toList := by decide +kernel
  obtain ⟨c, hc, hplain, -⟩ := quoted_law hquote hsingle ha hb .ne
  have hne : Comparison.Relates .ne " it's =!".toList "a==b".toList := by
    unfold Comparison.Relates
    decide
  exact ⟨by decide, c, hc, fun r => (hplain hno r).2 hne⟩

/-- What is read where two operands with a sign in them are compared. -/
def misread : Condition :=
  ⟨"'a==b' == 'a==b'".toList, .literal "'a".toList, some (.eq, .literal "b' == 'a==b'".toList)⟩

/-- **Two operands are equal, and the comparison of them says that they are not**: there is a sign
in them. -/
theorem exists_misread : ∃ (a b : Text) (c : Condition),
    '\'' ∉ a ∧ '\'' ∉ b ∧ ¬ Template.opening <:+: a ∧ ¬ Template.opening <:+: b ∧ a = b ∧
    parse (comparison '\'' a .eq '\'' b) = .ok c ∧ ∀ r, c.holds r = false := by
  refine ⟨"a==b".toList, "a==b".toList, misread, by decide, by decide, by decide +kernel,
    by decide +kernel, rfl, by cbv, fun r => ?_⟩
  have hne : ¬ Comparison.Relates .eq "'a".toList "b' == 'a==b'".toList := by
    unfold Comparison.Relates
    decide
  exact Bool.eq_false_iff.2 (mt (holds_literals _ _ _ .eq r).1 hne)

end Condition

end EdgeInclude

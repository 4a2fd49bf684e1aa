import EdgeInclude.Page.Fingerprint
import EdgeInclude.Proofs.Http.Values
import Mathlib.Data.List.Basic
import Mathlib.Data.List.Induction

/-!
# What pages are told apart by

The byte string that tells pages apart strings its parts together, with nothing in them escaped: a
path may hold the byte that ends the method, and the name of a listed field may hold the marks that
stand around it. Its parts can be read off all the same. The names are those of one list, so that
zero bytes are counted from the end: behind the one that begins a field there are as many in each
key, for values have none. What is left in front is a method, which has none, and a path.

* `Text.utf8_injective`, `Text.zero_mem_utf8_iff` — texts as bytes.
* `eq_of_append_cons` — a mark that is told by the number of marks behind it.
* `Fingerprint.folded` — the values of a field in a key.
* `Fingerprint.append_variations_eq_iff` — the fields of a list, behind anything.
* `Fingerprint.key_tells_apart` — what two keys agree on when they are the same.
-/

namespace EdgeInclude

/-! ## 1. Texts as bytes -/

/-- Texts of the same bytes are the same. -/
theorem Text.utf8_injective : Function.Injective Text.utf8 := by
  intro s t h
  have hbytes : s.utf8Encode = t.utf8Encode := congrArg List.toByteArray h
  have hread := congrArg ByteArray.utf8Decode? hbytes
  rw [List.utf8Decode?_utf8Encode, List.utf8Decode?_utf8Encode] at hread
  simpa using hread

theorem zero_mem_utf8EncodeChar_iff {c : Char} :
    0 ∈ String.utf8EncodeChar c ↔ c = '\x00' := by
  constructor
  · intro h
    have hbyte : ∀ n, (0 : UInt8) = UInt8.ofNat n ↔ n % 256 = 0 := by
      intro n
      rw [← UInt8.toNat_inj, UInt8.toNat_ofNat', eq_comm]
      rfl
    have hzero : c.val.toNat = 0 := by
      unfold String.utf8EncodeChar at h
      dsimp only at h
      -- all bytes of a character beyond the first 128 are large
      split at h
      · simp only [List.mem_singleton, hbyte] at h
        omega
      · split at h
        · simp only [List.mem_cons, List.not_mem_nil, or_false, hbyte] at h
          omega
        · split at h <;> simp only [List.mem_cons, List.not_mem_nil, or_false, hbyte] at h <;> omega
    exact Char.ext (UInt32.toNat_inj.1 hzero)
  · rintro rfl
    decide

/-- The zero byte stands for the zero character, and for no part of another one. -/
theorem Text.zero_mem_utf8_iff {s : Text} : 0 ∈ Text.utf8 s ↔ '\x00' ∈ s := by
  unfold Text.utf8
  rw [List.mem_flatMap]
  constructor
  · rintro ⟨c, hc, h⟩
    exact zero_mem_utf8EncodeChar_iff.1 h ▸ hc
  · intro h
    exact ⟨_, h, zero_mem_utf8EncodeChar_iff.2 rfl⟩

/-! ## 2. A mark and what stands behind it -/

/-- **A mark is told by the number of marks behind it.** -/
theorem eq_of_append_cons {a : UInt8} {s s' t t' : Bytes} (h : s ++ a :: t = s' ++ a :: t')
    (hcount : t.count a = t'.count a) : s = s' ∧ t = t' := by
  -- were one front longer, it would hold the mark of the other one
  have hfront : ∀ {u v : Bytes} {more}, v.count a = u.count a → a :: v = more ++ a :: u →
      more = [] := by
    intro u v more hc he
    cases more with
    | nil => rfl
    | cons b more =>
      rw [List.cons_append] at he
      obtain ⟨rfl, hv⟩ := List.cons_eq_cons.1 he
      have hmore := congrArg (List.count a) hv
      rw [List.count_append, List.count_cons_self] at hmore
      omega
  rcases List.append_eq_append_iff.1 h with ⟨more, rfl, he⟩ | ⟨more, rfl, he⟩
  · obtain rfl := hfront hcount he
    exact ⟨(List.append_nil s).symm, (List.cons_eq_cons.1 he).2⟩
  · obtain rfl := hfront hcount.symm he
    exact ⟨List.append_nil s', (List.cons_eq_cons.1 he).2.symm⟩

/-! ## 3. Keys -/

/-- The fields of some names, in any letter case. -/
def Headers.only (h : Headers) (names : List Text) : Headers :=
  h.filterNames fun n => decide (n ∈ names.map Text.lower)

/-- Whether no value has a zero byte. -/
def Headers.IsZeroFree (h : Headers) : Prop := ∀ g ∈ h.groups, ∀ v ∈ g.2, 0 ∉ v

instance (h : Headers) : Decidable h.IsZeroFree :=
  inferInstanceAs (Decidable (∀ g ∈ h.groups, ∀ v ∈ g.2, 0 ∉ v))

theorem Headers.IsZeroFree.getAll {h : Headers} (hz : h.IsZeroFree) (name : Text) :
    ∀ v ∈ h.getAll name, 0 ∉ v := by
  obtain ⟨groups⟩ := h
  unfold Headers.getAll
  unfold Headers.IsZeroFree at hz
  dsimp only at hz ⊢
  induction groups with
  | nil => exact nofun
  | cons g rest ih =>
    unfold Headers.valuesOf
    split
    · exact hz g List.mem_cons_self
    · exact ih fun g hg => hz g (List.mem_cons_of_mem _ hg)

namespace Fingerprint

variable {h h' : Headers} {varyBy : List Text} {name m m' p p' : Text} {front front' : Bytes}

/-- The values of a field in a key: each with a comma behind it. -/
def folded (h : Headers) (name : Text) : Bytes := (h.getAll name).flatMap fun v => v ++ [0x2C]

theorem variation_eq (h : Headers) (name : Text) :
    variation h name = 0 :: (Text.utf8 (Text.lower name) ++ 0x3D :: folded h name) := rfl

theorem count_folded (hz : h.IsZeroFree) (name : Text) : (folded h name).count 0 = 0 := by
  rw [List.count_eq_zero]
  unfold folded
  rw [List.mem_flatMap]
  rintro ⟨v, hv, hmem⟩
  rcases List.mem_append.1 hmem with hmem | hmem
  · exact hz.getAll name v hv hmem
  · exact absurd (List.mem_singleton.1 hmem) (by decide)

/-- **The fields of a list can be read off a key from its end**, whatever stands in front. -/
theorem append_variations_eq_iff (hz : h.IsZeroFree) (hz' : h'.IsZeroFree) :
    front ++ varyBy.flatMap (variation h) = front' ++ varyBy.flatMap (variation h') ↔
      front = front' ∧ ∀ name ∈ varyBy, folded h name = folded h' name := by
  induction varyBy using List.reverseRecOn with
  | nil => simp
  | append_singleton init last ih =>
    have hflat : ∀ h : Headers, (init ++ [last]).flatMap (variation h) =
        init.flatMap (variation h) ++ 0 :: (Text.utf8 (Text.lower last) ++ 0x3D :: folded h last) :=
      fun h => by rw [List.flatMap_append, List.flatMap_singleton, variation_eq]
    rw [hflat, hflat, ← List.append_assoc, ← List.append_assoc]
    constructor
    · intro he
      obtain ⟨hinit, hlast⟩ := eq_of_append_cons he (by
        rw [List.count_append, List.count_append, List.count_cons, List.count_cons,
          count_folded hz, count_folded hz'])
      obtain ⟨hfront, hnames⟩ := ih.1 hinit
      refine ⟨hfront, fun name hname => ?_⟩
      rcases List.mem_append.1 hname with hname | hname
      · exact hnames name hname
      · rw [List.mem_singleton.1 hname]
        exact (List.cons_eq_cons.1 (List.append_cancel_left hlast)).2
    · rintro ⟨hfront, hnames⟩
      have hinit := ih.2 ⟨hfront, fun name hname => hnames name (List.mem_append_left _ hname)⟩
      rw [hinit, hnames last (List.mem_append_right _ (List.mem_singleton_self last))]

/-- A method ends at the first zero byte. -/
theorem method_path_eq_iff (hm : '\x00' ∉ m) (hm' : '\x00' ∉ m') :
    Text.utf8 m ++ 0 :: Text.utf8 p = Text.utf8 m' ++ 0 :: Text.utf8 p' ↔ m = m' ∧ p = p' := by
  constructor
  · intro he
    have hnone : ∀ {m : Text}, '\x00' ∉ m → (Text.utf8 m).count 0 = 0 :=
      fun hm => List.count_eq_zero.2 (mt Text.zero_mem_utf8_iff.1 hm)
    have hcount := congrArg (List.count 0) he
    rw [List.count_append, List.count_append, List.count_cons_self, List.count_cons_self,
      hnone hm, hnone hm'] at hcount
    obtain ⟨hmethod, hpath⟩ := eq_of_append_cons he (by omega)
    exact ⟨Text.utf8_injective hmethod, Text.utf8_injective hpath⟩
  · rintro ⟨rfl, rfl⟩
    rfl

/-- Only the listed fields are in a key, in whatever letter case they are listed. -/
theorem key_only (m p : Text) (h : Headers) (varyBy : List Text) :
    key m p (h.only varyBy) (varyBy.map Text.lower) = key m p h varyBy := by
  unfold key
  rw [List.flatMap_map]
  congr 1
  refine List.flatMap_congr fun name hname => ?_
  have hlisted : Text.lower name ∈ varyBy.map Text.lower := List.mem_map_of_mem hname
  have hall : (h.only varyBy).getAll (Text.lower name) = h.getAll name := by
    unfold Headers.only
    rw [Headers.getAll_filterNames, Text.lower_lower, decide_eq_true hlisted, if_pos rfl]
    unfold Headers.getAll
    rw [Text.lower_lower]
  rw [variation_eq, variation_eq, folded, folded, hall, Text.lower_lower]

/-- **Keys tell pages apart.** For every list of fields that pages vary by, two requests have the
same key exactly if they agree on method, on path and query, and on the values of each listed field,
taken with their commas. (A method is a token, and so it has no zero character; of paths and names
nothing is asked.) A key is that of the listed fields alone, and does not depend on the letter case
in which they are listed. -/
theorem key_tells_apart (varyBy : List Text) :
    (∀ m m' p p' h h', '\x00' ∉ m → '\x00' ∉ m' →
      Headers.IsZeroFree h → Headers.IsZeroFree h' →
      (key m p h varyBy = key m' p' h' varyBy ↔
        m = m' ∧ p = p' ∧ ∀ name ∈ varyBy, folded h name = folded h' name)) ∧
    ∀ m p h, key m p (Headers.only h varyBy) (varyBy.map Text.lower) = key m p h varyBy := by
  refine ⟨fun m m' p p' h h' hm hm' hz hz' => ?_, fun m p h => key_only m p h varyBy⟩
  unfold key
  rw [append_variations_eq_iff hz hz', method_path_eq_iff hm hm', and_assoc]

/-- A request for a page in some languages. -/
def inLanguages (values : List String) : Headers :=
  .ofList (values.map fun v => ("Accept-Language".toList, Text.utf8 v.toList))

/-- Two languages and the list of both in one value are the same page; one of them alone is another
one. What a client calls itself is of no matter. -/
theorem key_tells_languages_apart :
    key Request.get ['/'] (inLanguages ["de", "en"]) ["accept-LANGUAGE".toList] =
        key Request.get ['/'] (inLanguages ["de,en"]) ["accept-LANGUAGE".toList] ∧
      key Request.get ['/'] (inLanguages ["de", "en"]) ["accept-LANGUAGE".toList] ≠
        key Request.get ['/'] (inLanguages ["de"]) ["accept-LANGUAGE".toList] ∧
      key Request.get ['/'] ((inLanguages ["de"]).append "User-Agent".toList [0x61])
          ["accept-LANGUAGE".toList] =
        key Request.get ['/'] (inLanguages ["de"]) ["accept-language".toList] := by
  obtain ⟨happart, honly⟩ := key_tells_apart ["accept-LANGUAGE".toList]
  have hget : '\x00' ∉ Request.get := by decide
  have hsame := fun h h' => happart Request.get Request.get ['/'] ['/'] h h' hget hget
  refine ⟨(hsame _ _ (by decide) (by decide)).2 ⟨rfl, rfl, by decide⟩, ?_, ?_⟩
  · intro he
    obtain ⟨-, -, hfolded⟩ := (hsame _ _ (by decide) (by decide)).1 he
    exact absurd (hfolded _ List.mem_cons_self) (by decide)
  · rw [← honly]
    rfl

end Fingerprint

end EdgeInclude

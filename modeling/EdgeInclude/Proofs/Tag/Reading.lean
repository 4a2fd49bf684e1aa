import EdgeInclude.Tag.Include

/-!
# What an attribute does to its tag

Each attribute of a known name sets one part of its tag, from its value alone; an attribute of
another name sets nothing. Values that cannot be read are the only faults.

* `Include.Sets` — what a tag is once an attribute has taken effect.
* `Attribute.Breaks` — the values that cannot be read, by the name of their attribute.
* `Include.sets_of_set`, `Include.set_eq_error_iff` — an attribute takes effect unless it breaks.
* `Include.raw_read`, `Page.raws_ofTags` — reading the attributes of tags leaves them where they
  stand.
-/

namespace EdgeInclude

/-! ## 1. Attributes that cannot be read -/

namespace Attribute

/-- The names of the attributes that set something. -/
def settings : List Text :=
  ["src", "key", "condition", "timeout", "ttl", "forwardheaders", "returnheaders"].map String.toList

/-- The value of an attribute cannot be read as what its name says. -/
inductive Breaks (a : Attribute) : ParseFault → Prop where
  | template {f : ParseFault} (name : a.name = "src".toList ∨ a.name = "key".toList)
      (fault : Value.compile a.value = .error f) : Breaks a f
  | condition {f : ParseFault} (name : a.name = "condition".toList)
      (fault : Condition.parse a.value = .error f) : Breaks a f
  | duration (name : a.name = "timeout".toList ∨ a.name = "ttl".toList)
      (fault : Duration.read? a.value = none) : Breaks a (.duration a.value)

end Attribute

namespace Include

variable {i i' : Include} {a : Attribute} {f : ParseFault}

theorem error_of_map {α β : Type} {x : Except ParseFault α} {g : α → β} (h : x.map g = .error f) :
    x = .error f := by
  cases x with
  | error e => exact congrArg Except.error (Except.error.inj h)
  | ok a => cases h

theorem exists_of_map {α β : Type} {x : Except ParseFault α} {g : α → β} {b : β}
    (h : x.map g = .ok b) : ∃ a, x = .ok a ∧ g a = b := by
  cases x with
  | error e => cases h
  | ok a => exact ⟨a, rfl, Except.ok.inj h⟩

theorem duration_eq_error_iff {t : Text} :
    duration t = .error f ↔ Duration.read? t = none ∧ f = .duration t := by
  unfold duration
  split
  · rename_i hd
    exact ⟨nofun, fun ⟨hn, _⟩ => nomatch hd.symm.trans hn⟩
  · rename_i hn
    exact ⟨fun h => ⟨hn, (Except.error.inj h).symm⟩, fun ⟨_, hf⟩ => hf ▸ rfl⟩

/-- **An attribute is a fault of its tag if and only if its value cannot be read.** -/
theorem set_eq_error_iff : i.set a = .error f ↔ a.Breaks f := by
  constructor
  · intro h
    unfold set at h
    split at h
    · rename_i hname
      exact .template (.inl (beq_iff_eq.1 hname)) (error_of_map (error_of_map h))
    split at h
    · rename_i hname
      exact .template (.inr (beq_iff_eq.1 hname)) (error_of_map h)
    split at h
    · rename_i hname
      exact .condition (beq_iff_eq.1 hname) (error_of_map h)
    split at h
    · rename_i hname
      obtain ⟨hread, rfl⟩ := duration_eq_error_iff.1 (error_of_map h)
      exact .duration (.inl (beq_iff_eq.1 hname)) hread
    split at h
    · rename_i hname
      obtain ⟨hread, rfl⟩ := duration_eq_error_iff.1 (error_of_map h)
      exact .duration (.inr (beq_iff_eq.1 hname)) hread
    split at h
    · cases h
    split at h <;> cases h
  · rintro (⟨hname | hname, hf⟩ | ⟨hname, hf⟩ | ⟨hname | hname, hf⟩) <;>
      simp [set, Source.compile, duration, Except.map, hname, hf]

/-! ## 2. Attributes that take effect -/

/-- What a tag is once an attribute has taken effect. -/
inductive Sets (i : Include) (a : Attribute) : Include → Prop where
  | source {s : Source} (name : a.name = "src".toList)
      (read : Source.compile i.sources.length a.value = .ok s) :
      Sets i a { i with sources := i.sources ++ [s] }
  | key {v : Value} (name : a.name = "key".toList) (read : Value.compile a.value = .ok v) :
      Sets i a { i with key := some v }
  | condition {c : Condition} (name : a.name = "condition".toList)
      (read : Condition.parse a.value = .ok c) : Sets i a { i with condition := some c }
  | timeout {d : Duration} (name : a.name = "timeout".toList) (read : duration a.value = .ok d) :
      Sets i a { i with timeout := d }
  | lifetime {d : Duration} (name : a.name = "ttl".toList) (read : duration a.value = .ok d) :
      Sets i a { i with lifetime := d }
  | forwarded (name : a.name = "forwardheaders".toList) :
      Sets i a { i with forwarded := HeaderPolicy.read a.value }
  | returned (name : a.name = "returnheaders".toList) :
      Sets i a { i with returned := HeaderPolicy.read a.value }
  | nothing (name : a.name ∉ Attribute.settings) : Sets i a i

theorem sets_of_set (h : i.set a = .ok i') : i.Sets a i' := by
  unfold set at h
  split at h
  · rename_i hname
    obtain ⟨s, hs, rfl⟩ := exists_of_map h
    exact .source (beq_iff_eq.1 hname) hs
  split at h
  · rename_i hname
    obtain ⟨v, hv, rfl⟩ := exists_of_map h
    exact .key (beq_iff_eq.1 hname) hv
  split at h
  · rename_i hname
    obtain ⟨c, hc, rfl⟩ := exists_of_map h
    exact .condition (beq_iff_eq.1 hname) hc
  split at h
  · rename_i hname
    obtain ⟨d, hd, rfl⟩ := exists_of_map h
    exact .timeout (beq_iff_eq.1 hname) hd
  split at h
  · rename_i hname
    obtain ⟨d, hd, rfl⟩ := exists_of_map h
    exact .lifetime (beq_iff_eq.1 hname) hd
  split at h
  · rename_i hname
    cases h
    exact .forwarded (beq_iff_eq.1 hname)
  split at h
  · rename_i hname
    cases h
    exact .returned (beq_iff_eq.1 hname)
  · cases h
    refine .nothing ?_
    simp_all [Attribute.settings]

theorem setAll_of_ok (h : i.set a = .ok i') (rest : List Attribute) :
    i.setAll (a :: rest) = i'.setAll rest := by
  rw [Include.setAll, h]

theorem setAll_of_error (h : i.set a = .error f) (rest : List Attribute) :
    i.setAll (a :: rest) = (i, some f) := by
  rw [Include.setAll, h]

/-! ## 3. Where tags stand -/

theorem raw_set {a : Attribute} (h : i.set a = .ok i') : i'.raw = i.raw := by
  cases sets_of_set h <;> rfl

theorem raw_setAll (i : Include) (as : List Attribute) : (i.setAll as).1.raw = i.raw := by
  induction as generalizing i with
  | nil => rfl
  | cons a rest ih =>
    unfold setAll
    split
    · rename_i i' hs
      exact (ih i').trans (raw_set hs)
    · rfl

theorem raw_withFallback (i : Include) (as : List Attribute) : (i.withFallback as).raw = i.raw := by
  unfold withFallback
  split <;> rfl

theorem raw_readFields (i : Include) : i.readFields.1.raw = i.raw := by
  unfold readFields
  split
  · rfl
  · dsimp only
    split
    · rfl
    · split
      · exact raw_withFallback ..
      · exact (raw_setAll ..).trans (raw_withFallback ..)

theorem raw_read (i : Include) : i.read.1.raw = i.raw := by
  have h := raw_readFields i
  unfold read
  split
  · rename_i hr
    rw [hr] at h
    exact h
  · rename_i hr
    rw [hr] at h
    exact h

end Include

/-- Reading the attributes of tags leaves them where they stand. -/
theorem Page.raws_ofTags (tags : List RawTag) : (Page.ofTags tags).raws = tags := by
  unfold ofTags raws
  rw [List.map_map]
  refine (List.map_congr_left fun t _ => ?_).trans (List.map_id tags)
  exact Include.raw_read (.ofRaw t)

end EdgeInclude

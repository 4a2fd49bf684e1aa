import EdgeInclude.Proofs.Resolver.Turns
import EdgeInclude.Proofs.Template.Compile

/-!
# Requests do not choose backends

Whether a source is an address is told by the text that the page writes; which backend serves an
address is told by its scheme, after the placeholders have got their values from the request. The
request has no say in either, as long as the scheme is written in front of the first placeholder.

* `Template.lead` — what a text writes in front of its first placeholder; `Source.exists_render` —
  every value begins with it.
* `Registry.find_of_lead` — the scheme in it decides on the backend.
* `Registry.Configures` — the backends of a configuration; `Registry.program_of_find` — where
  programs may not be run by address, they are run by name.
* `Include.Built.compiled` — the sources of a tag are compiled from what the tag writes.
* `Source.routed_as_written` — requests do not choose backends.
-/

namespace EdgeInclude

/-! ## 1. What a value begins with -/

namespace Template

variable {source s : Text} {parts : List Part}

/-- What a text writes in front of its first placeholder. -/
def lead (raw : Text) : Text :=
  match splitFirst? opening raw with
  | some (before, _) => before
  | none => raw

theorem exists_eq_lead (raw : Text) : ∃ rest, raw = lead raw ++ rest := by
  unfold lead
  split
  · rename_i before after hs
    exact ⟨opening ++ after, by rw [splitFirst?_eq_append hs, List.append_assoc]⟩
  · exact ⟨[], (List.append_nil _).symm⟩

theorem flatMap_compileFrom (h : compileFrom source s = .ok parts) :
    ∃ more : List Part, ∀ r empty,
    parts.flatMap (Part.render r empty) = lead s ++ more.flatMap (Part.render r empty) := by
  rw [compileFrom] at h
  unfold lead
  split at h
  · rename_i hs
    cases h
    rw [hs]
    refine ⟨[], fun r empty => ?_⟩
    rw [flatMap_literalParts, List.flatMap_nil, List.append_nil]
  · rename_i before after hs
    rw [hs]
    split at h
    · cases h
    · rename_i inner rest _
      split at h
      · cases h
      · cases hrest : compileFrom source rest with
        | error f =>
          rw [hrest] at h
          cases h
        | ok more =>
          rw [hrest] at h
          cases h
          refine ⟨.placeholder (token inner) :: more, fun r empty => ?_⟩
          rw [List.flatMap_append, flatMap_literalParts]

end Template

namespace Source

variable {i index : Nat} {raw : Text} {s : Source}

theorem isUrl_of_compile (h : compile index raw = .ok s) : s.isUrl = occursIn schemeMark raw := by
  unfold compile at h
  cases hv : Value.compile raw with
  | error f =>
    rw [hv] at h
    cases h
  | ok v =>
    rw [hv] at h
    cases h
    rfl

/-- A scheme in front of the first placeholder makes an address. -/
theorem isUrl_of_lead (h : compile index raw = .ok s)
    (hm : occursIn schemeMark (Template.lead raw) = true) : s.isUrl = true := by
  obtain ⟨rest, hraw⟩ := Template.exists_eq_lead raw
  obtain ⟨scheme, hscheme⟩ := exists_splitFirst?_append (by decide) hm
  obtain ⟨after, hafter⟩ := hscheme rest
  rw [isUrl_of_compile h, hraw]
  unfold occursIn
  rw [hafter]
  rfl

/-- **Every value begins with what stands in front of the first placeholder.** -/
theorem exists_render (h : compile index raw = .ok s) (r : Request) (empty : Text) :
    ∃ rest, s.value.render r empty = Template.lead raw ++ rest := by
  unfold compile Value.compile at h
  split at h
  · unfold Template.compile at h
    cases hp : Template.compileFrom raw raw with
    | error f =>
      rw [hp] at h
      cases h
    | ok parts =>
      rw [hp] at h
      cases h
      obtain ⟨more, hmore⟩ := Template.flatMap_compileFrom hp
      exact ⟨_, hmore r empty⟩
  · rename_i hopen
    cases h
    refine ⟨[], ?_⟩
    unfold occursIn at hopen
    rw [Option.not_isSome_iff_eq_none] at hopen
    unfold Template.lead
    rw [hopen, List.append_nil]
    rfl

end Source

/-! ## 2. Schemes -/

namespace Registry

variable {g g' : Registry} {scheme rest rest' url url' raw name value : Text} {index id : Nat}
  {s : Source} {b : Backend} {resources : List (Text × Text)} {isUrl : Bool}

/-- Addresses with the same scheme have the same backend. -/
theorem dispatch_congr (g : Registry) (h : splitFirst? schemeSeparator url = some (scheme, rest))
    (h' : splitFirst? schemeSeparator url' = some (scheme, rest')) :
    (g.dispatch url).toOption = (g.dispatch url').toOption := by
  unfold dispatch splitScheme
  rw [h, h']
  cases hs : scheme.isEmpty with
  | true => simp [hs, bind, Except.bind, Except.toOption]
  | false => simp [hs, bind, Except.bind]

/-- **The scheme in front of the first placeholder decides on the backend.** -/
theorem find_of_lead (g : Registry) (h : Source.compile index raw = .ok s)
    (hm : occursIn Source.schemeMark (Template.lead raw) = true) (r r' : Request) :
    (g.find (s.value.render r []) s.isUrl).toOption =
      (g.find (s.value.render r' []) s.isUrl).toOption := by
  obtain ⟨scheme, hscheme⟩ := exists_splitFirst?_append (by decide) hm
  obtain ⟨tail, htail⟩ := Source.exists_render h r []
  obtain ⟨tail', htail'⟩ := Source.exists_render h r' []
  obtain ⟨rest, hrest⟩ := hscheme tail
  obtain ⟨rest', hrest'⟩ := hscheme tail'
  rw [htail, htail', Source.isUrl_of_lead h hm]
  exact g.dispatch_congr hrest hrest'

/-! ## 3. Configured backends -/

/-- A configuration has a backend under a name: it gives an address of options to the name, and
they describe the backend. -/
def Configures (resources : List (Text × Text)) (name : Text) (b : Backend) : Prop :=
  ∃ id url o, (name, url) ∈ resources ∧ Options.read url = .ok o ∧ Backend.ofOptions id o = .ok b

theorem look_put (table : List (Text × Backend)) (name name' : Text) (b : Backend) :
    look (put table name b) name' = if name = name' then some b else look table name' := by
  unfold look put
  rw [find?_cons_filter]
  split <;> rfl

/-- A configured backend is put under its name, and leaves the schemes alone. -/
theorem withResource_eq (h : g.withResource id name url = .ok g') :
    ∃ o b, Options.read url = .ok o ∧ Backend.ofOptions id o = .ok b ∧ g' = g.withAlias name b := by
  unfold withResource at h
  cases ho : Options.read url with
  | error e =>
    rw [ho] at h
    cases h
  | ok o =>
    rw [ho] at h
    cases hb : Backend.ofOptions id o with
    | error e =>
      simp only [bind, Except.bind, hb] at h
      cases h
    | ok b =>
      simp only [bind, Except.bind, hb] at h
      cases h
      exact ⟨o, b, rfl, hb, rfl⟩

/-- **What is found under a name was there before or has been configured.** -/
theorem configures_of_withResources (h : g.withResources id resources = .ok g') :
    g'.schemes = g.schemes ∧ ∀ name b, look g'.aliases name = some b →
      look g.aliases name = some b ∨ Configures resources name b := by
  induction resources generalizing g id with
  | nil =>
    cases h
    exact ⟨rfl, fun _ _ hb => .inl hb⟩
  | cons first rest ih =>
    obtain ⟨name, url⟩ := first
    unfold withResources at h
    cases hr : g.withResource id name url with
    | error e =>
      rw [hr] at h
      cases h
    | ok g₁ =>
      rw [hr] at h
      obtain ⟨o, b, ho, hb, rfl⟩ := withResource_eq hr
      obtain ⟨hschemes, hnames⟩ := ih h
      refine ⟨hschemes, fun name' b' hlook => ?_⟩
      rcases hnames name' b' hlook with hold | ⟨id', url', o', hmem, ho', hb'⟩
      · change look (put g.aliases name b) name' = some b' at hold
        rw [look_put] at hold
        split at hold
        · rename_i hname
          cases hold
          exact .inr ⟨id, url, o, hname ▸ List.mem_cons_self, ho, hb⟩
        · exact .inl hold
      · exact .inr ⟨id', url', o', List.mem_cons_of_mem _ hmem, ho', hb'⟩

/-- **Where programs may not be run by address, they are run by name only.** -/
theorem program_of_find {p : Option Text} (hg : ofResources false resources = .ok g)
    (h : g.find value isUrl = .ok (.program p)) :
    isUrl = false ∧ Configures resources value (.program p) := by
  have hbuilt : standard.withResources 0 resources = .ok g := hg
  obtain ⟨hschemes, hnames⟩ := configures_of_withResources hbuilt
  unfold find at h
  split at h
  · -- the schemes of the web are all that there are
    have hweb : g.schemes.map (·.2) = [.web none, .web none] := by
      rw [hschemes]
      rfl
    have hmem := mem_of_dispatch h
    rw [hweb] at hmem
    simp at hmem
  · rename_i hurl
    refine ⟨Bool.eq_false_iff.2 hurl, ?_⟩
    unfold byName at h
    split at h
    · rename_i b hlook
      cases h
      exact (hnames value _ hlook).resolve_left nofun
    · cases h

end Registry

/-! ## 4. Requests do not choose backends -/

theorem Source.source_of_compile {index : Nat} {raw : Text} {s : Source}
    (h : compile index raw = .ok s) : s.value.source = raw := by
  unfold compile Value.compile Template.compile at h
  split at h
  · cases hp : Template.compileFrom raw raw with
    | error f =>
      rw [hp] at h
      cases h
    | ok parts =>
      rw [hp] at h
      cases h
      rfl
  · cases h
    rfl

/-- **The sources of a tag are compiled from what the tag writes.** -/
theorem Include.Built.compiled {i : Include} (h : i.Built) :
    ∀ s ∈ i.sources, Source.compile s.index s.value.source = .ok s := by
  let P : List Source → Prop :=
    fun ss => ∀ s ∈ ss, Source.compile s.index s.value.source = .ok s
  have further : ∀ ss raw s, P ss → Source.compile ss.length raw = .ok s → P (ss ++ [s]) := by
    intro ss raw s hss hs t ht
    rcases List.mem_append.1 ht with ht | ht
    · exact hss t ht
    · obtain rfl := List.mem_singleton.1 ht
      rw [index_compile hs, Source.source_of_compile hs]
      exact hs
  exact h.sources further nofun

/-- The backend that is called for a source is the one that is found for its value. -/
theorem Resolver.Resolves.find_of_call {σ : Type} {v : Resolver} {o : Surroundings σ} {e : Errand}
    {env : World σ → World σ → Prop} {w w' : World σ} {stops : List (Stop σ)} {out : Outcome}
    {t : Stop σ} {b : Backend} {c : Call} (h : v.Resolves o e env w stops w' out)
    (ht : t ∈ stops) (hc : t.call = some (b, c)) :
    c.url = t.source.value.render e.request [] ∧ v.registry.find c.url t.source.isUrl = .ok b := by
  unfold Resolves at h
  split at h
  · obtain ⟨rfl, -⟩ := h
    cases ht
  · obtain ⟨time, time', turn⟩ := h.1.exists_turn ht
    obtain ⟨source, start, call, ending, final⟩ := t
    dsimp only at hc turn ⊢
    rw [hc] at turn
    cases turn with
    | fetched missed left admitted known answers wait => exact ⟨rfl, known⟩

/-- **Requests do not choose backends.** Let a source be compiled from any text. If the text has no
scheme mark, then its value is looked up among the names, whatever schemes there are. If the mark
stands in front of the first placeholder, then all requests have the same backend, or none. And
where programs may not be run by address, a program is only ever called for a source without a
scheme mark, whose value is a name that the configuration gives to this program. -/
theorem Source.routed_as_written {index : Nat} {raw : Text} {s : Source}
    (h : compile index raw = .ok s) (v : Resolver) :
    (occursIn schemeMark raw = false → ∀ r schemes,
      ({ v.registry with schemes := schemes } : Registry).find (s.value.render r []) s.isUrl =
        v.registry.byName (s.value.render r [])) ∧
    (occursIn schemeMark (Template.lead raw) = true → ∀ r r',
      (v.registry.find (s.value.render r []) s.isUrl).toOption =
        (v.registry.find (s.value.render r' []) s.isUrl).toOption) ∧
    ∀ {σ : Type} (o : Surroundings σ) e env w stops w' out t b c,
      v.Resolves o e env w stops w' out → t ∈ stops → t.source = s → t.call = some (b, c) →
      c.url = s.value.render e.request [] ∧ v.registry.find c.url s.isUrl = .ok b ∧
      ∀ resources p, Registry.ofResources false resources = .ok v.registry → b = .program p →
        occursIn schemeMark raw = false ∧ Registry.Configures resources c.url b := by
  refine ⟨fun hmark r schemes => ?_, fun hlead r r' => v.registry.find_of_lead h hlead r r', ?_⟩
  · rw [isUrl_of_compile h, hmark]
    rfl
  · rintro σ o e env w stops w' out t b c hr ht rfl hc
    obtain ⟨hurl, hfind⟩ := hr.find_of_call ht hc
    refine ⟨hurl, hfind, ?_⟩
    rintro resources p hg rfl
    obtain ⟨hname, hconf⟩ := Registry.program_of_find hg hfind
    exact ⟨isUrl_of_compile h ▸ hname, hconf⟩

namespace Source

/-- A request from a client that calls itself by an address. -/
def posing : Request := { Request.ofParts Request.get .root .empty with remote := "sh://x".toList }

/-- A source that is named by the client. -/
def clientNamed : Source :=
  ⟨0, .template ⟨"\x7b\x7bremote\x7d\x7d".toList, [.placeholder "remote".toList]⟩, false⟩

def webOnly : Resolver := ⟨.standard, ⟨2, 12, 1000⟩, 0, 0, 0⟩

/-- What renders to an address of a program is looked up as a name, and there is no such name. -/
theorem routed_as_written_sample :
    compile 0 "\x7b\x7bremote\x7d\x7d".toList = .ok clientNamed ∧
    clientNamed.value.render posing [] = "sh://x".toList ∧
    (webOnly.registry.withScheme "sh".toList (.program none)).find
      (clientNamed.value.render posing []) clientNamed.isUrl =
        webOnly.registry.byName "sh://x".toList := by
  have hs : compile 0 "\x7b\x7bremote\x7d\x7d".toList = .ok clientNamed := by
    decide +kernel
  have hvalue : clientNamed.value.render posing [] = "sh://x".toList := by decide +kernel
  refine ⟨hs, hvalue, ?_⟩
  have hroute := (routed_as_written hs webOnly).1 (by decide) posing
    (webOnly.registry.withScheme "sh".toList (.program none)).schemes
  rwa [hvalue] at hroute ⊢

end Source

end EdgeInclude

import EdgeInclude.Backend.Registry
import EdgeInclude.Backend.Web
import EdgeInclude.Proofs.Url.Join
import Mathlib.Control.Monad.Basic

/-!
# Where a configured web backend fetches from

A web backend that has been configured with an address joins the key of a call onto it. Keys are
rendered from requests, and so whoever asks for a page may have a say in what they are.

* `Options.url_of_read` — the address of options is the one that has been read.
* `Backend.isWeb_of_ofOptions` — a configured web backend has the address of a web server.
* `Web.target_eq_of_key` — the backend fetches from its own server, unless the key names another
  one; then the configured server has no part in it.
-/

namespace EdgeInclude

/-! ## 1. Options -/

namespace Options

variable {o o' : Options} {raw name v : Text}

theorem url_of_map {α : Type} {x : Except Failure α} {f : α → Options} (h : x.map f = .ok o')
    (hf : ∀ a, (f a).url = o.url ∧ (f a).scheme = o.scheme) :
    o'.url = o.url ∧ o'.scheme = o.scheme := by
  cases x with
  | error _ => cases h
  | ok a =>
    cases h
    exact hf a

/-- A parameter changes neither the address nor its scheme. -/
theorem url_set (h : o.set name v = .ok o') : o'.url = o.url ∧ o'.scheme = o.scheme := by
  unfold set at h
  split at h
  · exact url_of_map h fun _ => ⟨rfl, rfl⟩
  split at h
  · exact url_of_map h fun _ => ⟨rfl, rfl⟩
  split at h
  · exact url_of_map h fun _ => ⟨rfl, rfl⟩
  split at h
  · exact url_of_map h fun _ => ⟨rfl, rfl⟩
  split at h
  · exact url_of_map h fun _ => ⟨rfl, rfl⟩
  split at h
  · exact url_of_map h fun _ => ⟨rfl, rfl⟩
  split at h
  · cases h
    exact ⟨rfl, rfl⟩
  · cases h
    exact ⟨rfl, rfl⟩

theorem url_setAll (fields : List (Text × Text))
    (h : fields.foldlM (fun (o : Options) (name, v) => o.set name v) o = .ok o') :
    o'.url = o.url ∧ o'.scheme = o.scheme := by
  induction fields generalizing o with
  | nil =>
    cases h
    exact ⟨rfl, rfl⟩
  | cons field rest ih =>
    obtain ⟨name, v⟩ := field
    rw [List.foldlM_cons] at h
    dsimp only at h
    cases hs : o.set name v with
    | error e =>
      rw [hs] at h
      cases h
    | ok next =>
      rw [hs] at h
      obtain ⟨hurl, hscheme⟩ := ih h
      obtain ⟨hurl', hscheme'⟩ := url_set hs
      exact ⟨hurl.trans hurl', hscheme.trans hscheme'⟩

/-- **The address of options is the one that has been read.** -/
theorem url_of_read (h : read raw = .ok o) :
    Url.read raw = .ok o.url ∧ o.scheme = o.url.scheme := by
  unfold read at h
  cases hs : splitScheme raw with
  | error e =>
    rw [hs] at h
    cases h
  | ok parts =>
    rw [hs] at h
    cases hu : Url.read raw with
    | error e =>
      simp only [hu] at h
      cases h
    | ok u =>
      simp only [hu] at h
      obtain ⟨hurl, hscheme⟩ := url_setAll _ h
      exact ⟨congrArg Except.ok hurl.symm, hscheme.trans (congrArg Url.scheme hurl.symm)⟩

end Options

/-! ## 2. Backends -/

namespace Backend

variable {id : Nat} {raw : Text} {o : Options} {base : Option Url}

/-- A web backend is only made of options with a scheme of the web, and has their address. -/
theorem web_of_ofOptions (h : ofOptions id o = .ok (.web base)) :
    Url.IsWebScheme o.scheme ∧ base = some o.url := by
  unfold ofOptions at h
  dsimp only at h
  split at h
  · rename_i hs
    cases h
    simp only [Bool.or_eq_true, beq_iff_eq] at hs
    exact ⟨hs.imp String.ofList_inj.1 String.ofList_inj.1, rfl⟩
  split at h
  · cases h
  split at h
  · cases h
  split at h
  · cases h
  · cases h

/-- **A configured web backend has the address of a web server.** -/
theorem isWeb_of_ofOptions (ho : Options.read raw = .ok o)
    (hb : ofOptions id o = .ok (.web base)) : base = some o.url ∧ o.url.IsWeb := by
  obtain ⟨hread, hscheme⟩ := Options.url_of_read ho
  obtain ⟨hweb, hbase⟩ := web_of_ofOptions hb
  exact ⟨hbase, Url.isWeb_of_read hread (hscheme ▸ hweb)⟩

end Backend

/-! ## 3. What is fetched -/

namespace Web

variable {id : Nat} {raw : Text} {o : Options} {base : Option Url} {u u' : Url} {c : Call}

theorem target_of_join {v : Url} (h : u.join (c.key.getD []) = .ok v) :
    target (some u) c = .ok v.text := by
  unfold target
  dsimp only
  rw [h]

/-- Joined alike, the same is fetched. -/
theorem target_congr (h : u.join (c.key.getD []) = u'.join (c.key.getD [])) :
    (target (some u) c).toOption = (target (some u') c).toOption := by
  unfold target
  dsimp only
  rw [h]
  cases u'.join (c.key.getD []) with
  | error _ => rfl
  | ok _ => rfl

/-- **Where a configured web backend fetches from.** A call without a key, and every key that does
not name a server, is fetched from the configured server: with its scheme, its host, its port and
its user part, and a slash behind them. For a key that does name one, the configured server has no
part in what is fetched: it is the same for any other server with this scheme. -/
theorem target_eq_of_key (ho : Options.read raw = .ok o)
    (hb : Backend.ofOptions id o = .ok (.web base)) (c : Call) :
    (c.key = none → Url.namesServer o.url.scheme (c.key.getD []) = false) ∧
    (Url.namesServer o.url.scheme (c.key.getD []) = false →
      ∃ v a rest, target base c = .ok v.text ∧ o.url.join (c.key.getD []) = .ok v ∧
        v.sameOrigin o.url = true ∧ v.authority = some a ∧ o.url.authority = some a ∧
        v.text = o.url.scheme ++ ':' :: Url.authorityText a ++ '/' :: rest) ∧
    (Url.namesServer o.url.scheme (c.key.getD []) = true →
      ∀ u : Url, u.IsWeb → u.scheme = o.url.scheme →
        (target base c).toOption = (target (some u) c).toOption) := by
  obtain ⟨rfl, hweb⟩ := Backend.isWeb_of_ofOptions ho hb
  obtain ⟨a, ha⟩ := hweb.authority
  refine ⟨fun hc => ?_, fun hk => ?_, fun hk u hu hscheme => ?_⟩
  · rw [hc]
    rfl
  · obtain ⟨v, hv, hvweb, hvscheme, hva⟩ := hweb.join hk
    obtain ⟨rest, htext⟩ := hvweb.exists_text (hva.trans ha)
    exact ⟨v, a, rest, target_of_join hv, hv, Url.sameOrigin_of_authority hvscheme hva,
      hva.trans ha, ha, hvscheme ▸ htext⟩
  · exact target_congr (Url.join_eq_of_namesServer hweb hu hscheme.symm hk)

/-- The options of a web server, and a call that has nothing but a key. -/
def sampleOptions : Options :=
  .ofUrl "http://h/v1/".toList
    ⟨"http".toList, some ⟨[], none, some (.name ['h']), none⟩, .steps ["v1".toList, []], none, none⟩

@[inherit_doc sampleOptions]
def sampleCall (key : Text) : Call := ⟨[], some key, 0, 0, ⟨[]⟩, [], [], []⟩

/-- A key that climbs out of the configured path stays at the server. -/
theorem target_eq_of_key_sample :
    Options.read "http://h/v1/".toList = .ok sampleOptions ∧
    Backend.ofOptions 0 sampleOptions = .ok (.web (some sampleOptions.url)) ∧
    ∃ v : Url, target (some sampleOptions.url) (sampleCall "../../x".toList) = .ok v.text ∧
      v.sameOrigin sampleOptions.url = true := by
  have ho : Options.read "http://h/v1/".toList = .ok sampleOptions := by decide +kernel
  have hb : Backend.ofOptions 0 sampleOptions = .ok (.web (some sampleOptions.url)) := by
    decide +kernel
  obtain ⟨v, a, rest, htarget, -, horigin, -⟩ :=
    (target_eq_of_key ho hb (sampleCall "../../x".toList)).2.1 (by decide +kernel)
  exact ⟨ho, hb, v, htarget, horigin⟩

/-- **A key may name another server.** -/
theorem exists_elsewhere : ¬ ∀ raw o id base c t v, Options.read raw = .ok o →
    Backend.ofOptions id o = .ok (.web base) → target base c = .ok t → Url.read t = .ok v →
    v.sameOrigin o.url = true := by
  intro h
  have horigin := h "http://h/v1/".toList sampleOptions 0 (some sampleOptions.url)
    (sampleCall "http://127.0.0.1:1/x".toList) "http://127.0.0.1:1/x".toList
    ⟨"http".toList, some ⟨[], none, some (.four 2130706433), some 1⟩, .steps ["x".toList], none,
      none⟩ (by decide +kernel) (by decide +kernel) (by decide +kernel) (by decide +kernel)
  exact absurd horigin (by decide)

end Web

end EdgeInclude

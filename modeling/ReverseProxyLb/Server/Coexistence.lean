import ReverseProxyLb.Server.Reload

/-! The discoverers know their backends by record; a reload knows them by URL and takes every
backend for its own. They agree as long as a reload finds every discovered URL in both of its
files. -/
namespace ReverseProxyLb.Server
open Discovery Function Lib Routing

inductive Owner where
  | file
  | target (name : String)
  | endpoints
  deriving DecidableEq

namespace Live

/-- What each owner has in the balancer, if `S` came from the file. -/
def holdings (s : Live) (S : Set Backend) : Owner → Set Backend
  | .file => S
  | .target name => held (s.owned name)
  | .endpoints => held s.endpoints

/-- A DNS target resolved to the URL when it last resolved, or Kubernetes reported it last. -/
def Discovered (s : Live) (url : String) : Prop :=
  (∃ i < s.cfg.dns.length, url ∈ s.resolved i) ∨ url ∈ s.reported

def Wanted (s : Live) (url : String) : Prop := url ∈ urls s.cfg.backends ∨ s.Discovered url

/-- The backends `S` come from the file, and every owner's record agrees with what it was
last told. -/
structure Coexisting (s : Live) (S : Set Backend) : Prop where
  divided : Divided s.balancer.backends (s.holdings S)
  fresh : s.balancer.Fresh
  injOn : S.InjOn Backend.url
  loaded : ∀ url, (∃ b ∈ S, b.url = url) ↔ url ∈ urls s.cfg.backends
  names : (s.cfg.dns.map DNSTarget.name).Nodup
  named : ∀ name key, key ∈ s.owned name → name ∈ s.cfg.dns.map DNSTarget.name
  owned : ∀ name key b, (s.owned name).lookup key = some b → b.url = key
  resolved : ∀ i t, s.cfg.dns[i]? = some t → ∀ key, key ∈ s.owned t.name ↔ key ∈ s.resolved i
  endpoints : ∀ key b, s.endpoints.lookup key = some b → b.url = s.cfg.kubernetes.url key
  reported : ∀ url, url ∈ s.reported ↔ ∃ key ∈ s.endpoints, s.cfg.kubernetes.url key = url

end Live

variable {s s' : Live} {S : Set Backend} {url : String}

theorem exists_held_iff {o : Owned} {f : String → String}
    (h : ∀ key b, o.lookup key = some b → b.url = f key) :
    (∃ b ∈ held o, b.url = url) ↔ ∃ key ∈ o, f key = url := by
  constructor
  · rintro ⟨b, ⟨key, hb⟩, hurl⟩
    refine ⟨key, AList.lookup_isSome.mp ?_, ?_⟩
    · rw [hb]
      rfl
    · rw [← h key b hb, hurl]
  · rintro ⟨key, hkey, hurl⟩
    obtain ⟨b, hb⟩ := Option.isSome_iff_exists.mp (AList.lookup_isSome.mpr hkey)
    exact ⟨b, ⟨key, hb⟩, (h key b hb).trans hurl⟩

namespace Live.Coexisting

theorem target_iff (h : s.Coexisting S) :
    (∃ name, ∃ b ∈ held (s.owned name), b.url = url) ↔ ∃ i < s.cfg.dns.length, url ∈ s.resolved i := by
  have hname : ∀ name, (∃ b ∈ held (s.owned name), b.url = url) ↔ url ∈ s.owned name := by
    intro name
    rw [exists_held_iff (h.owned name)]
    exact exists_eq_right
  simp only [hname]
  constructor
  · rintro ⟨name, hurl⟩
    obtain ⟨t, ht, rfl⟩ := List.mem_map.mp (h.named name url hurl)
    obtain ⟨i, hi⟩ := List.mem_iff_getElem?.mp ht
    exact ⟨i, (List.getElem?_eq_some_iff.mp hi).1, (h.resolved i t hi url).mp hurl⟩
  · rintro ⟨i, hi, hurl⟩
    exact ⟨_, (h.resolved i _ (List.getElem?_eq_getElem hi) url).mpr hurl⟩

theorem endpoints_iff (h : s.Coexisting S) :
    (∃ b ∈ held s.endpoints, b.url = url) ↔ url ∈ s.reported := by
  rw [exists_held_iff h.endpoints, h.reported]

theorem mem_file_or (h : s.Coexisting S) {b : Backend} (hb : b ∈ s.balancer.backends) :
    b ∈ S ∨ s.Discovered b.url := by
  obtain ⟨owner, howner⟩ := (h.divided.mem_iff b).mp hb
  cases owner with
  | file => exact .inl howner
  | target name => exact .inr (.inl (h.target_iff.mp ⟨name, b, howner, rfl⟩))
  | endpoints => exact .inr (.inr (h.endpoints_iff.mp ⟨b, howner, rfl⟩))

theorem mem_urls_iff (h : s.Coexisting S) (url : String) :
    url ∈ s.balancer.backends.map Backend.url ↔ s.Wanted url := by
  rw [List.mem_map]
  constructor
  · rintro ⟨b, hb, rfl⟩
    rcases h.mem_file_or hb with hb | hb
    · exact .inl ((h.loaded b.url).mp ⟨b, hb, rfl⟩)
    · exact .inr hb
  · have hin : ∀ owner, (∃ b ∈ s.holdings S owner, b.url = url) →
        ∃ b ∈ s.balancer.backends, b.url = url := by
      rintro owner ⟨b, hb, hurl⟩
      exact ⟨b, (h.divided.mem_iff b).mpr ⟨owner, hb⟩, hurl⟩
    rintro (hurl | hurl | hurl)
    · exact hin .file ((h.loaded url).mpr hurl)
    · obtain ⟨name, hname⟩ := h.target_iff.mpr hurl
      exact hin (.target name) hname
    · exact hin .endpoints (h.endpoints_iff.mpr hurl)

end Live.Coexisting

theorem holdings_target (name : String) {o : Owned} (ho : s'.owned = update s.owned name o)
    (he : s'.endpoints = s.endpoints) :
    s'.holdings S = update (s.holdings S) (.target name) (held o) := by
  funext owner
  cases owner with
  | file => rfl
  | target name' =>
    by_cases hname : name' = name
    · subst hname
      rw [update_self]
      change held (s'.owned name') = _
      rw [ho, update_self]
    · rw [update_of_ne (fun heq => hname (Owner.target.inj heq))]
      change held (s'.owned name') = held (s.owned name')
      rw [ho, update_of_ne hname]
  | endpoints =>
    change held s'.endpoints = held s.endpoints
    rw [he]

theorem holdings_endpoints {o : Owned} (ho : s'.owned = s.owned) (he : s'.endpoints = o) :
    s'.holdings S = update (s.holdings S) .endpoints (held o) := by
  funext owner
  cases owner with
  | file => rfl
  | target name =>
    change held (s'.owned name) = held (s.owned name)
    rw [ho]
  | endpoints =>
    change held s'.endpoints = held o
    rw [he]

theorem holdings_file (S' : Set Backend) : s.holdings S' = update (s.holdings S) .file S' := by
  funext owner
  cases owner <;> rfl

namespace Live.Coexisting

theorem syncTarget (h : s.Coexisting S) {i : ℕ} {t : DNSTarget} (ht : s.cfg.dns[i]? = some t)
    (resolver : Resolver) : (s.syncTarget i t resolver).Coexisting S := by
  unfold Live.syncTarget
  cases resolve resolver t with
  | none => exact h
  | some desired =>
    have hkept : Kept (s.holdings S) (.target t.name) t.backend (s.balancer, s.owned t.name) :=
      ⟨h.divided.acting (.target t.name), h.fresh, h.owned t.name⟩
    obtain ⟨hd, hkeys⟩ := Kept.sync t hkept desired
    refine ⟨?_, hd.fresh, h.injOn, h.loaded, h.names, fun name key hkey => ?_, fun name key b hb => ?_,
      fun j t' ht' key => ?_, h.endpoints, h.reported⟩
    · rw [holdings_target t.name (s := s)]
      · exact hd.divided
      · rfl
      · rfl
    · by_cases hname : name = t.name
      · rw [hname]
        exact List.mem_map_of_mem (List.mem_of_getElem? ht)
      · apply h.named name key
        change key ∈ update s.owned t.name _ name at hkey
        rwa [update_of_ne hname] at hkey
    · change (update s.owned t.name _ name).lookup key = some b at hb
      by_cases hname : name = t.name
      · subst hname
        rw [update_self] at hb
        exact hd.keyed key b hb
      · rw [update_of_ne hname] at hb
        exact h.owned name key b hb
    · change key ∈ update s.owned t.name _ t'.name ↔ key ∈ update s.resolved i desired j
      by_cases hij : j = i
      · subst hij
        obtain rfl : t = t' := Option.some.inj (ht.symm.trans ht')
        rw [update_self, update_self]
        exact hkeys key
      · -- another target has another name, and so another record
        have hname : t'.name ≠ t.name := by
          intro heq
          apply hij
          apply (List.getElem?_inj (List.getElem?_eq_some_iff.mp ?_).1 h.names).mp
          · rw [List.getElem?_map, List.getElem?_map, ht, ht']
            exact congrArg some heq
          · exact t'.name
          · rw [List.getElem?_map, ht']
            rfl
        rw [update_of_ne hname, update_of_ne hij]
        exact h.resolved j t' ht' key

theorem syncEndpoints (h : s.Coexisting S) (subsets : List Subset) :
    (s.syncEndpoints subsets).Coexisting S := by
  have hkept : Kept (s.holdings S) .endpoints s.cfg.kubernetes.backend (s.balancer, s.endpoints) :=
    ⟨h.divided.acting .endpoints, h.fresh, h.endpoints⟩
  obtain ⟨hd, hkeys⟩ := Kept.kubernetesSync _ hkept (s.cfg.kubernetes.addressesFromEndpoints subsets)
  refine ⟨?_, hd.fresh, h.injOn, h.loaded, h.names, h.named, h.owned, h.resolved, hd.keyed, fun url =>
    ?_⟩
  · rw [holdings_endpoints (s := s)]
    · exact hd.divided
    · rfl
    · rfl
  · change url ∈ List.map _ _ ↔ ∃ key ∈ (KubernetesConfig.sync _ _ _).2, _
    simp only [hkeys, List.mem_map]
    rfl

theorem removeEndpoints (h : s.Coexisting S) : s.removeEndpoints.Coexisting S := by
  have hkept : Kept (s.holdings S) .endpoints s.cfg.kubernetes.backend (s.balancer, s.endpoints) :=
    ⟨h.divided.acting .endpoints, h.fresh, h.endpoints⟩
  obtain ⟨hd, hnone⟩ := Kept.removeAll _ hkept
  refine ⟨?_, hd.fresh, h.injOn, h.loaded, h.names, h.named, h.owned, h.resolved, hd.keyed, fun url =>
    ?_⟩
  · rw [holdings_endpoints (s := s)]
    · exact hd.divided
    · rfl
    · rfl
  · constructor
    · intro hurl
      cases hurl
    · rintro ⟨key, hkey, _⟩
      exact absurd hkey (hnone key)

end Live.Coexisting

theorem existing_some {m : Members} {b : Backend} (h : (existing m).lookup url = some b) :
    b ∈ m.backends ∧ b.url = url := by
  rw [existing_lookup] at h
  exact mem_of_lastWith h

theorem existing_none {m : Members} :
    (existing m).lookup url = none ↔ ∀ b ∈ m.backends, b.url ≠ url := by
  rw [existing_lookup, lastWith_eq_none]
  simp

theorem existing_entries (m : Members) :
    ∀ e ∈ (existing m).entries, e.2 ∈ m.backends ∧ e.2.url = e.1 :=
  fun _ he => existing_some (AList.mem_lookup_iff.mpr he)

section Loops
variable {live : Owned} {others : Owner → Set Backend} {m : Members}

theorem applyBackend_divided {bc : BackendEntry} (h : Divided m.backends (update others .file S))
    (hf : m.Fresh) (hinj : S.InjOn Backend.url)
    (hlive : ∀ b ∈ S, b.url = bc.url → live.lookup b.url ≠ none) :
    ∃ S', Divided (applyBackend live m bc).backends (update others .file S') ∧
      (applyBackend live m bc).Fresh ∧
      S'.InjOn Backend.url ∧ S ⊆ S' ∧ (∀ b ∈ S', b ∈ S ∨ b.url = bc.url) ∧
      (live.lookup bc.url = none → ∃ b ∈ S', b.url = bc.url) := by
  cases hbc : live.lookup bc.url with
  | some be =>
    refine ⟨S, ?_, ?_, hinj, subset_rfl, fun b hb => .inl hb, fun hnone => nomatch hnone⟩
    · rcases applyBackend_live m hbc with ⟨hstep, -⟩ | hstep
      · rwa [hstep]
      · rwa [hstep, Members.updateWeight_backends]
    · rcases applyBackend_live m hbc with ⟨hstep, -⟩ | hstep
      · rwa [hstep]
      · rw [hstep]
        exact hf.updateWeight be bc.weight
  | none =>
    rw [applyBackend_new m hbc]
    refine ⟨insert (newBackend m.next bc.toBackendConfig) S, h.add (hf.not_mem _), hf.add _, ?_,
      Set.subset_insert _ _, ?_, fun _ => ⟨_, .inl rfl, rfl⟩⟩
    · have hother : ∀ b ∈ S, b.url ≠ bc.url := by
        intro b hb heq
        apply hlive b hb heq
        rw [heq, hbc]
      rintro b (rfl | hb) b' (rfl | hb') heq
      · rfl
      · exact absurd heq.symm (hother b' hb')
      · exact absurd heq (hother b hb)
      · exact hinj hb hb' heq
    · rintro b (rfl | hb)
      · exact .inr rfl
      · exact .inl hb

theorem foldl_applyBackend (backends : List BackendEntry)
    (h : Divided m.backends (update others .file S)) (hf : m.Fresh) (hinj : S.InjOn Backend.url)
    (hnodup : (urls backends).Nodup)
    (hlive : ∀ b ∈ S, b.url ∈ urls backends → live.lookup b.url ≠ none) :
    ∃ S', Divided (backends.foldl (applyBackend live) m).backends (update others .file S') ∧
      (backends.foldl (applyBackend live) m).Fresh ∧ S'.InjOn Backend.url ∧ S ⊆ S' ∧
      (∀ b ∈ S', b ∈ S ∨ b.url ∈ urls backends) ∧
      ∀ url ∈ urls backends, live.lookup url = none → ∃ b ∈ S', b.url = url := by
  induction backends generalizing m S with
  | nil =>
    exact ⟨S, h, hf, hinj, subset_rfl, fun b hb => .inl hb, fun url hurl => nomatch hurl⟩
  | cons bc backends ih =>
    obtain ⟨hnew, hnodup⟩ := List.nodup_cons.mp hnodup
    have hfirst : ∀ b ∈ S, b.url = bc.url → live.lookup b.url ≠ none := by
      intro b hb hurl
      apply hlive b hb
      rw [hurl]
      exact List.mem_cons_self ..
    obtain ⟨S₁, hd₁, hf₁, hinj₁, hsub₁, hfrom₁, hadded⟩ := applyBackend_divided h hf hinj hfirst
    -- a new backend has the URL of its entry, which no later entry has
    have hlive₁ : ∀ b ∈ S₁, b.url ∈ urls backends → live.lookup b.url ≠ none := by
      intro b hb hurl
      rcases hfrom₁ b hb with hb | heq
      · exact hlive b hb (List.mem_cons_of_mem _ hurl)
      · rw [heq] at hurl
        exact absurd hurl hnew
    obtain ⟨S', hd, hfresh, hinj', hsub, hfrom, hall⟩ := ih hd₁ hf₁ hinj₁ hnodup hlive₁
    rw [List.foldl_cons]
    refine ⟨S', hd, hfresh, hinj', hsub₁.trans hsub, fun b hb => ?_, fun url hurl hnone => ?_⟩
    · rcases hfrom b hb with hb | hurl
      · refine (hfrom₁ b hb).imp_right fun heq => ?_
        rw [heq]
        exact List.mem_cons_self ..
      · exact .inr (List.mem_cons_of_mem _ hurl)
    · rcases List.mem_cons.mp hurl with rfl | hurl
      · obtain ⟨b, hb, hurl⟩ := hadded hnone
        exact ⟨b, hsub hb, hurl⟩
      · exact hall url hurl hnone

theorem foldl_removeUndesired (desired : List String)
    (entries : List (Sigma fun _ : String => Backend)) (h : Divided m.backends (update others .file S))
    (hf : m.Fresh) (hS : ∀ e ∈ entries, e.1 ∉ desired → e.2 ∈ m.backends → e.2 ∈ S) :
    Divided (entries.foldl (removeUndesired desired) m).backends
        (update others .file {b ∈ S | ∀ e ∈ entries, e.1 ∉ desired → b ≠ e.2}) ∧
      (entries.foldl (removeUndesired desired) m).Fresh := by
  induction entries generalizing m S with
  | nil => simpa using ⟨h, hf⟩
  | cons e entries ih =>
    rw [List.foldl_cons]
    unfold removeUndesired
    split_ifs with he
    · have hset : {b ∈ S | ∀ e' ∈ e :: entries, e'.1 ∉ desired → b ≠ e'.2} =
          {b ∈ S | ∀ e' ∈ entries, e'.1 ∉ desired → b ≠ e'.2} := by
        ext b
        simp [he]
      rw [hset]
      exact ih h hf fun e' he' => hS e' (List.mem_cons_of_mem _ he')
    · have hset : {b ∈ S | ∀ e' ∈ e :: entries, e'.1 ∉ desired → b ≠ e'.2} =
          {b ∈ S \ {e.2} | ∀ e' ∈ entries, e'.1 ∉ desired → b ≠ e'.2} := by
        ext b
        simp [he, and_assoc]
      rw [hset]
      apply ih (h.remove (hS e (List.mem_cons_self ..) he)) (hf.remove e.2)
      intro e' he' hout hin
      obtain ⟨hne, hin⟩ := h.nodup.mem_erase_iff.mp hin
      exact ⟨hS e' (List.mem_cons_of_mem _ he') hout hin, hne⟩

end Loops

/-- A reload that finds every discovered URL in the file it replaces and in the file it loads,
which names no URL twice. -/
structure Harmless (s : Live) (backends : List BackendEntry) : Prop where
  nodup : (urls backends).Nodup
  discovered : ∀ url, s.Discovered url → url ∈ urls s.cfg.backends ∧ url ∈ urls backends

theorem Live.Coexisting.reload (h : s.Coexisting S) {new : LoadedConfig}
    (hok : Harmless s new.backends) : ∃ S', (s.reloadConfig (some new)).Coexisting S' := by
  have hfile : ∀ b ∈ S, (existing s.balancer).lookup b.url ≠ none := fun b hb hnone =>
    existing_none.mp hnone b ((h.divided.mem_iff b).mpr ⟨.file, hb⟩) rfl
  obtain ⟨S₁, hd₁, hf₁, hinj₁, hsub, hfrom, hadded⟩ := foldl_applyBackend new.backends
    (h.divided.acting .file) h.fresh h.injOn hok.nodup fun b hb _ => hfile b hb
  have hentry := existing_entries s.balancer
  -- what is live and not desired came from the file: a discovered URL is desired
  have hundesired : ∀ b ∈ s.balancer.backends, b.url ∉ urls new.backends → b ∈ S := by
    intro b hb hout
    exact (h.mem_file_or hb).resolve_right fun hdisc => hout (hok.discovered b.url hdisc).2
  obtain ⟨hd₂, hf₂⟩ := foldl_removeUndesired (urls new.backends) (existing s.balancer).entries hd₁ hf₁
    fun e he hout _ => hsub (hundesired e.2 (hentry e he).1 ((hentry e he).2 ▸ hout))
  set S₂ := {b ∈ S₁ | ∀ e ∈ (existing s.balancer).entries, e.1 ∉ urls new.backends → b ≠ e.2}
  refine ⟨S₂, ?_, hf₂, hinj₁.mono fun b hb => hb.1, fun url => ?_, h.names, h.named, h.owned,
    h.resolved,
    h.endpoints, h.reported⟩
  · rw [holdings_file (S := S)]
    exact hd₂
  · change _ ↔ url ∈ urls new.backends
    constructor
    · rintro ⟨b, ⟨hb, hkept⟩, rfl⟩
      by_contra hout
      have hbS : b ∈ S := (hfrom b hb).resolve_right hout
      obtain ⟨be, hbe⟩ := Option.ne_none_iff_exists'.mp (hfile b hbS)
      obtain ⟨hlive, hurl⟩ := existing_some hbe
      have hbeS : be ∈ S := hundesired be hlive (hurl ▸ hout)
      exact hkept ⟨b.url, be⟩ (AList.mem_lookup_iff.mp hbe) hout (h.injOn hbS hbeS hurl.symm)
    · intro hin
      have hstays : ∀ b ∈ S₁, b.url = url → ∃ b ∈ S₂, b.url = url := by
        intro b hb hurl
        refine ⟨b, ⟨hb, ?_⟩, hurl⟩
        rintro e he hout rfl
        exact hout ((hentry e he).2 ▸ hurl ▸ hin)
      cases hlive : (existing s.balancer).lookup url with
      | none =>
        obtain ⟨b, hb, hurl⟩ := hadded url hin hlive
        exact hstays b hb hurl
      | some be =>
        have hloaded : url ∈ urls s.cfg.backends := by
          obtain ⟨hbe, rfl⟩ := existing_some hlive
          rcases h.mem_file_or hbe with hbS | hdisc
          · exact (h.loaded be.url).mp ⟨be, hbS, rfl⟩
          · exact (hok.discovered be.url hdisc).1
        obtain ⟨b, hb, hurl⟩ := (h.loaded url).mpr hloaded
        exact hstays b (hsub hb) hurl

theorem holdings_newServer (cfg : LoadedConfig) (S : Set Backend) (owner : Owner) :
    (newServer cfg).holdings S owner = if owner = .file then S else ∅ := by
  cases owner with
  | file => rfl
  | target name => exact held_empty
  | endpoints => exact held_empty

theorem coexisting_newServer {cfg : LoadedConfig} (hurls : (urls cfg.backends).Nodup)
    (hnames : (cfg.dns.map DNSTarget.name).Nodup) :
    (newServer cfg).Coexisting {b | b ∈ (newServer cfg).balancer.backends} := by
  have hmap : (newServer cfg).balancer.backends.map Backend.url = urls cfg.backends := by
    change (Members.build _).backends.map Backend.url = _
    rw [Members.build_urls, List.map_map]
    rfl
  refine ⟨⟨Members.build_nodup _, fun b => ?_, fun b i j hi hj => ?_⟩, Members.build_fresh _, ?_,
    fun url => ?_, hnames, fun name key hkey => ?_, fun name key b hb => ?_, fun i t _ key => ?_,
    fun key b hb => ?_, fun url => ?_⟩
  · simp [holdings_newServer]
  · rw [holdings_newServer] at hi hj
    split_ifs at hi hj with h₁ h₂
    · rw [h₁, h₂]
    · cases hj
    · cases hi
    · cases hi
  · rw [← hmap] at hurls
    exact fun b hb b' hb' heq => List.inj_on_of_nodup_map hurls hb hb' heq
  · change _ ↔ url ∈ urls cfg.backends
    rw [← hmap, List.mem_map]
    rfl
  · exact absurd hkey (AList.notMem_empty _)
  · cases hb
  · exact iff_of_false (AList.notMem_empty _) List.not_mem_nil
  · cases hb
  · apply iff_of_false List.not_mem_nil
    rintro ⟨key, hkey, _⟩
    exact AList.notMem_empty _ hkey

def Undisturbing (s : Live) : LiveCall → Prop
  | .reload (some new) => Harmless s new.backends
  | _ => True

theorem Live.Coexisting.step (h : s.Coexisting S) {c : LiveCall} (hok : Undisturbing s c)
    (hs : s.step c = some s') : ∃ S', s'.Coexisting S' := by
  cases c with
  | reload loaded =>
    cases hs
    cases loaded with
    | none => exact ⟨S, h⟩
    | some new => exact h.reload hok
  | target i resolver =>
    obtain ⟨t, ht, rfl⟩ := Option.map_eq_some_iff.mp hs
    exact ⟨S, h.syncTarget ht resolver⟩
  | endpoints subsets =>
    obtain ⟨_, hs⟩ := Option.ite_none_right_eq_some.mp hs
    cases hs
    exact ⟨S, h.syncEndpoints subsets⟩
  | deleted =>
    obtain ⟨_, hs⟩ := Option.ite_none_right_eq_some.mp hs
    cases hs
    exact ⟨S, h.removeEndpoints⟩

/-- The default balancer has the URLs of the loaded file, those that each DNS target resolved to
last and those that Kubernetes reported last, if names and URLs are distinct and every reload is
harmless. -/
theorem balancer_holds_wanted (cfg : LoadedConfig) (hurls : (urls cfg.backends).Nodup)
    (hnames : (cfg.dns.map DNSTarget.name).Nodup) (calls : List LiveCall) (s : Live)
    (hok : Meets Live.step Undisturbing (newServer cfg) calls)
    (hr : exec Live.step (newServer cfg) calls = some s) (url : String) :
    url ∈ s.balancer.backends.map Backend.url ↔ s.Wanted url := by
  have hkeep : ∀ s c s', (∃ S, s.Coexisting S) → Undisturbing s c → Live.step s c = some s' →
      ∃ S, s'.Coexisting S := by
    rintro s c s' ⟨S, h⟩ hc hs
    exact h.step hc hs
  obtain ⟨S, h⟩ := exec_invariant hkeep hok hr ⟨_, coexisting_newServer hurls hnames⟩
  exact h.mem_urls_iff url

def oneHost : Resolver where
  lookupHost name := if name = "svc" then some ["10.0.0.1"] else none

def oneTarget (backends : List String) : LoadedConfig where
  backends := backends.map fun url => { url := url }
  dns := [{ name := "svc", port := 80 }]

theorem balancer_holds_wanted_listed :
    let cfg := oneTarget ["http://a", "http://10.0.0.1:80"]
    let calls := [.target 0 oneHost, .reload (some (oneTarget ["http://10.0.0.1:80"])), .target 0 {}]
    ∃ s, exec Live.step (newServer cfg) calls = some s ∧
      ∀ url, url ∈ s.balancer.backends.map Backend.url ↔ s.Wanted url := by
  intro cfg calls
  obtain ⟨s, hs⟩ : ∃ s, exec Live.step (newServer cfg) calls = some s := ⟨_, rfl⟩
  refine ⟨s, hs, balancer_holds_wanted cfg (by decide) (by decide) calls s ?_ hs⟩
  refine ⟨trivial, ?_⟩
  rintro s₁ ⟨⟩
  refine ⟨⟨by decide, ?_⟩, fun s₂ _ => ⟨trivial, fun _ _ => trivial⟩⟩
  rintro url (⟨i, hi, hurl⟩ | hurl)
  · obtain rfl : i = 0 := Nat.lt_one_iff.mp hi
    obtain rfl : url = "http://10.0.0.1:80" := List.mem_singleton.mp hurl
    decide
  · cases hurl

/-- A reload of the same file drops the backend that the DNS target has discovered, and the next
sync does not bring it back. -/
theorem reload_drops_discovered :
    let cfg := oneTarget ["http://a"]
    let calls := [.target 0 oneHost, .reload (some cfg), .target 0 oneHost]
    ∃ s, exec Live.step (newServer cfg) calls = some s ∧ s.Wanted "http://10.0.0.1:80" ∧
      "http://10.0.0.1:80" ∉ s.balancer.backends.map Backend.url := by
  refine ⟨_, rfl, .inr (.inl ⟨0, ?_⟩), ?_⟩
  · decide
  · decide +kernel

end ReverseProxyLb.Server

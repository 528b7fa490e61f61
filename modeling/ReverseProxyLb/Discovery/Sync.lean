import ReverseProxyLb.Balancer.Members
import ReverseProxyLb.Base.Text
import ReverseProxyLb.Lib.Owners
import Mathlib.Data.List.AList

/-! DNS targets and Kubernetes endpoints are synced in the same way: build a backend for
every key that is wanted and not owned, then take out those that are owned and not wanted.
-/
namespace ReverseProxyLb.Discovery
open Lib Function

abbrev Owned := AList fun _ : String => Backend

def adopt (conf : String → BackendConfig) (d : Members × Owned) (key : String) : Members × Owned :=
  if key ∈ d.2 then d
  else (d.1.add (conf key), d.2.insert key (newBackend d.1.next (conf key)))

def release (d : Members × Owned) (key : String) : Members × Owned :=
  match d.2.lookup key with
  | some be => (d.1.remove be, d.2.erase key)
  | none => d

/-- The sync of one owner. The wanted keys are a map; they are listed in the order of its
iteration. -/
def reconcile (conf : String → BackendConfig) (arrange : List String → List String)
    (desired : List String) (d : Members × Owned) : Members × Owned :=
  let d := desired.foldl (adopt conf) d
  let gone := arrange (d.2.keys.filter fun key => key ∉ desired)
  gone.foldl release d

structure Addr where
  host : String
  port : ℤ

structure DNSTarget where
  name : String
  type : String := "a"
  scheme : String := "http"
  port : ℤ := 0
  weight : ℤ := 1
  maxConns : ℤ := 100

/-- The answers of the lookups; `none` for an error. -/
structure Resolver where
  lookupSRV : String → Option (List Addr) := fun _ => none
  lookupHost : String → Option (List String) := fun _ => none

def endpointURL (scheme host : String) (port : ℤ) : String :=
  scheme ++ "://" ++ host ++ ":" ++ toString port

def resolve (resolver : Resolver) (t : DNSTarget) : Option (List String) :=
  let scheme := if t.scheme = "" then "http" else t.scheme
  match Text.toLower t.type with
  | "srv" =>
    (resolver.lookupSRV t.name).map fun addrs =>
      (addrs.map fun a => endpointURL scheme a.host a.port).dedup
  | _ =>
    (resolver.lookupHost t.name).map fun hosts =>
      (hosts.map fun h => endpointURL scheme h t.port).dedup

def DNSTarget.backend (t : DNSTarget) (url : String) : BackendConfig where
  url := url
  weight := t.weight
  maxConns := t.maxConns

/-- The part of `sync` after the lookup; those that are gone are removed in order. -/
def DNSTarget.sync (t : DNSTarget) : List String → Members × Owned → Members × Owned :=
  reconcile t.backend fun gone => gone.mergeSort fun a b => decide (a ≤ b)

structure Port where
  name : String := ""
  port : ℤ

structure Subset where
  addresses : List String
  ports : List Port

structure KubernetesConfig where
  enabled : Bool := false
  scheme : String := "http"
  portName : String := ""

namespace KubernetesConfig

def resolvePort (kd : KubernetesConfig) (ports : List Port) : ℤ :=
  match ports.find? fun p => kd.portName = "" ∨ p.name = kd.portName with
  | some p => p.port
  | none => 0

def addressesFromEndpoints (kd : KubernetesConfig) (subsets : List Subset) : List String :=
  (subsets.flatMap fun subset =>
    let port := kd.resolvePort subset.ports
    if port = 0 then [] else subset.addresses.map fun ip => ip ++ ":" ++ toString port).dedup

def url (kd : KubernetesConfig) (key : String) : String := kd.scheme ++ "://" ++ key

def backend (kd : KubernetesConfig) (key : String) : BackendConfig where
  url := kd.url key
  weight := 1
  maxConns := 100

def sync (kd : KubernetesConfig) : List String → Members × Owned → Members × Owned :=
  reconcile kd.backend id

theorem url_injective (kd : KubernetesConfig) : Injective kd.url := by
  intro k k' h
  have htext : (kd.scheme ++ "://").toList ++ k.toList = (kd.scheme ++ "://").toList ++ k'.toList := by
    rw [← String.toList_append, ← String.toList_append]
    exact congrArg String.toList h
  exact String.toList_inj.mp (List.append_cancel_left htext)

end KubernetesConfig

def removeAll (d : Members × Owned) : Members × Owned := d.2.keys.foldl release d

def held (o : Owned) : Set Backend := {b | ∃ key, o.lookup key = some b}

theorem held_empty : held ∅ = ∅ := by
  ext b
  simp [held]

variable {ι : Type} [DecidableEq ι] {others : ι → Set Backend} {i : ι}
  {conf : String → BackendConfig} {d : Members × Owned} {key : String}

/-- Owner `i` and the others share the members, and a backend of `i` has the URL of the
key it was built for. -/
structure Kept (others : ι → Set Backend) (i : ι) (conf : String → BackendConfig)
    (d : Members × Owned) : Prop where
  divided : Divided d.1.backends (update others i (held d.2))
  fresh : d.1.Fresh
  keyed : ∀ key b, d.2.lookup key = some b → b.url = (conf key).url

theorem held_insert {o : Owned} {b : Backend} (hk : key ∉ o) :
    held (o.insert key b) = insert b (held o) := by
  have hnone : o.lookup key = none := AList.lookup_eq_none.mpr hk
  ext b'
  constructor
  · rintro ⟨key', h⟩
    by_cases hkey : key' = key
    · subst hkey
      rw [AList.lookup_insert] at h
      exact .inl (Option.some.inj h).symm
    · rw [AList.lookup_insert_ne hkey] at h
      exact .inr ⟨key', h⟩
  · rintro (rfl | ⟨key', h⟩)
    · exact ⟨key, AList.lookup_insert _⟩
    · refine ⟨key', ?_⟩
      rw [AList.lookup_insert_ne]
      · exact h
      · rintro rfl
        rw [hnone] at h
        cases h

theorem Kept.adopt (h : Kept others i conf d) (key : String) :
    Kept others i conf (adopt conf d key) := by
  unfold Discovery.adopt
  split_ifs with hk
  · exact h
  · refine ⟨?_, h.fresh.add _, fun key' b hb => ?_⟩
    · rw [held_insert hk]
      exact h.divided.add (h.fresh.not_mem _)
    · by_cases hkey : key' = key
      · subst hkey
        rw [AList.lookup_insert] at hb
        rw [← Option.some.inj hb]
        rfl
      · rw [AList.lookup_insert_ne hkey] at hb
        exact h.keyed key' b hb

theorem mem_adopt {key' : String} : key' ∈ (adopt conf d key).2 ↔ key' = key ∨ key' ∈ d.2 := by
  unfold adopt
  split_ifs with hk
  · constructor
    · exact .inr
    · rintro (rfl | h)
      · exact hk
      · exact h
  · exact AList.mem_insert _

theorem Kept.held_erase (hinj : Injective fun key => (conf key).url) (h : Kept others i conf d)
    {b : Backend} (hb : d.2.lookup key = some b) : held (d.2.erase key) = held d.2 \ {b} := by
  ext b'
  constructor
  · rintro ⟨key', h'⟩
    by_cases hkey : key' = key
    · subst hkey
      rw [AList.lookup_erase] at h'
      cases h'
    · rw [AList.lookup_erase_ne hkey] at h'
      refine ⟨⟨key', h'⟩, ?_⟩
      rintro rfl
      apply hkey
      apply hinj
      change (conf key').url = (conf key).url
      rw [← h.keyed key' b' h', h.keyed key b' hb]
  · rintro ⟨⟨key', h'⟩, hne⟩
    refine ⟨key', ?_⟩
    rw [AList.lookup_erase_ne]
    · exact h'
    · rintro rfl
      rw [hb] at h'
      exact hne (Option.some.inj h').symm

theorem Kept.release (hinj : Injective fun key => (conf key).url) (h : Kept others i conf d)
    (key : String) : Kept others i conf (release d key) := by
  unfold Discovery.release
  cases hb : d.2.lookup key with
  | none => exact h
  | some b =>
    refine ⟨?_, h.fresh.remove b, fun key' b' hb' => ?_⟩
    · rw [h.held_erase hinj hb]
      exact h.divided.remove fun _ => ⟨key, hb⟩
    · by_cases hkey : key' = key
      · subst hkey
        rw [AList.lookup_erase] at hb'
        cases hb'
      · rw [AList.lookup_erase_ne hkey] at hb'
        exact h.keyed key' b' hb'

theorem mem_release {key' : String} : key' ∈ (release d key).2 ↔ key' ≠ key ∧ key' ∈ d.2 := by
  unfold release
  cases hb : d.2.lookup key with
  | none =>
    constructor
    · intro h
      refine ⟨?_, h⟩
      rintro rfl
      exact AList.lookup_eq_none.mp hb h
    · exact And.right
  | some b => exact AList.mem_erase

theorem Kept.foldl_adopt (h : Kept others i conf d) (keys : List String) :
    Kept others i conf (keys.foldl (Discovery.adopt conf) d) ∧
      ∀ key, key ∈ (keys.foldl (Discovery.adopt conf) d).2 ↔ key ∈ keys ∨ key ∈ d.2 := by
  induction keys generalizing d with
  | nil => exact ⟨h, fun key => by simp⟩
  | cons k keys ih =>
    obtain ⟨hkept, hmem⟩ := ih (h.adopt k)
    refine ⟨hkept, fun key => ?_⟩
    rw [List.foldl_cons, hmem, mem_adopt, List.mem_cons]
    tauto

theorem Kept.foldl_release (hinj : Injective fun key => (conf key).url) (h : Kept others i conf d)
    (keys : List String) : Kept others i conf (keys.foldl Discovery.release d) ∧
      ∀ key, key ∈ (keys.foldl Discovery.release d).2 ↔ key ∉ keys ∧ key ∈ d.2 := by
  induction keys generalizing d with
  | nil => exact ⟨h, fun key => by simp⟩
  | cons k keys ih =>
    obtain ⟨hkept, hmem⟩ := ih (h.release hinj k)
    refine ⟨hkept, fun key => ?_⟩
    rw [List.foldl_cons, hmem, mem_release, List.mem_cons]
    tauto

theorem Kept.reconcile {arrange : List String → List String} (harrange : ∀ l, (arrange l).Perm l)
    (hinj : Injective fun key => (conf key).url) (h : Kept others i conf d) (desired : List String) :
    Kept others i conf (reconcile conf arrange desired d) ∧
      ∀ key, key ∈ (Discovery.reconcile conf arrange desired d).2 ↔ key ∈ desired := by
  obtain ⟨hadopt, hadded⟩ := h.foldl_adopt desired
  obtain ⟨hkept, hleft⟩ := hadopt.foldl_release hinj
    (arrange ((desired.foldl (Discovery.adopt conf) d).2.keys.filter fun key => key ∉ desired))
  refine ⟨hkept, fun key => ?_⟩
  unfold Discovery.reconcile
  rw [hleft, (harrange _).mem_iff, List.mem_filter, ← AList.mem_keys, hadded]
  simp only [decide_eq_true_eq]
  tauto

theorem Kept.sync (t : DNSTarget) (h : Kept others i t.backend d) (desired : List String) :
    Kept others i t.backend (t.sync desired d) ∧ ∀ key, key ∈ (t.sync desired d).2 ↔ key ∈ desired :=
  h.reconcile (fun _ => List.mergeSort_perm ..) (fun _ _ => id) desired

theorem Kept.kubernetesSync (kd : KubernetesConfig) (h : Kept others i kd.backend d)
    (desired : List String) : Kept others i kd.backend (kd.sync desired d) ∧
      ∀ key, key ∈ (kd.sync desired d).2 ↔ key ∈ desired :=
  h.reconcile (fun _ => List.Perm.refl _) kd.url_injective desired

theorem Kept.removeAll (kd : KubernetesConfig) (h : Kept others i kd.backend d) :
    Kept others i kd.backend (removeAll d) ∧ ∀ key, key ∉ (Discovery.removeAll d).2 := by
  obtain ⟨hkept, hleft⟩ := h.foldl_release kd.url_injective d.2.keys
  refine ⟨hkept, fun key hkey => ?_⟩
  obtain ⟨hout, hin⟩ := (hleft key).mp hkey
  exact hout (AList.mem_keys.mp hin)

/-- The predicate is false of what is owned and of what will be built. -/
structure Blind (p : Backend → Bool) (conf : String → BackendConfig) (d : Members × Owned) : Prop where
  held : ∀ b ∈ held d.2, p b = false
  built : ∀ n key, d.1.next ≤ n → p (newBackend n (conf key)) = false

variable {p : Backend → Bool}

theorem Blind.adopt (h : Blind p conf d) (key : String) : Blind p conf (adopt conf d key) ∧
    (Discovery.adopt conf d key).1.backends.filter p = d.1.backends.filter p := by
  unfold Discovery.adopt
  split_ifs with hk
  · exact ⟨h, rfl⟩
  · refine ⟨⟨fun b hb => ?_, fun n k hn => h.built n k ((Nat.le_succ _).trans hn)⟩, ?_⟩
    · rw [held_insert hk] at hb
      rcases hb with rfl | hb
      · exact h.built _ _ le_rfl
      · exact h.held b hb
    · change (d.1.backends ++ [newBackend d.1.next (conf key)]).filter p = _
      rw [List.filter_append, List.filter_singleton, h.built _ _ le_rfl]
      exact List.append_nil _

theorem filter_erase_of_neg {l : List Backend} {b : Backend} (hb : p b = false) :
    (l.erase b).filter p = l.filter p := by
  induction l with
  | nil => rfl
  | cons a l ih =>
    rw [List.erase_cons]
    split_ifs with hab
    · rw [eq_of_beq hab, List.filter_cons_of_neg (by simp [hb])]
    · rw [List.filter_cons, List.filter_cons, ih]

theorem Blind.release (h : Blind p conf d) (key : String) : Blind p conf (release d key) ∧
    (Discovery.release d key).1.backends.filter p = d.1.backends.filter p := by
  unfold Discovery.release
  cases hb : d.2.lookup key with
  | none => exact ⟨h, rfl⟩
  | some b =>
    refine ⟨⟨fun b' hb' => ?_, h.built⟩, filter_erase_of_neg (h.held b ⟨key, hb⟩)⟩
    obtain ⟨key', hkey'⟩ := hb'
    apply h.held
    refine ⟨key', ?_⟩
    by_cases hne : key' = key
    · subst hne
      rw [AList.lookup_erase] at hkey'
      cases hkey'
    · rwa [AList.lookup_erase_ne hne] at hkey'

theorem Blind.foldl {f : Members × Owned → String → Members × Owned}
    (hf : ∀ d key, Blind p conf d → Blind p conf (f d key) ∧
      (f d key).1.backends.filter p = d.1.backends.filter p)
    (h : Blind p conf d) (keys : List String) :
    Blind p conf (keys.foldl f d) ∧ (keys.foldl f d).1.backends.filter p = d.1.backends.filter p := by
  induction keys generalizing d with
  | nil => exact ⟨h, rfl⟩
  | cons k keys ih =>
    obtain ⟨hblind, hfilter⟩ := hf d k h
    obtain ⟨hblind', hfilter'⟩ := ih hblind
    exact ⟨hblind', hfilter'.trans hfilter⟩

theorem Blind.reconcile (h : Blind p conf d) (arrange : List String → List String)
    (desired : List String) :
    (reconcile conf arrange desired d).1.backends.filter p = d.1.backends.filter p := by
  obtain ⟨hblind, hfilter⟩ := h.foldl (fun _ key h => h.adopt key) desired
  exact (hblind.foldl (fun _ key h => h.release key) _).2.trans hfilter

theorem next_adopt : d.1.next ≤ (adopt conf d key).1.next := by
  unfold adopt
  split_ifs
  · exact le_rfl
  · exact Nat.le_succ _

theorem next_release : (release d key).1.next = d.1.next := by
  unfold release
  split <;> rfl

theorem next_reconcile (conf : String → BackendConfig) (arrange : List String → List String)
    (desired : List String) (d : Members × Owned) :
    d.1.next ≤ (reconcile conf arrange desired d).1.next := by
  have hadopt : ∀ keys d, d.1.next ≤ (List.foldl (adopt conf) d keys).1.next := by
    intro keys
    induction keys with
    | nil => exact fun d => le_rfl
    | cons k keys ih => exact fun d => next_adopt.trans (ih _)
  have hrelease : ∀ keys d, (List.foldl release d keys).1.next = d.1.next := by
    intro keys
    induction keys with
    | nil => exact fun d => rfl
    | cons k keys ih => exact fun d => (ih _).trans next_release
  unfold reconcile
  rw [hrelease]
  exact hadopt desired d

theorem lookup_reconcile {arrange : List String → List String} (harrange : ∀ l, (arrange l).Perm l)
    {desired : List String} {b : Backend} (hkey : key ∈ desired) (hb : d.2.lookup key = some b) :
    (reconcile conf arrange desired d).2.lookup key = some b := by
  have hadopt : ∀ keys (d : Members × Owned), d.2.lookup key = some b →
      (List.foldl (adopt conf) d keys).2.lookup key = some b := by
    intro keys
    induction keys with
    | nil => exact fun d h => h
    | cons k keys ih =>
      intro d h
      apply ih
      unfold adopt
      split_ifs with hk
      · exact h
      · rw [AList.lookup_insert_ne]
        · exact h
        · rintro rfl
          exact hk (AList.lookup_isSome.mp (by rw [h]; rfl))
  have hrelease : ∀ keys, key ∉ keys → ∀ d : Members × Owned, d.2.lookup key = some b →
      (List.foldl release d keys).2.lookup key = some b := by
    intro keys
    induction keys with
    | nil => exact fun _ d h => h
    | cons k keys ih =>
      intro hnot d h
      have hne : key ≠ k := List.ne_of_not_mem_cons hnot
      apply ih (List.not_mem_of_not_mem_cons hnot)
      unfold release
      split
      · rwa [AList.lookup_erase_ne hne]
      · exact h
  refine hrelease _ (fun hgone => ?_) _ (hadopt desired d hb)
  have hnot := (List.mem_filter.mp ((harrange _).mem_iff.mp hgone)).2
  simp [hkey] at hnot

theorem sync_adopts (t : DNSTarget) (url : String) (m : Members) :
    t.sync [url] (m, ∅) =
      (m.add (t.backend url), (∅ : Owned).insert url (newBackend m.next (t.backend url))) := by
  simp [DNSTarget.sync, reconcile, adopt]

theorem sync_releases (t : DNSTarget) (url : String) (b : Backend) (m : Members) :
    t.sync [] (m, (∅ : Owned).insert url b) = (m.remove b, ∅) := by
  have hkeys : ((∅ : Owned).insert url b).keys = [url] := by simp
  have hgone : [url].filter (fun key => key ∉ ([] : List String)) = [url] := by simp
  have hlookup : ((∅ : Owned).insert url b).lookup url = some b := AList.lookup_insert _
  have herase : ((∅ : Owned).insert url b).erase url = ∅ := by
    apply AList.ext
    change List.kerase url (List.kinsert (β := fun _ => Backend) url b []) = []
    rw [List.kinsert_def]
    exact List.kerase_cons_eq rfl
  simp only [DNSTarget.sync, reconcile, List.foldl_nil, hkeys, hgone, List.mergeSort_singleton,
    List.foldl_cons,
    release, hlookup, herase]

end ReverseProxyLb.Discovery

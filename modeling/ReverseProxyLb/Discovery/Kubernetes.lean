import Mathlib
import ReverseProxyLb.Discovery.Sync
import ReverseProxyLb.Lib.Delimited
import ReverseProxyLb.Lib.Run

/-! The discovery lists the endpoints object and follows its watch stream. After every event
its backends are those of the last object, each the same as long as its address is reported.
-/
namespace ReverseProxyLb.Discovery
open Lib Function

/-- The order in which a `range` visits the keys of a map. -/
structure MapOrder where
  arrange : List String → List String
  perm : ∀ keys, (arrange keys).Perm keys

structure K8sWatchEvent where
  type : String
  object : List Subset

/-- The answer to the list request or a line of the stream, `none` where it cannot be decoded,
with the orders in which the maps are visited; or what others do to the balancer. -/
inductive K8sEvent where
  | list (endpoints : Option (List Subset)) (wanted gone : MapOrder)
  | line (event : Option K8sWatchEvent) (wanted gone : MapOrder)
  | add (conf : BackendConfig)
  | remove (b : Backend)

namespace KubernetesConfig

/-- `sync` of the addresses of an object. -/
def syncEndpoints (kd : KubernetesConfig) (subsets : List Subset) (wanted gone : MapOrder) :
    Members × Owned → Members × Owned :=
  reconcile kd.backend gone.arrange (wanted.arrange (kd.addressesFromEndpoints subsets))

/-- One line of the loop in `watchStream`. -/
def watchEvent (kd : KubernetesConfig) (event : K8sWatchEvent) (wanted gone : MapOrder)
    (d : Members × Owned) :
    Members × Owned :=
  match event.type with
  | "ADDED" => kd.syncEndpoints event.object wanted gone d
  | "MODIFIED" => kd.syncEndpoints event.object wanted gone d
  -- `removeAll`; the object is gone
  | "DELETED" => (gone.arrange d.2.keys).foldl release d
  | _ => d

end KubernetesConfig

/-- The balancer and what is owned, with the backends of all the others. -/
structure Watched where
  members : Members
  owned : Owned := ∅
  others : List Backend

namespace Watched

def values (o : Owned) : List Backend := o.entries.map Sigma.snd

def put (s : Watched) (d : Members × Owned) : Watched := { s with members := d.1, owned := d.2 }

def step (kd : KubernetesConfig) (s : Watched) : K8sEvent → Option Watched
  | .list none _ _ => some s
  | .list (some subsets) wanted gone =>
    some (s.put (kd.syncEndpoints subsets wanted gone (s.members, s.owned)))
  | .line none _ _ => some s
  | .line (some event) wanted gone =>
    some (s.put (kd.watchEvent event wanted gone (s.members, s.owned)))
  | .add conf =>
    some { s with
      members := s.members.add conf
      others := s.others ++ [newBackend s.members.next conf] }
  | .remove b =>
    if b ∈ values s.owned then none
    else some { s with members := s.members.remove b, others := s.others.erase b }

def start (m : Members) : Watched := { members := m, others := m.backends }

end Watched

namespace KubernetesConfig

def Matches (kd : KubernetesConfig) (p : Port) : Prop := kd.portName = "" ∨ p.name = kd.portName

/-- The first entry that matches has the number; zero stands for a number that is missing. -/
def Serves (kd : KubernetesConfig) (ports : List Port) (number : ℤ) : Prop :=
  number ≠ 0 ∧ ∃ before p after, ports = before ++ p :: after ∧ kd.Matches p ∧ p.port = number ∧
    ∀ q ∈ before, ¬ kd.Matches q

def ready (kd : KubernetesConfig) (subsets : List Subset) : Set (String × ℤ) :=
  {x | ∃ subset ∈ subsets, x.1 ∈ subset.addresses ∧ kd.Serves subset.ports x.2}

def report (kd : KubernetesConfig) (last : Set (String × ℤ)) : K8sEvent → Set (String × ℤ)
  | .list (some subsets) _ _ => kd.ready subsets
  | .line (some event) _ _ =>
    if event.type = "ADDED" ∨ event.type = "MODIFIED" then kd.ready event.object
    else if event.type = "DELETED" then ∅
    else last
  | _ => last

/-- The addresses of the last object that was listed, added or modified; none if it has been
deleted since. -/
def latest (kd : KubernetesConfig) (es : List K8sEvent) : Set (String × ℤ) := es.foldl kd.report ∅

def address (x : String × ℤ) : String := x.1 ++ ":" ++ toString x.2

variable {kd : KubernetesConfig}

theorem watchEvent_eq (event : K8sWatchEvent) (wanted gone : MapOrder) (d : Members × Owned) :
    kd.watchEvent event wanted gone d =
      if event.type = "ADDED" ∨
        event.type = "MODIFIED" then kd.syncEndpoints event.object wanted gone d
      else if event.type = "DELETED" then (gone.arrange d.2.keys).foldl release d
      else d := by
  unfold watchEvent
  split
  case h_1 htype => rw [if_pos (.inl htype)]
  case h_2 htype => rw [if_pos (.inr htype)]
  case h_3 htype => rw [htype, if_neg (by decide), if_pos rfl]
  case h_4 hadded hmodified hdeleted => rw [if_neg (not_or.mpr ⟨hadded, hmodified⟩), if_neg hdeleted]

theorem latest_append (es : List K8sEvent) (e : K8sEvent) :
    kd.latest (es ++ [e]) = kd.report (kd.latest es) e := by
  simp [latest]

theorem serves_iff {ports : List Port} {number : ℤ} :
    kd.Serves ports number ↔ kd.resolvePort ports = number ∧ number ≠ 0 := by
  unfold Serves resolvePort
  constructor
  · rintro ⟨hne, before, p, after, hports, hp, hnumber, hbefore⟩
    have hfind : (ports.find? fun p => kd.portName = "" ∨ p.name = kd.portName) = some p := by
      rw [List.find?_eq_some_iff_append]
      exact ⟨decide_eq_true hp, before, after, hports,
        fun q hq => by simpa [Matches] using hbefore q hq⟩
    rw [hfind]
    exact ⟨hnumber, hne⟩
  · rintro ⟨hnumber, hne⟩
    cases hfind : ports.find? fun p => kd.portName = "" ∨ p.name = kd.portName with
    | none =>
      rw [hfind] at hnumber
      exact (hne hnumber.symm).elim
    | some p =>
      rw [hfind] at hnumber
      obtain ⟨hp, before, after, hports, hbefore⟩ := List.find?_eq_some_iff_append.mp hfind
      refine ⟨hne, before, p, after, hports, by simpa [Matches] using hp, hnumber, fun q hq => ?_⟩
      simpa [Matches] using hbefore q hq

theorem mem_addressesFromEndpoints {subsets : List Subset} {key : String} :
    key ∈ kd.addressesFromEndpoints subsets ↔ ∃ x ∈ kd.ready subsets, address x = key := by
  simp only [addressesFromEndpoints, List.mem_dedup, List.mem_flatMap, ready, Set.mem_ofPred_eq,
    serves_iff]
  constructor
  · rintro ⟨subset, hsubset, hkey⟩
    split_ifs at hkey with hport
    · cases hkey
    · obtain ⟨ip, hip, rfl⟩ := List.mem_map.mp hkey
      exact ⟨(ip, _), ⟨subset, hsubset, hip, rfl, hport⟩, rfl⟩
  · rintro ⟨⟨ip, number⟩, ⟨subset, hsubset, hip, rfl, hport⟩, rfl⟩
    refine ⟨subset, hsubset, ?_⟩
    rw [if_neg hport]
    exact List.mem_map_of_mem hip

theorem colon_not_mem_number (n : ℤ) : ':' ∉ (toString n).toList := by
  have hdigits : ∀ m : ℕ, ':' ∉ m.repr.toList := by
    intro m h
    rw [Nat.toList_repr] at h
    exact absurd (Nat.isDigit_of_mem_toDigits (by decide) (by decide) h) (by decide)
  cases n with
  | ofNat m => exact hdigits m
  | negSucc m =>
    change ':' ∉ ("-" ++ (m + 1).repr).toList
    rw [String.toList_append, List.mem_append]
    rintro (h | h)
    · exact absurd h (by decide)
    · exact hdigits _ h

theorem address_injective : Injective address := by
  rintro ⟨ip, n⟩ ⟨ip', n'⟩ h
  have htext : ip.toList ++ ':' :: (toString n).toList =
      ip'.toList ++ ':' :: (toString n').toList := by
    simpa [address] using congrArg String.toList h
  have hrev : (toString n).toList.reverse ++ (':' :: ip.toList.reverse) =
      (toString n').toList.reverse ++ (':' :: ip'.toList.reverse) := by
    simpa using congrArg List.reverse htext
  obtain ⟨hnumber, hrest⟩ := eq_of_fields_eq (fun h => colon_not_mem_number n (List.mem_reverse.mp h))
    (fun h => colon_not_mem_number n' (List.mem_reverse.mp h)) (separated_cons ':' _)
      (separated_cons ':' _) hrev
  have hip : ip = ip' := String.toList_inj.mp (List.reverse_inj.mp (List.cons.inj hrest).2)
  have hn : n = n' := Int.repr_inj.mp (String.toList_inj.mp (List.reverse_inj.mp hnumber))
  rw [hip, hn]

theorem url_address (x : String × ℤ) : kd.url (address x) = endpointURL kd.scheme x.1 x.2 := by
  simp only [url, address, endpointURL, String.append_assoc]

end KubernetesConfig

namespace Watched
open KubernetesConfig

variable {kd : KubernetesConfig} {s s' : Watched} {reported : Set (String × ℤ)} {b : Backend}
  {key : String}

theorem mem_values {o : Owned} : b ∈ values o ↔ b ∈ held o := by
  simp only [values, List.mem_map, held, Set.mem_ofPred_eq]
  constructor
  · rintro ⟨⟨key, b'⟩, hmem, rfl⟩
    exact ⟨key, AList.mem_lookup_iff.mpr hmem⟩
  · rintro ⟨key, hlookup⟩
    exact ⟨⟨key, b⟩, AList.mem_lookup_iff.mp hlookup, rfl⟩

def holders (s : Watched) : Bool → Set Backend
  | true => held s.owned
  | false => {b | b ∈ s.others}

/-- The members are divided between the discovery, with a backend for every reported address, and
the others. -/
structure Tracks (kd : KubernetesConfig) (reported : Set (String × ℤ)) (s : Watched) : Prop where
  divided : Divided s.members.backends s.holders
  fresh : s.members.Fresh
  keyed : ∀ key b, s.owned.lookup key = some b → b.url = kd.url key
  nodup : s.others.Nodup
  reported : ∀ key, key ∈ s.owned ↔ ∃ x ∈ reported, address x = key

theorem Tracks.kept (h : Tracks kd reported s) :
    Kept s.holders true kd.backend (s.members, s.owned) where
  divided := h.divided.acting true
  fresh := h.fresh
  keyed := h.keyed

theorem Tracks.put (h : Tracks kd reported s) {d : Members × Owned} {reported' : Set (String × ℤ)}
    (hkept : Kept s.holders true kd.backend d)
    (hkeys : ∀ key, key ∈ d.2 ↔ ∃ x ∈ reported', address x = key) :
    Tracks kd reported' (s.put d) := by
  have hholders : (s.put d).holders = update s.holders true (held d.2) := by
    ext who b
    cases who <;> simp [holders, Watched.put]
  refine ⟨?_, hkept.fresh, hkept.keyed, h.nodup, hkeys⟩
  rw [hholders]
  exact hkept.divided

theorem Tracks.syncEndpoints (h : Tracks kd reported s) (subsets : List Subset)
    (wanted gone : MapOrder) :
    Tracks kd (kd.ready subsets)
      (s.put (kd.syncEndpoints subsets wanted gone (s.members, s.owned))) := by
  obtain ⟨hkept, hkeys⟩ := h.kept.reconcile gone.perm kd.url_injective
    (wanted.arrange (kd.addressesFromEndpoints subsets))
  apply h.put hkept
  intro key
  rw [← mem_addressesFromEndpoints, ← (wanted.perm _).mem_iff]
  exact hkeys key

theorem Tracks.removeAll (h : Tracks kd reported s) (gone : MapOrder) :
    Tracks kd ∅ (s.put ((gone.arrange s.owned.keys).foldl release (s.members, s.owned))) := by
  obtain ⟨hkept, hleft⟩ := h.kept.foldl_release kd.url_injective (gone.arrange s.owned.keys)
  apply h.put hkept
  intro key
  have hnone : key ∉ ((gone.arrange s.owned.keys).foldl release (s.members, s.owned)).2 := by
    intro hkey
    obtain ⟨hout, hin⟩ := (hleft key).mp hkey
    exact hout ((gone.perm _).mem_iff.mpr (AList.mem_keys.mp hin))
  simp [hnone]

theorem Tracks.watchEvent (h : Tracks kd reported s) (event : K8sWatchEvent) (wanted gone : MapOrder) :
    Tracks kd (kd.report reported (.line (some event) wanted gone))
      (s.put (kd.watchEvent event wanted gone (s.members, s.owned))) := by
  rw [watchEvent_eq]
  dsimp only [KubernetesConfig.report]
  split_ifs
  · exact h.syncEndpoints _ wanted gone
  · exact h.removeAll gone
  · exact h

theorem Tracks.add (h : Tracks kd reported s) (conf : BackendConfig) : Tracks kd reported
    { s with
      members := s.members.add conf
      others := s.others ++ [newBackend s.members.next conf] } := by
  have hnew : newBackend s.members.next conf ∉ s.others :=
    fun hb => h.fresh.not_mem conf ((h.divided.mem_iff _).mpr ⟨false, hb⟩)
  have hholders : holders { s with
      members := s.members.add conf, others := s.others ++ [newBackend s.members.next conf] } =
      update s.holders false (insert (newBackend s.members.next conf) (s.holders false)) := by
    ext who b
    cases who with
    | true => simp [holders]
    | false => simp [holders, or_comm]
  refine ⟨?_, h.fresh.add conf, h.keyed, ?_, h.reported⟩
  · rw [hholders]
    exact (h.divided.acting false).add (h.fresh.not_mem conf)
  · rw [List.nodup_append_comm]
    exact List.nodup_cons.mpr ⟨hnew, h.nodup⟩

theorem Tracks.remove (h : Tracks kd reported s) (hb : b ∉ values s.owned) : Tracks kd reported
    { s with members := s.members.remove b, others := s.others.erase b } := by
  have hother : b ∈ s.members.backends → b ∈ s.holders false := by
    intro hmem
    obtain ⟨who, hwho⟩ := (h.divided.mem_iff b).mp hmem
    cases who with
    | false => exact hwho
    | true => exact (hb (mem_values.mpr hwho)).elim
  have hholders : holders { s with members := s.members.remove b, others := s.others.erase b } =
      update s.holders false (s.holders false \ {b}) := by
    ext who b'
    cases who with
    | true => simp [holders]
    | false => simp [holders, h.nodup.mem_erase_iff, and_comm]
  refine ⟨?_, h.fresh.remove b, h.keyed, h.nodup.erase b, h.reported⟩
  rw [hholders]
  exact (h.divided.acting false).remove hother

theorem Tracks.step (h : Tracks kd reported s) {e : K8sEvent} (hs : step kd s e = some s') :
    Tracks kd (kd.report reported e) s' := by
  cases e with
  | list endpoints wanted gone =>
    cases endpoints with
    | none =>
      cases hs
      exact h
    | some subsets =>
      cases hs
      exact h.syncEndpoints subsets wanted gone
  | line event wanted gone =>
    cases event with
    | none =>
      cases hs
      exact h
    | some event =>
      cases hs
      exact h.watchEvent event wanted gone
  | add conf =>
    cases hs
    exact h.add conf
  | remove b =>
    simp only [Watched.step, Option.ite_none_left_eq_some] at hs
    obtain ⟨hb, heq⟩ := hs
    cases heq
    exact h.remove hb

theorem tracks_start {m : Members} (hfresh : m.Fresh) (hnodup : m.backends.Nodup) :
    Tracks kd ∅ (start m) := by
  have hwho : ∀ b who, b ∈ (start m).holders who → who = false ∧ b ∈ m.backends := by
    intro b who hb
    cases who with
    | false => exact ⟨rfl, hb⟩
    | true =>
      change b ∈ held ∅ at hb
      rw [held_empty] at hb
      cases hb
  refine ⟨⟨hnodup, fun b => ⟨fun hb => ⟨false, hb⟩, ?_⟩, ?_⟩, hfresh, ?_, hnodup, ?_⟩
  · rintro ⟨who, hb⟩
    exact (hwho b who hb).2
  · intro b who who' hb hb'
    rw [(hwho b who hb).1, (hwho b who' hb').1]
  · intro key b hb
    cases hb
  · intro key
    simp [start]

theorem tracks_run {m : Members} (hfresh : m.Fresh) (hnodup : m.backends.Nodup) {es : List K8sEvent}
    (hr : exec (step kd) (start m) es = some s) : Tracks kd (kd.latest es) s := by
  have hstep : ∀ es s e s', exec (step kd) (start m) es = some s → step kd s e = some s' →
      Tracks kd (kd.latest es) s → Tracks kd (kd.latest (es ++ [e])) s' := by
    intro es s e s' _ hs h
    rw [latest_append]
    exact h.step hs
  exact exec_history (tracks_start hfresh hnodup) hstep hr

theorem Tracks.exists_bijOn (h : Tracks kd reported s) : ∃ backendAt : String × ℤ → Backend,
    Set.BijOn backendAt reported (held s.owned) ∧
      ∀ x ∈ reported, (backendAt x).url = endpointURL kd.scheme x.1 x.2 := by
  have hsome : ∀ x ∈ reported, ∃ b, s.owned.lookup (address x) = some b := fun x hx =>
    Option.isSome_iff_exists.mp (AList.lookup_isSome.mpr ((h.reported _).mpr ⟨x, hx, rfl⟩))
  have hnonempty : Nonempty Backend := ⟨newBackend 0 (kd.backend "")⟩
  choose! backendAt hlookup using hsome
  refine ⟨backendAt, ⟨fun x hx => ⟨_, hlookup x hx⟩, fun x hx y hy hsame => ?_, ?_⟩, fun x hx => ?_⟩
  · apply address_injective
    apply kd.url_injective
    rw [← h.keyed _ _ (hlookup x hx), ← h.keyed _ _ (hlookup y hy), hsame]
  · rintro b ⟨key, hb⟩
    obtain ⟨x, hx, rfl⟩ := (h.reported key).mp (AList.lookup_isSome.mp (by rw [hb]; rfl))
    exact ⟨x, hx, Option.some.inj ((hlookup x hx).symm.trans hb)⟩
  · rw [h.keyed _ _ (hlookup x hx), url_address]

theorem Tracks.nodup_values (h : Tracks kd reported s) : (values s.owned).Nodup := by
  apply List.Nodup.map_on _ s.owned.nodupKeys.nodup
  rintro ⟨key, b⟩ hb ⟨key', b'⟩ hb' heq
  obtain rfl : b = b' := heq
  have hkey : key = key' := by
    apply kd.url_injective
    rw [← h.keyed key b (AList.mem_lookup_iff.mpr hb), ← h.keyed key' b (AList.mem_lookup_iff.mpr hb')]
  rw [hkey]

theorem Tracks.perm (h : Tracks kd reported s) :
    s.members.backends.Perm (s.others ++ values s.owned) := by
  have hdisjoint : s.others.Disjoint (values s.owned) := by
    intro b hother hown
    cases h.divided.alone b false true hother (mem_values.mp hown)
  rw [List.perm_ext_iff_of_nodup h.divided.nodup (h.nodup.append h.nodup_values hdisjoint)]
  intro b
  rw [h.divided.mem_iff, List.mem_append, mem_values]
  constructor
  · rintro ⟨who, hb⟩
    cases who with
    | false => exact .inl hb
    | true => exact .inr hb
  · rintro (hb | hb)
    · exact ⟨false, hb⟩
    · exact ⟨true, hb⟩

theorem Tracks.lookup_step (h : Tracks kd reported s) {e : K8sEvent}
    (hs : Watched.step kd s e = some s') (hb : s.owned.lookup key = some b) (hkey : key ∈ s'.owned) :
    s'.owned.lookup key = some b := by
  have hsync : ∀ subsets wanted gone,
      key ∈ (kd.syncEndpoints subsets wanted gone (s.members, s.owned)).2 →
      (kd.syncEndpoints subsets wanted gone (s.members, s.owned)).2.lookup key = some b := by
    intro subsets wanted gone hkey
    apply lookup_reconcile gone.perm _ hb
    exact ((h.kept.reconcile gone.perm kd.url_injective _).2 key).mp hkey
  cases e with
  | list endpoints wanted gone =>
    cases endpoints with
    | none =>
      cases hs
      exact hb
    | some subsets =>
      cases hs
      exact hsync subsets wanted gone hkey
  | line event wanted gone =>
    cases event with
    | none =>
      cases hs
      exact hb
    | some event =>
      cases hs
      change key ∈ (kd.watchEvent event wanted gone (s.members, s.owned)).2 at hkey
      change (kd.watchEvent event wanted gone (s.members, s.owned)).2.lookup key = some b
      rw [watchEvent_eq] at hkey ⊢
      split_ifs at hkey ⊢
      · exact hsync _ wanted gone hkey
      · obtain ⟨x, hx, -⟩ := ((h.removeAll gone).reported key).mp hkey
        cases hx
      · exact hb
  | add conf =>
    cases hs
    exact hb
  | remove b' =>
    simp only [Watched.step, Option.ite_none_left_eq_some] at hs
    obtain rfl := Option.some.inj hs.2
    exact hb

/-- After every run the discovery owns exactly one backend per address that was reported last, the
balancer has these and those of the others, and a backend stays while its address is reported. -/
theorem kubernetes_converges (kd : KubernetesConfig) (m : Members) (hfresh : m.Fresh)
    (hnodup : m.backends.Nodup) (es : List K8sEvent) (s : Watched)
    (hr : exec (step kd) (start m) es = some s) :
    (∃ backendAt : String × ℤ → Backend, Set.BijOn backendAt (kd.latest es) (held s.owned) ∧
        ∀ x ∈ kd.latest es, (backendAt x).url = endpointURL kd.scheme x.1 x.2) ∧
      s.members.backends.Perm (s.others ++ values s.owned) ∧
      ∀ e s', step kd s e = some s' → ∀ x ∈ kd.latest es, x ∈ kd.latest (es ++ [e]) →
        ∀ b ∈ held s.owned, b.url = endpointURL kd.scheme x.1 x.2 →
          ∀ b' ∈ held s'.owned, b'.url = endpointURL kd.scheme x.1 x.2 → b' = b := by
  have h := tracks_run hfresh hnodup hr
  refine ⟨h.exists_bijOn, h.perm, ?_⟩
  intro e s' hs x hx hx' b hb hurl b' hb' hurl'
  have h' := h.step hs
  have hkey : ∀ {s : Watched} {reported b}, Tracks kd reported s → b ∈ held s.owned →
      b.url = endpointURL kd.scheme x.1 x.2 → s.owned.lookup (address x) = some b := by
    rintro s reported b h ⟨key, hlookup⟩ hurl
    have hsame : address x = key := by
      apply kd.url_injective
      rw [url_address, ← hurl, h.keyed key b hlookup]
    rwa [hsame]
  have hlookup' := hkey h' hb' hurl'
  have hlookup := h.lookup_step hs (hkey h hb hurl) (AList.lookup_isSome.mp (by rw [hlookup']; rfl))
  exact Option.some.inj (hlookup'.symm.trans hlookup)

def inOrder : MapOrder := ⟨id, fun _ => .refl _⟩

/-- A pod, a second one, and two lines that are of no interest. -/
def scaleUp : List K8sEvent :=
  [.list (some [⟨["10.0.0.1"], [⟨"http", 8080⟩]⟩]) inOrder inOrder,
    .line (some ⟨"MODIFIED", [⟨["10.0.0.1", "10.0.0.2"], [⟨"http", 8080⟩]⟩]⟩) inOrder inOrder,
    .line (some ⟨"BOOKMARK", []⟩) inOrder inOrder,
    .line none inOrder inOrder]

theorem kubernetes_converges_scaleUp :
    ∃ s, exec (step {}) (start (Members.build [{ url := "http://static" }])) scaleUp = some s ∧
      s.members.backends.map Backend.url =
        ["http://static", "http://10.0.0.1:8080", "http://10.0.0.2:8080"] ∧
      s.members.backends.Perm (s.others ++ values s.owned) := by
  have hrun : (exec (step {}) (start (Members.build [{ url := "http://static" }])) scaleUp).map
      (fun s => s.members.backends.map Backend.url) =
      some ["http://static", "http://10.0.0.1:8080", "http://10.0.0.2:8080"] := by decide +kernel
  obtain ⟨s, hs, hurls⟩ := Option.map_eq_some_iff.mp hrun
  have hfresh : (Members.build [{ url := "http://static" }]).Fresh :=
    (Members.fresh_empty.foldl_add _).1
  have hnodup : (Members.build [{ url := "http://static" }]).backends.Nodup :=
    Members.fresh_empty.nodup_foldl_add List.nodup_nil _
  exact ⟨s, hs, hurls, (kubernetes_converges {} _ hfresh hnodup scaleUp s hs).2.1⟩

end Watched
end ReverseProxyLb.Discovery

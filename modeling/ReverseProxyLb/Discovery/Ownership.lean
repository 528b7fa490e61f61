import ReverseProxyLb.Base.Time
import ReverseProxyLb.Discovery.Sync
import ReverseProxyLb.Lib.Run

/-! A `Discoverer` syncs any number of targets into one balancer. What a target has built is
kept under its name, and the names need not be distinct. -/
namespace ReverseProxyLb.Discovery
open Lib Function

/-- A configured target, with how often it is resolved. -/
structure DNSTargetConfig extends DNSTarget where
  interval : ℤ := 30 * Time.second

def dnsLabel (i : ℕ) : String := "config: discovery.dns[" ++ toString i ++ "]"

/-- One round of the loop of `validateDiscovery`. -/
def validateTarget (i : ℕ) (t : DNSTargetConfig) : Except String Unit :=
  if t.name = "" then .error (dnsLabel i ++ ".name is required")
  else if t.type ≠ "a" ∧ t.type ≠ "srv" then
    .error (dnsLabel i ++ ".type " ++ t.type.quote ++ " must be \"a\" or \"srv\"")
  else if t.scheme ≠ "http" ∧ t.scheme ≠ "https" then
    .error (dnsLabel i ++ ".scheme " ++ t.scheme.quote ++ " must be \"http\" or \"https\"")
  else if t.interval ≤ 0 then .error (dnsLabel i ++ ".interval must be > 0")
  else if t.type = "a" ∧ (t.port < 1 ∨ 65535 < t.port) then
    .error (dnsLabel i ++ ".port " ++ toString t.port ++ " out of range (1-65535) for type \"a\"")
  else if t.weight < 0 then .error (dnsLabel i ++ ".weight must be >= 0")
  else if t.maxConns < 0 then .error (dnsLabel i ++ ".max_conns must be >= 0")
  else .ok ()

def validateDiscovery : ℕ → List DNSTargetConfig → Except String Unit
  | _, [] => .ok ()
  | i, t :: ts => do
    validateTarget i t
    validateDiscovery (i + 1) ts

/-- The balancer and what is owned under each name, with the backends that the syncs of
each target have added. -/
structure Discoverer where
  targets : List DNSTarget
  members : Members
  owned : String → Owned := fun _ => ∅
  added : List (ℕ × Backend) := []

/-- A sync of a target, or what others do to the balancer: they add backends, and remove those
that were not discovered. -/
inductive DiscoveryEvent where
  | sync (i : ℕ) (resolver : Resolver)
  | add (conf : BackendConfig)
  | remove (b : Backend)

namespace Discoverer

/-- The part of `sync` under the lock. -/
def apply (d : Discoverer) (i : ℕ) (t : DNSTarget) (desired : List String) : Discoverer :=
  let r := t.sync desired (d.members, d.owned t.name)
  { d with
    members := r.1
    owned := update d.owned t.name r.2
    added := d.added ++ (r.1.backends.filter fun b => b ∉ d.members.backends).map fun b => (i, b) }

def sync (d : Discoverer) (i : ℕ) (t : DNSTarget) (resolver : Resolver) : Discoverer :=
  match resolve resolver t with
  | none => d
  | some desired => d.apply i t desired

def step (d : Discoverer) : DiscoveryEvent → Option Discoverer
  | .sync i resolver => d.targets[i]?.map fun t => d.sync i t resolver
  | .add conf => some { d with members := d.members.add conf }
  | .remove b =>
    if b ∈ d.added.map Prod.snd then none else some { d with members := d.members.remove b }

/-- A sync removes only what its target has added, leaves the other backends as they are, and
after an answer the target has one backend per URL. -/
structure Frames (d d' : Discoverer) (i : ℕ) (answer : Option (List String)) : Prop where
  removes : ∀ b ∈ d.members.backends, b ∉ d'.members.backends → (i, b) ∈ d.added
  leaves : (d.members.backends.filter fun b => (i, b) ∉ d.added).Sublist d'.members.backends
  one : ∀ desired ∈ answer, ∀ url ∈ desired,
    ∃! b, b ∈ d'.members.backends ∧ (i, b) ∈ d'.added ∧ b.url = url
  only : ∀ desired ∈ answer, ∀ b ∈ d'.members.backends, (i, b) ∈ d'.added → b.url ∈ desired

def holders (d : Discoverer) (others : Set Backend) : Option String → Set Backend
  | none => others
  | some name => held (d.owned name)

/-- The members are divided among the others and the names, and what is held under a name was
added by a target of that name. -/
structure Owns (d : Discoverer) (others : Set Backend) : Prop where
  divided : Divided d.members.backends (d.holders others)
  fresh : d.members.Fresh
  keyed : ∀ name key b, (d.owned name).lookup key = some b → b.url = key
  source : ∀ name, ∀ b ∈ held (d.owned name), ∃ i t, d.targets[i]? = some t ∧ t.name = name ∧
    (i, b) ∈ d.added
  mine : ∀ i t b, d.targets[i]? = some t → (i, b) ∈ d.added → b ∈ d.members.backends →
    b ∈ held (d.owned t.name)
  old : ∀ x ∈ d.added, x.2.addr < d.members.next
  apart : ∀ b ∈ others, b ∉ d.added.map Prod.snd

variable {d d' : Discoverer} {others : Set Backend} {i : ℕ} {t : DNSTarget} {desired : List String}
  {b : Backend}

@[simp] theorem apply_targets : (d.apply i t desired).targets = d.targets := rfl

theorem holders_apply : (d.apply i t desired).holders others =
    update (d.holders others) (some t.name) (held (t.sync desired (d.members, d.owned t.name)).2) := by
  ext who b
  cases who with
  | none => simp [holders]
  | some name =>
    by_cases hname : name = t.name
    · subst hname
      simp [holders, apply]
    · simp [holders, apply, hname]

theorem Owns.kept (h : d.Owns others) (t : DNSTarget) :
    Kept (d.holders others) (some t.name) t.backend (d.members, d.owned t.name) where
  divided := h.divided.acting (some t.name)
  fresh := h.fresh
  keyed := fun key b hb => h.keyed t.name key b hb

theorem mem_added_apply {j : ℕ} : (j, b) ∈ (d.apply i t desired).added ↔
    (j, b) ∈ d.added ∨ j = i ∧ b ∈ (d.apply i t desired).members.backends ∧
      b ∉ d.members.backends := by
  simp only [apply, List.mem_append, List.mem_map, List.mem_filter, decide_eq_true_eq, Prod.mk.injEq]
  constructor
  · rintro (h | ⟨b', hb, rfl, rfl⟩)
    · exact .inl h
    · exact .inr ⟨rfl, hb⟩
  · rintro (h | ⟨rfl, hb⟩)
    · exact .inl h
    · exact .inr ⟨b, hb, rfl, rfl⟩

theorem Owns.mem_of_addr_lt (h : d.Owns others) (hb : b ∈ (d.apply i t desired).members.backends)
    (haddr : b.addr < d.members.next) : b ∈ d.members.backends := by
  by_contra hnot
  have hblind : Blind (fun b => decide (b.addr < d.members.next ∧ b ∉ d.members.backends)) t.backend
      (d.members, d.owned t.name) := by
    constructor
    · intro b hb
      have hmem : b ∈ d.members.backends := (h.divided.mem_iff b).mpr ⟨some t.name, hb⟩
      simp [hmem]
    · intro n key hn
      simp [newBackend, not_lt.mpr hn]
  have hfilter := hblind.reconcile (fun gone => gone.mergeSort fun a b => decide (a ≤ b)) desired
  have hin : b ∈ d.members.backends.filter fun b =>
      decide (b.addr < d.members.next ∧ b ∉ d.members.backends) := by
    rw [← hfilter]
    exact List.mem_filter.mpr ⟨hb, by simp [haddr, hnot]⟩
  exact hnot (List.mem_of_mem_filter hin)

theorem Owns.holder_of_mem (h : d.Owns others) (hb : b ∈ (d.apply i t desired).members.backends) :
    b ∈ held ((d.apply i t desired).owned t.name) ∨
      ∃ who, who ≠ some t.name ∧ b ∈ d.holders others who ∧ b ∈ d.members.backends := by
  obtain ⟨hkept, -⟩ := (h.kept t).sync t desired
  obtain ⟨who, hwho⟩ := (hkept.divided.mem_iff b).mp hb
  rcases mem_update_iff.mp hwho with ⟨-, hheld⟩ | ⟨hne, hheld⟩
  · left
    simpa [apply] using hheld
  · exact .inr ⟨who, hne, hheld, (h.divided.mem_iff b).mpr ⟨who, hheld⟩⟩

theorem Owns.held_apply (h : d.Owns others) (hheld : b ∈ held (d.owned t.name))
    (hb : b ∈ (d.apply i t desired).members.backends) :
    b ∈ held ((d.apply i t desired).owned t.name) := by
  rcases h.holder_of_mem hb with hin | ⟨who, hne, hwho, -⟩
  · exact hin
  · exact (hne (h.divided.alone b who (some t.name) hwho hheld)).elim

theorem Owns.apply (h : d.Owns others) (hi : d.targets[i]? = some t) (desired : List String) :
    (d.apply i t desired).Owns others := by
  obtain ⟨hkept, hkeys⟩ := (h.kept t).sync t desired
  have hdivided : Divided
      (d.apply i t desired).members.backends ((d.apply i t desired).holders others) := by
    rw [holders_apply]
    exact hkept.divided
  have hnext : d.members.next ≤ (d.apply i t desired).members.next :=
    next_reconcile t.backend _ desired (d.members, d.owned t.name)
  constructor
  · exact hdivided
  · exact hkept.fresh
  · intro name key b hb
    by_cases hname : name = t.name
    · subst hname
      simp only [Discoverer.apply, update_self] at hb
      exact hkept.keyed key b hb
    · simp only [Discoverer.apply, update_of_ne hname] at hb
      exact h.keyed name key b hb
  · intro name b hb
    by_cases hname : name = t.name
    · subst hname
      have hb' : b ∈ (d.apply i t desired).members.backends :=
        (hdivided.mem_iff b).mpr ⟨some t.name, hb⟩
      by_cases hold : b ∈ d.members.backends
      · obtain ⟨who, hwho⟩ := (h.divided.mem_iff b).mp hold
        by_cases hsame : who = some t.name
        · subst hsame
          obtain ⟨j, u, hu, hname, hadded⟩ := h.source t.name b hwho
          exact ⟨j, u, hu, hname, mem_added_apply.mpr (.inl hadded)⟩
        · have hwho' : b ∈ (d.apply i t desired).holders others who := by
            rw [holders_apply, update_of_ne hsame]
            exact hwho
          exact (hsame (hdivided.alone b who (some t.name) hwho' hb)).elim
      · exact ⟨i, t, hi, rfl, mem_added_apply.mpr (.inr ⟨rfl, hb', hold⟩)⟩
    · simp only [Discoverer.apply, update_of_ne hname] at hb
      obtain ⟨j, u, hu, hname, hadded⟩ := h.source name b hb
      exact ⟨j, u, hu, hname, mem_added_apply.mpr (.inl hadded)⟩
  · intro j u b hu hadded hb
    rcases mem_added_apply.mp hadded with hadded | ⟨rfl, -, hnew⟩
    · have hold := h.mem_of_addr_lt hb (h.old _ hadded)
      have hheld := h.mine j u b hu hadded hold
      by_cases hname : u.name = t.name
      · rw [hname] at hheld ⊢
        exact h.held_apply hheld hb
      · simp only [Discoverer.apply, update_of_ne hname]
        exact hheld
    · obtain rfl : t = u := Option.some.inj (hi.symm.trans hu)
      rcases h.holder_of_mem hb with hheld | ⟨-, -, -, hold⟩
      · exact hheld
      · exact (hnew hold).elim
  · rintro ⟨j, b⟩ hx
    rcases mem_added_apply.mp hx with hadded | ⟨-, hb, -⟩
    · exact (h.old _ hadded).trans_le hnext
    · exact hkept.fresh b hb
  · intro b hb hmem
    obtain ⟨⟨j, b'⟩, hadded, rfl⟩ := List.mem_map.mp hmem
    rcases mem_added_apply.mp hadded with hadded | ⟨-, -, hnew⟩
    · exact h.apart b' hb (List.mem_map_of_mem hadded)
    · exact hnew ((h.divided.mem_iff b').mpr ⟨none, hb⟩)

theorem Owns.added_of_held (h : d.Owns others) (hnames : (d.targets.map DNSTarget.name).Nodup)
    (hi : d.targets[i]? = some t) (hb : b ∈ held (d.owned t.name)) : (i, b) ∈ d.added := by
  obtain ⟨j, u, hu, hname, hadded⟩ := h.source t.name b hb
  have hlt : j < d.targets.length := (List.getElem?_eq_some_iff.mp hu).1
  have hsame : j = i := by
    apply (List.getElem?_inj (by simpa using hlt) hnames).mp
    rw [List.getElem?_map, List.getElem?_map, hi, hu, Option.map_some, Option.map_some, hname]
  rwa [hsame] at hadded

theorem Owns.frames (h : d.Owns others) (hnames : (d.targets.map DNSTarget.name).Nodup)
    (hi : d.targets[i]? = some t) (desired : List String) :
    Frames d (d.apply i t desired) i (some desired) := by
  have h' := h.apply hi desired
  obtain ⟨-, hkeys⟩ := (h.kept t).sync t desired
  have hwanted : ∀ key, key ∈ (d.apply i t desired).owned t.name ↔ key ∈ desired := by
    intro key
    simp only [Discoverer.apply, update_self]
    exact hkeys key
  have hheld : ∀ b ∈ (d.apply i t desired).members.backends, (i, b) ∈ (d.apply i t desired).added →
      ∃ key ∈ desired, ((d.apply i t desired).owned t.name).lookup key = some b ∧ b.url = key := by
    intro b hb hadded
    obtain ⟨key, hkey⟩ := h'.mine i t b hi hadded hb
    refine ⟨key, (hwanted key).mp (AList.lookup_isSome.mp (by rw [hkey]; rfl)), hkey,
      h'.keyed _ _ _ hkey⟩
  constructor
  · intro b hb hgone
    obtain ⟨who, hwho⟩ := (h.divided.mem_iff b).mp hb
    by_cases hsame : who = some t.name
    · subst hsame
      exact h.added_of_held hnames hi hwho
    · have hwho' : b ∈ (d.apply i t desired).holders others who := by
        rw [holders_apply, update_of_ne hsame]
        exact hwho
      exact (hgone ((h'.divided.mem_iff b).mpr ⟨who, hwho'⟩)).elim
  · have hblind : Blind (fun b => decide (b ∈ d.members.backends ∧ (i, b) ∉ d.added)) t.backend
        (d.members, d.owned t.name) := by
      constructor
      · intro b hb
        simp [h.added_of_held hnames hi hb]
      · intro n key hn
        have hnew : newBackend n (t.backend key) ∉ d.members.backends :=
          fun hmem => absurd (h.fresh _ hmem) (not_lt.mpr hn)
        simp [hnew]
    have hfilter := hblind.reconcile (fun gone => gone.mergeSort fun a b => decide (a ≤ b)) desired
    have hothers : (d.members.backends.filter fun b => (i, b) ∉ d.added) =
        d.members.backends.filter fun b => decide (b ∈ d.members.backends ∧ (i, b) ∉ d.added) := by
      apply List.filter_congr
      intro b hb
      simp [hb]
    rw [hothers, ← hfilter]
    exact List.filter_sublist
  · intro answer hanswer url hurl
    cases hanswer
    obtain ⟨b, hb⟩ := Option.isSome_iff_exists.mp (AList.lookup_isSome.mpr ((hwanted url).mpr hurl))
    have hheldb : b ∈ held ((d.apply i t desired).owned t.name) := ⟨url, hb⟩
    refine ⟨b, ⟨(h'.divided.mem_iff b).mpr ⟨some t.name, hheldb⟩, h'.added_of_held hnames hi hheldb,
      h'.keyed _ _ _ hb⟩, ?_⟩
    rintro b' ⟨hb', hadded, hurl'⟩
    obtain ⟨key, -, hkey, heq⟩ := hheld b' hb' hadded
    rw [← heq, hurl', hb] at hkey
    exact (Option.some.inj hkey).symm
  · intro answer hanswer b hb hadded
    cases hanswer
    obtain ⟨key, hkey, -, heq⟩ := hheld b hb hadded
    rwa [heq]

theorem frames_self (d : Discoverer) (i : ℕ) : Frames d d i none where
  removes := fun _ hb hgone => (hgone hb).elim
  leaves := List.filter_sublist
  one := nofun
  only := nofun

def start (targets : List DNSTarget) (m : Members) : Discoverer := { targets := targets, members := m }

theorem owns_start {m : Members} (hfresh : m.Fresh) (hnodup : m.backends.Nodup)
    (targets : List DNSTarget) :
    (start targets m).Owns {b | b ∈ m.backends} := by
  have hnone : ∀ name, held ((start targets m).owned name) = ∅ := fun _ => held_empty
  have hwho : ∀ b who, b ∈ (start targets m).holders {b | b ∈ m.backends} who → who = none ∧
      b ∈ m.backends := by
    intro b who hb
    cases who with
    | none => exact ⟨rfl, hb⟩
    | some name =>
      change b ∈ held ((start targets m).owned name) at hb
      rw [hnone name] at hb
      cases hb
  constructor
  · refine ⟨hnodup, fun b => ⟨fun hb => ⟨none, hb⟩, fun ⟨who, hb⟩ => (hwho b who hb).2⟩, ?_⟩
    intro b who who' hb hb'
    rw [(hwho b who hb).1, (hwho b who' hb').1]
  · exact hfresh
  · intro name key b hb
    have hheld : b ∈ held ((start targets m).owned name) := ⟨key, hb⟩
    rw [hnone name] at hheld
    cases hheld
  · intro name b hb
    rw [hnone name] at hb
    cases hb
  · intro i t b _ hadded
    cases hadded
  · intro x hx
    cases hx
  · intro b _ hmem
    cases hmem

theorem Owns.add (h : d.Owns others) (conf : BackendConfig) :
    Owns { d with members := d.members.add conf }
      (insert (newBackend d.members.next conf) others) := by
  have hadded : ∀ j, (j, newBackend d.members.next conf) ∉ d.added :=
    fun j hj => lt_irrefl _ (h.old _ hj)
  have hholders : Discoverer.holders { d with members := d.members.add conf }
      (insert (newBackend d.members.next conf) others) =
      update (d.holders others) none (insert (newBackend d.members.next conf) others) := by
    ext who b
    cases who <;> simp [holders]
  constructor
  · rw [hholders]
    exact (h.divided.acting none).add (h.fresh.not_mem conf)
  · exact h.fresh.add conf
  · exact h.keyed
  · exact h.source
  · intro i t b hi hb hmem
    rcases List.mem_append.mp hmem with hmem | hmem
    · exact h.mine i t b hi hb hmem
    · rw [List.mem_singleton.mp hmem] at hb
      exact (hadded i hb).elim
  · exact fun x hx => (h.old x hx).trans (Nat.lt_succ_self _)
  · rintro b (rfl | hb) hmem
    · obtain ⟨⟨j, b'⟩, hj, heq⟩ := List.mem_map.mp hmem
      dsimp only at heq
      subst heq
      exact hadded j hj
    · exact h.apart b hb hmem

theorem Owns.remove (h : d.Owns others) (hb : b ∉ d.added.map Prod.snd) :
    Owns { d with members := d.members.remove b } (others \ {b}) := by
  have hholders : Discoverer.holders { d with members := d.members.remove b } (others \ {b}) =
      update (d.holders others) none (others \ {b}) := by
    ext who b
    cases who <;> simp [holders]
  have hother : b ∈ d.members.backends → b ∈ others := by
    intro hmem
    obtain ⟨who, hwho⟩ := (h.divided.mem_iff b).mp hmem
    cases who with
    | none => exact hwho
    | some name =>
      obtain ⟨j, -, -, -, hadded⟩ := h.source name b hwho
      exact (hb (List.mem_map_of_mem hadded)).elim
  constructor
  · rw [hholders]
    exact (h.divided.acting none).remove hother
  · exact h.fresh.remove b
  · exact h.keyed
  · exact h.source
  · exact fun i t b' hi hadded hmem => h.mine i t b' hi hadded (List.mem_of_mem_erase hmem)
  · exact h.old
  · exact fun b' hb' => h.apart b' hb'.1

theorem Owns.step {e : DiscoveryEvent} (h : d.Owns others) (hs : d.step e = some d') :
    d'.targets = d.targets ∧ ∃ others', d'.Owns others' := by
  cases e with
  | sync i resolver =>
    obtain ⟨t, hi, rfl⟩ := Option.map_eq_some_iff.mp hs
    unfold sync
    split
    · exact ⟨rfl, others, h⟩
    · exact ⟨rfl, others, h.apply hi _⟩
  | add conf =>
    cases hs
    exact ⟨rfl, _, h.add conf⟩
  | remove b =>
    simp only [Discoverer.step, Option.ite_none_left_eq_some] at hs
    obtain ⟨hb, heq⟩ := hs
    cases heq
    exact ⟨rfl, _, h.remove hb⟩

theorem owns_run {targets : List DNSTarget} {m : Members} (hfresh : m.Fresh)
    (hnodup : m.backends.Nodup) {es : List DiscoveryEvent}
    (hr : exec step (start targets m) es = some d) :
    d.targets = targets ∧ ∃ others, d.Owns others := by
  have hkeep : ∀ d e d', (d.targets = targets ∧ ∃ others, Owns d others) → step d e = some d' →
      d'.targets = targets ∧ ∃ others, Owns d' others := by
    rintro d e d' ⟨htargets, others, h⟩ hs
    obtain ⟨htargets', hown⟩ := h.step hs
    exact ⟨htargets'.trans htargets, hown⟩
  exact exec_keeps hkeep hr ⟨rfl, _, owns_start hfresh hnodup targets⟩

def oneHost : Resolver :=
  { lookupSRV := fun _ => some [⟨"10.0.0.1", 80⟩], lookupHost := fun _ => some ["10.0.0.1"] }

def noHosts : Resolver := { lookupSRV := fun _ => some [], lookupHost := fun _ => some [] }

theorem resolve_oneHost (t : DNSTarget) : ∃ url, resolve oneHost t = some [url] := by
  unfold resolve
  dsimp only
  split <;> exact ⟨_, rfl⟩

theorem resolve_noHosts (t : DNSTarget) : resolve noHosts t = some [] := by
  unfold resolve
  dsimp only
  split <;> rfl

theorem not_frames_of_same_name {targets : List DNSTarget} {j : ℕ} {u : DNSTarget}
    (hi : targets[i]? = some t) (hj : targets[j]? = some u) (hne : i ≠ j) (hname : u.name = t.name) :
    ∃ d d', exec step (start targets {}) [.sync i oneHost] = some d ∧
      d.step (.sync j noHosts) = some d' ∧
      ¬ Frames d d' j (resolve noHosts u) := by
  obtain ⟨url, hurl⟩ := resolve_oneHost t
  obtain ⟨d, hd⟩ : ∃ d, d = (start targets {}).apply i t [url] := ⟨_, rfl⟩
  have hfirst : (start targets {}).step (.sync i oneHost) = some d := by
    change targets[i]?.map _ = _
    rw [hi, Option.map_some, sync, hurl, hd]
  have hmembers : d.members = ({} : Members).add (t.backend url) := by
    rw [hd]
    exact congrArg Prod.fst (sync_adopts t url {})
  have howned : d.owned t.name = (∅ : Owned).insert url (newBackend 0 (t.backend url)) := by
    rw [hd]
    simp only [Discoverer.apply, update_self]
    exact congrArg Prod.snd (sync_adopts t url {})
  have hsecond : d.step (.sync j noHosts) = some (d.apply j u []) := by
    have htargets : d.targets = targets := by rw [hd]; rfl
    change d.targets[j]?.map _ = _
    rw [htargets, hj, Option.map_some, sync, resolve_noHosts]
  refine ⟨d, d.apply j u [], by rw [exec_cons, hfirst]; rfl, hsecond, fun h => ?_⟩
  have hadded : d.added = [(i, newBackend 0 (t.backend url))] := by
    rw [hd]
    simp [Discoverer.apply, start, sync_adopts, Members.add]
  have hgone : (d.apply j u []).members.backends = [] := by
    simp only [Discoverer.apply]
    rw [hname, howned, hmembers, sync_releases]
    simp [Members.add, Members.remove]
  have hremoved :=
    h.removes (newBackend 0 (t.backend url)) (by rw [hmembers]; simp [Members.add]) (by simp [hgone])
  rw [hadded, List.mem_singleton] at hremoved
  exact hne (congrArg Prod.fst hremoved).symm

/-- In all runs every sync of a target keeps to the backends of that target exactly if no two
targets have the same name. -/
theorem targets_disjoint_iff (targets : List DNSTarget) :
    (∀ m : Members, m.Fresh → m.backends.Nodup → ∀ es d, exec step (start targets m) es = some d →
        ∀ i t resolver d', targets[i]? = some t → d.step (.sync i resolver) = some d' →
          Frames d d' i (resolve resolver t)) ↔
      (targets.map DNSTarget.name).Nodup := by
  constructor
  · intro hall
    by_contra hdup
    rw [List.nodup_iff_getElem?_ne_getElem?] at hdup
    push Not at hdup
    obtain ⟨i, j, hij, hlt, hsame⟩ := hdup
    rw [List.length_map] at hlt
    have hi : targets[i]? = some targets[i] := List.getElem?_eq_getElem (hij.trans hlt)
    have hj : targets[j]? = some targets[j] := List.getElem?_eq_getElem hlt
    have hname : targets[j].name = targets[i].name := by
      rw [List.getElem?_map, List.getElem?_map, hi, hj] at hsame
      exact (Option.some.inj hsame).symm
    obtain ⟨d, d', hr, hs, hnot⟩ := not_frames_of_same_name hi hj hij.ne hname
    exact hnot (hall {} Members.fresh_empty List.nodup_nil _ d hr j _ noHosts d' hj hs)
  · intro hnames m hfresh hnodup es d hr i t resolver d' hi hs
    obtain ⟨htargets, others, howns⟩ := owns_run hfresh hnodup hr
    rw [← htargets] at hi hnames
    change d.targets[i]?.map _ = _ at hs
    rw [hi, Option.map_some] at hs
    cases hs
    unfold sync
    cases hanswer : resolve resolver t with
    | none => exact frames_self d i
    | some desired => exact howns.frames hnames hi desired

def twoPorts : List DNSTargetConfig := [{ name := "svc", port := 80 }, { name := "svc", port := 8080 }]

/-- The configuration is accepted, and the sync of the second target removes the backend of the
first, whose address is still there. -/
theorem same_name_takes_over :
    validateDiscovery 0 twoPorts = .ok () ∧
      ∃ d d', exec step (start (twoPorts.map DNSTargetConfig.toDNSTarget) {}) [.sync 0 oneHost] =
        some d ∧
        d.step (.sync 1 oneHost) = some d' ∧
        d.members.backends.map Backend.url = ["http://10.0.0.1:80"] ∧ d.added.map Prod.fst = [0] ∧
        d'.members.backends.map Backend.url = ["http://10.0.0.1:8080"] := by
  refine ⟨by decide +kernel, ?_⟩
  have hfirst : (exec step (start (twoPorts.map DNSTargetConfig.toDNSTarget) {}) [.sync 0 oneHost]).map
      (fun d => (d.members.backends.map Backend.url, d.added.map Prod.fst,
        (d.step (.sync 1 oneHost)).map fun d' => d'.members.backends.map Backend.url)) =
      some (["http://10.0.0.1:80"], [0], some ["http://10.0.0.1:8080"]) := by decide +kernel
  obtain ⟨d, hd, heq⟩ := Option.map_eq_some_iff.mp hfirst
  obtain ⟨hurls, hrest⟩ := Prod.mk_inj.mp heq
  obtain ⟨hadded, hstep⟩ := Prod.mk_inj.mp hrest
  obtain ⟨d', hd', hurls'⟩ := Option.map_eq_some_iff.mp hstep
  exact ⟨d, d', hd, hd', hurls, hadded, hurls'⟩

end Discoverer
end ReverseProxyLb.Discovery

import ReverseProxyLb.Balancer.Backend

/-! The members of a balancer. A backend gets the next address when it is built, so it is
new to the balancer it is added to. -/
namespace ReverseProxyLb

structure Members where
  backends : List Backend := []
  weight : Backend → Int32 := fun _ => 0
  /-- The address of the next backend that is built. -/
  next : ℕ := 0

namespace Members

variable {m : Members} {cfg : BackendConfig}

def getWeight (m : Members) (b : Backend) : ℤ := (m.weight b).toInt

/-- `Add(NewBackend(cfg))`. -/
def add (m : Members) (cfg : BackendConfig) : Members where
  backends := m.backends ++ [newBackend m.next cfg]
  weight := Function.update m.weight (newBackend m.next cfg) (Int32.ofInt cfg.weight)
  next := m.next + 1

def remove (m : Members) (b : Backend) : Members := { m with backends := m.backends.erase b }

def updateWeight (m : Members) (b : Backend) (weight : ℤ) : Members :=
  if b ∈ m.backends then { m with weight := Function.update m.weight b (Int32.ofInt weight) } else m

def build (cfgs : List BackendConfig) : Members := cfgs.foldl add {}

@[simp] theorem updateWeight_backends (m : Members) (b : Backend) (weight : ℤ) :
    (m.updateWeight b weight).backends = m.backends := by
  unfold updateWeight
  split <;> rfl

@[simp] theorem updateWeight_next (m : Members) (b : Backend) (weight : ℤ) :
    (m.updateWeight b weight).next = m.next := by
  unfold updateWeight
  split <;> rfl

theorem updateWeight_weight_self {b : Backend} (hb : b ∈ m.backends) (weight : ℤ) :
    (m.updateWeight b weight).weight b = Int32.ofInt weight := by
  unfold updateWeight
  rw [if_pos hb]
  exact Function.update_self ..

theorem updateWeight_weight_of_ne {b x : Backend} (hx : x ≠ b) (weight : ℤ) :
    (m.updateWeight b weight).weight x = m.weight x := by
  unfold updateWeight
  split
  · exact Function.update_of_ne hx _ _
  · rfl

/-- The addresses from `next` on are free. -/
def Fresh (m : Members) : Prop := ∀ b ∈ m.backends, b.addr < m.next

theorem Fresh.not_mem (h : m.Fresh) (cfg : BackendConfig) : newBackend m.next cfg ∉ m.backends :=
  fun hb => lt_irrefl _ (h _ hb)

theorem Fresh.add (h : m.Fresh) (cfg : BackendConfig) : (m.add cfg).Fresh := by
  intro b hb
  rcases List.mem_append.mp hb with hb | hb
  · exact (h b hb).trans (Nat.lt_succ_self _)
  · rw [List.mem_singleton.mp hb]
    exact Nat.lt_succ_self _

theorem Fresh.remove (h : m.Fresh) (b : Backend) : (m.remove b).Fresh :=
  fun b' hb' => h b' (List.mem_of_mem_erase hb')

theorem Fresh.updateWeight (h : m.Fresh) (b : Backend) (weight : ℤ) :
    (m.updateWeight b weight).Fresh := by
  intro b' hb'
  rw [updateWeight_backends] at hb'
  rw [updateWeight_next]
  exact h b' hb'

def offers (m : Members) : List (String × Int32 × ℤ) :=
  m.backends.map fun b => (b.url, m.weight b, b.maxConns)

theorem Fresh.offers_add (h : m.Fresh) (cfg : BackendConfig) :
    (m.add cfg).offers = m.offers ++ [(cfg.url, Int32.ofInt cfg.weight, cfg.maxConns)] := by
  have hold : ∀ b ∈ m.backends, (m.add cfg).weight b = m.weight b := by
    intro b hb
    apply Function.update_of_ne
    rintro rfl
    exact h.not_mem cfg hb
  have hnew : (m.add cfg).weight (newBackend m.next cfg) = Int32.ofInt cfg.weight :=
    Function.update_self ..
  change (m.backends ++ [newBackend m.next cfg]).map _ = _
  rw [List.map_append, List.map_singleton, hnew]
  congr 1
  apply List.map_congr_left
  intro b hb
  rw [hold b hb]

theorem fresh_empty : ({} : Members).Fresh := fun _ hb => nomatch hb

theorem Fresh.foldl_add (h : m.Fresh) (cfgs : List BackendConfig) :
    (cfgs.foldl Members.add m).Fresh ∧ (cfgs.foldl Members.add m).offers =
      m.offers ++ cfgs.map fun cfg => (cfg.url, Int32.ofInt cfg.weight, cfg.maxConns) := by
  induction cfgs generalizing m with
  | nil => exact ⟨h, by simp⟩
  | cons cfg cfgs ih =>
    obtain ⟨hfresh, hoffers⟩ := ih (h.add cfg)
    refine ⟨hfresh, ?_⟩
    rw [List.foldl_cons, hoffers, h.offers_add cfg, List.append_assoc]
    rfl

theorem Fresh.nodup_foldl_add (h : m.Fresh) (hn : m.backends.Nodup) (cfgs : List BackendConfig) :
    (cfgs.foldl Members.add m).backends.Nodup := by
  induction cfgs generalizing m with
  | nil => exact hn
  | cons cfg cfgs ih =>
    apply ih (h.add cfg)
    change (m.backends ++ [newBackend m.next cfg]).Nodup
    rw [List.nodup_append_comm]
    exact List.nodup_cons.mpr ⟨h.not_mem cfg, hn⟩

theorem build_fresh (cfgs : List BackendConfig) : (build cfgs).Fresh := (fresh_empty.foldl_add cfgs).1

theorem build_nodup (cfgs : List BackendConfig) : (build cfgs).backends.Nodup :=
  fresh_empty.nodup_foldl_add List.nodup_nil cfgs

theorem build_offers (cfgs : List BackendConfig) :
    (build cfgs).offers = cfgs.map fun cfg => (cfg.url, Int32.ofInt cfg.weight, cfg.maxConns) :=
  (fresh_empty.foldl_add cfgs).2

theorem foldl_add_backends (m : Members) (cfgs : List BackendConfig) :
    (cfgs.foldl add m).backends = m.backends ++ cfgs.mapIdx fun i => newBackend (m.next + i) := by
  induction cfgs generalizing m with
  | nil => simp
  | cons cfg cfgs ih =>
    rw [List.foldl_cons, ih, List.mapIdx_cons, add, List.append_assoc, List.singleton_append]
    simp only [Nat.add_zero, Nat.add_assoc, Nat.add_comm 1]

theorem build_backends (cfgs : List BackendConfig) :
    (build cfgs).backends = cfgs.mapIdx newBackend := by
  rw [build, foldl_add_backends]
  simp

theorem build_weight {cfgs : List BackendConfig} {b : Backend} (h : b ∈ (build cfgs).backends) :
    (build cfgs).weight b = Int32.ofInt ((cfgs[b.addr]?.map BackendConfig.weight).getD 0) := by
  rw [build_backends] at h
  obtain ⟨i, hi, rfl⟩ := List.mem_mapIdx.mp h
  have hoffer := congrArg (fun offers => offers[i]?) (build_offers cfgs)
  rw [offers, build_backends] at hoffer
  simp only [List.getElem?_map, List.getElem?_mapIdx, List.getElem?_eq_getElem hi, Option.map_some,
    Option.some.injEq, Prod.mk.injEq] at hoffer
  rw [hoffer.2.1]
  simp [newBackend, hi]

theorem build_urls (cfgs : List BackendConfig) :
    (build cfgs).backends.map Backend.url = cfgs.map BackendConfig.url := by
  have h := congrArg (List.map Prod.fst) (build_offers cfgs)
  rw [offers, List.map_map, List.map_map] at h
  exact h

end Members
end ReverseProxyLb

import ReverseProxyLb.Balancer.Selection

/-! `setupBalancer` wraps the base in priority tiers, zone awareness, slow start and outlier
detection, from the inside out. Filters apply from the outside in. -/
namespace ReverseProxyLb.Server
open World

structure LoadBalancerConfig where
  algorithm : String := "round_robin"
  consistentHash : Options := { consistentHashReplicas := 0, consistentHashLoadFactor := 0 }
  preferSameZone : Bool := false
  slowStart : ℤ := 0
  /-- The outlier detection section, if it is enabled. -/
  outlierDetection : Option OutlierConfig := none

structure Config where
  backends : List BackendConfig
  zone : String := ""
  loadBalancer : LoadBalancerConfig := {}

def backendsUseTiers (backends : List BackendConfig) : Bool := backends.any fun bc => bc.tier != 0

def baseAlgorithm (lb : LoadBalancerConfig) : Algorithm :=
  match newByAlgorithm lb.algorithm lb.consistentHash with
  | .ok alg => alg
  | .error _ => .roundRobin

def setupStack (cfg : Config) : Stack :=
  let lb := cfg.loadBalancer
  let b := Stack.base (baseAlgorithm lb)
  let b := if backendsUseTiers cfg.backends then .priorityTiers b else b
  let b := if lb.preferSameZone then .zoneAware cfg.zone lb.preferSameZone b else b
  if 0 < lb.slowStart then .slowStart 0 lb.slowStart b else b

def setupBalancer (cfg : Config) : Deployment × World :=
  ({ outlier := cfg.loadBalancer.outlierDetection, stack := setupStack cfg },
   { backends := cfg.backends.mapIdx newBackend
     weight := fun b => Int32.ofInt ((cfg.backends[b.addr]?.map BackendConfig.weight).getD 0) })

variable {cfg : Config} {H : List Backend} {b : Backend} {w : World}

def Lowest (H : List Backend) (b : Backend) : Prop := b ∈ H ∧ ∀ b' ∈ H, b.tier ≤ b'.tier

/-- Lowest tier first, and within it the local zone if it is preferred and present. -/
structure TierFirst (cfg : Config) (H : List Backend) (b : Backend) : Prop where
  lowest : Lowest H b
  sameZone : cfg.loadBalancer.preferSameZone → cfg.zone ≠ "" →
    (∃ b' ∈ H, Lowest H b' ∧ b'.zone = cfg.zone) → b.zone = cfg.zone

def LocalInLowest (cfg : Config) (H : List Backend) : Prop :=
  cfg.loadBalancer.preferSameZone → cfg.zone ≠ "" → (∃ b ∈ H, b.zone = cfg.zone) →
    ∃ b ∈ H, Lowest H b ∧ b.zone = cfg.zone

theorem eligibleFrom_setupStack (cfg : Config) (H : List Backend) :
    (setupStack cfg).eligibleFrom H =
      let zoned := ZoneAware.eligibleFrom cfg.zone cfg.loadBalancer.preferSameZone H
      if backendsUseTiers cfg.backends then PriorityTiers.eligibleFrom zoned else zoned := by
  unfold setupStack
  by_cases ht : backendsUseTiers cfg.backends <;>
    by_cases hz : cfg.loadBalancer.preferSameZone <;>
      by_cases hs : 0 < cfg.loadBalancer.slowStart <;>
        simp [ht, hz, hs, Stack.eligibleFrom, ZoneAware.eligibleFrom]

theorem lowest_of_no_tiers (ht : ¬ backendsUseTiers cfg.backends)
    (hw : w.backends = (setupBalancer cfg).2.backends) (hH : H ⊆ w.backends) (hb : b ∈ H) :
    Lowest H b := by
  have hzero : ∀ b ∈ H, b.tier = 0 := by
    intro b hb
    have hm : b ∈ cfg.backends.mapIdx newBackend := by simpa [setupBalancer, hw] using hH hb
    obtain ⟨i, hi, rfl⟩ := List.mem_mapIdx.mp hm
    simp only [backendsUseTiers, List.any_eq_true, not_exists, not_and, bne_iff_ne, ne_eq,
      not_not] at ht
    exact ht _ (List.getElem_mem hi)
  exact ⟨hb, fun b' hb' => by rw [hzero b hb, hzero b' hb']⟩

theorem tierFirst_of_eligible (hw : w.backends = (setupBalancer cfg).2.backends)
    (hH : H ⊆ w.backends) (hl : LocalInLowest cfg H) (hb : b ∈ (setupStack cfg).eligibleFrom H) :
    TierFirst cfg H b := by
  rw [eligibleFrom_setupStack] at hb
  by_cases ht : backendsUseTiers cfg.backends
  · rw [if_pos ht, PriorityTiers.mem_eligibleFrom, ZoneAware.mem_eligibleFrom] at hb
    obtain ⟨⟨hbH, hzone⟩, hmin⟩ := hb
    refine ⟨⟨hbH, fun b' hb' => ?_⟩, fun hp hz hex => ?_⟩
    · by_cases hloc : cfg.loadBalancer.preferSameZone ∧ cfg.zone ≠ "" ∧ ∃ a ∈ H, a.zone = cfg.zone
      · obtain ⟨a, haH, halow, haz⟩ := hl hloc.1 hloc.2.1 hloc.2.2
        have ha : a ∈ ZoneAware.eligibleFrom cfg.zone cfg.loadBalancer.preferSameZone H :=
          ZoneAware.mem_eligibleFrom.mpr ⟨haH, fun _ _ _ => haz⟩
        exact (hmin a ha).trans (halow.2 b' hb')
      · refine hmin b' (ZoneAware.mem_eligibleFrom.mpr ⟨hb', fun hp hz hex => ?_⟩)
        exact absurd ⟨hp, hz, hex⟩ hloc
    · obtain ⟨a, haH, -, haz⟩ := hex
      exact hzone hp hz ⟨a, haH, haz⟩
  · rw [if_neg ht, ZoneAware.mem_eligibleFrom] at hb
    refine ⟨lowest_of_no_tiers ht hw hH hb.1, fun hp hz hex => ?_⟩
    obtain ⟨a, haH, -, haz⟩ := hex
    exact hb.2 hp hz ⟨a, haH, haz⟩

def SelectsTierFirst (cfg : Config) (w : World) : Prop :=
  let d := (setupBalancer cfg).1
  let H := (d.reinstated w).getHealthy
  (∀ b, (d.balancer.next w).1 = .backend b → TierFirst cfg H b) ∧
  ∀ f ∈ d.balancer.nextForKey, ∀ key b, (f key w).1 = .backend b → TierFirst cfg H b

theorem getHealthy_subset (w : World) : w.getHealthy ⊆ w.backends :=
  List.filter_sublist.subset

/-- Tier priority dominates zone preference exactly as long as a healthy local backend is found in
the lowest healthy tier. -/
theorem selectsTierFirst_iff (cfg : Config) (w : World)
    (hw : w.backends = (setupBalancer cfg).2.backends) :
    (LocalInLowest cfg ((setupBalancer cfg).1.reinstated w).getHealthy →
      ((setupBalancer cfg).1.reinstated w).RingUpToDate → SelectsTierFirst cfg w) ∧
    (SelectsTierFirst cfg w → LocalInLowest cfg ((setupBalancer cfg).1.reinstated w).getHealthy) := by
  set d := (setupBalancer cfg).1 with hd
  set H := (d.reinstated w).getHealthy with hH
  have hsub : H ⊆ w.backends := d.reinstated_backends w ▸ getHealthy_subset (d.reinstated w)
  refine ⟨fun hl hring => ⟨fun b hb => ?_, fun f hf key b hb => ?_⟩, fun hsel hp hz hex => ?_⟩
  · exact tierFirst_of_eligible hw hsub hl (mem_of_settles (d.selected_next fun _ => hring) hb)
  · exact tierFirst_of_eligible hw hsub hl
      (mem_of_settles (d.selected_nextForKey (fun _ => hring) f hf key) hb)
  · -- otherwise the filters leave out the lowest tier, and `Next` returns something else
    by_contra hnone
    obtain ⟨a, haH, haz⟩ := hex
    have hE : ∀ b ∈ d.stack.eligibleFrom H, b.zone = cfg.zone := by
      intro b hb
      have hb' : b ∈ (setupStack cfg).eligibleFrom H := hb
      rw [eligibleFrom_setupStack] at hb'
      have hzoned : b ∈ ZoneAware.eligibleFrom cfg.zone cfg.loadBalancer.preferSameZone H := by
        split_ifs at hb'
        · exact (PriorityTiers.eligibleFrom_sublist _).subset hb'
        · exact hb'
      exact (ZoneAware.mem_eligibleFrom.mp hzoned).2 hp hz ⟨a, haH, haz⟩
    have hne : H ≠ [] := List.ne_nil_of_mem haH
    obtain ⟨m, hm⟩ := List.exists_mem_of_ne_nil _ (PriorityTiers.eligibleFrom_ne_nil hne)
    have hlow : Lowest H m := PriorityTiers.mem_eligibleFrom.mp hm
    have hpart : d.stack.eligibleFrom H ≠ H := fun he =>
      hnone ⟨m, hlow.1, hlow, hE m (by rw [he]; exact hlow.1)⟩
    obtain ⟨b, hb⟩ := d.returns_next hne hpart
    have hbE := mem_of_settles (d.selected_next fun h => absurd h hpart) hb
    have hfirst := hsel.1 b hb
    exact hnone ⟨b, hfirst.lowest.1, hfirst.lowest, hE b hbE⟩

/-- A primary in zone `east` and a backup in zone `west`. -/
def twoZones (zone : String) : Config where
  backends := [{ url := "http://p", zone := "east" }, { url := "http://b", zone := "west", tier := 1 }]
  zone := zone
  loadBalancer := { preferSameZone := true }

theorem selectsTierFirst_iff_east :
    ((setupBalancer (twoZones "east")).1.balancer.next (setupBalancer (twoZones "east")).2).1 =
      .backend { addr := 0, url := "http://p", zone := "east" } ∧
    SelectsTierFirst (twoZones "east") (setupBalancer (twoZones "east")).2 := by
  refine ⟨by decide, (selectsTierFirst_iff (twoZones "east") _ rfl).1 ?_ fun _ _ h => nomatch h⟩
  exact fun _ _ _ => ⟨{ addr := 0, url := "http://p", zone := "east" }, by decide,
    ⟨by decide, by decide⟩, by decide⟩

/-- In the backup's zone the backup is chosen although the primary is healthy. -/
theorem backup_before_primary :
    ((setupBalancer (twoZones "west")).1.balancer.next (setupBalancer (twoZones "west")).2).1 =
      .backend { addr := 1, url := "http://b", zone := "west", tier := 1 } ∧
    { addr := 0, url := "http://p", zone := "east" } ∈ (setupBalancer (twoZones "west")).2.getHealthy ∧
    ¬ SelectsTierFirst (twoZones "west") (setupBalancer (twoZones "west")).2 := by
  have hnext :
      ((setupBalancer (twoZones "west")).1.balancer.next (setupBalancer (twoZones "west")).2).1 =
      .backend { addr := 1, url := "http://b", zone := "west", tier := 1 } := by decide
  have hprimary : { addr := 0, url := "http://p", zone := "east" } ∈
      (setupBalancer (twoZones "west")).2.getHealthy := by decide
  refine ⟨hnext, hprimary, fun h => ?_⟩
  have hle := (h.1 _ hnext).lowest.2 _ hprimary
  exact absurd hle (by decide)

end ReverseProxyLb.Server

import ReverseProxyLb.Discovery.Sync
import ReverseProxyLb.Lib.Run
import ReverseProxyLb.Routing.Router
import ReverseProxyLb.Server.Setup

/-! `New` builds the default balancer, the router, the canary group and a health checker for
each. Then the file is loaded again and targets are synced, in any order; each call is one
step. -/
namespace ReverseProxyLb.Server
open Discovery Health Lib Routing

structure CanaryConfig where
  enabled : Bool := false
  weightPercent : ℤ := 0
  algorithm : String := "round_robin"
  consistentHash : Options := { consistentHashReplicas := 100, consistentHashLoadFactor := 5 / 4 }
  backends : List BackendEntry := []

/-- The sections of the file that `New`, a reload and discovery read. -/
structure LoadedConfig where
  backends : List BackendEntry := []
  routes : List RouteConfig := []
  canary : CanaryConfig := {}
  /-- The health check section, if it is enabled. -/
  healthCheck : Option HealthCheckConfig := none
  dns : List DNSTarget := []
  kubernetes : KubernetesConfig := {}

/-- A running health checker; `none` is the default balancer, and another balancer is
known by its address. -/
structure Checker extends HealthChecker where
  balancer : Option ℕ

structure Live where
  cfg : LoadedConfig
  balancer : Members
  router : Option Router := none
  canary : Option Group := none
  canaryWeight : ℤ := 0
  healthChks : List Checker := []
  /-- The address of the next balancer that is built. -/
  nextGroup : ℕ := 0
  /-- What the discoverer owns, by the name of the target. -/
  owned : String → Owned := fun _ => ∅
  /-- What the Kubernetes discovery owns. -/
  endpoints : Owned := ∅
  /-- The URLs that each DNS target resolved to last, by its position; no code reads them. -/
  resolved : ℕ → List String := fun _ => []
  /-- The URLs that Kubernetes reported last; no code reads them. -/
  reported : List String := []

def urls (backends : List BackendEntry) : List String := backends.map fun bc => bc.url

def backendOverrides (backends : List BackendEntry) : List (String × HealthCheckConfig) :=
  backends.foldl (fun overrides bc =>
    match bc.healthCheck with
    | some hc => (bc.url, hc) :: overrides
    | none => overrides) []

def newHealthChecker (balancer : Option ℕ) (cfg : HealthCheckConfig) (backends : List BackendEntry) :
    Checker where
  cfg := cfg
  overrides := backendOverrides backends
  balancer := balancer

def setupRouter (cfg : LoadedConfig) (next : ℕ) : Option Router × ℕ :=
  if cfg.routes = [] then (none, next)
  else match newRouter next cfg.routes with
    | .error _ => (none, next)
    | .ok (router, next) => (some router, next)

def clampPercent (weightPercent : ℤ) : ℤ := max 0 (min weightPercent 100)

def setupCanary (cfg : LoadedConfig) (next : ℕ) : Option Group :=
  let c := cfg.canary
  if c.enabled = false ∨ c.backends = [] then none
  else match buildGroup next c.algorithm c.consistentHash c.backends with
    | .error _ => none
    | .ok group => some group

/-- One checker for the default balancer, one for each route group and one for the canary. -/
def setupHealthCheck (cfg : LoadedConfig) (router : Option Router) (canary : Option Group) :
    List Checker :=
  match cfg.healthCheck with
  | none => []
  | some hc =>
    let groups := router.elim [] Router.groups
    newHealthChecker none hc cfg.backends ::
      ((groups.zip cfg.routes).map fun p => newHealthChecker (some p.1.addr) hc p.2.backends) ++
      canary.toList.map fun group => newHealthChecker (some group.addr) hc cfg.canary.backends

/-- `New`. -/
def newServer (cfg : LoadedConfig) : Live :=
  let (router, next) := setupRouter cfg 0
  let canary := setupCanary cfg next
  { cfg := cfg
    balancer := .build (cfg.backends.map BackendEntry.toBackendConfig)
    router := router
    canary := canary
    canaryWeight := if canary.isSome then clampPercent cfg.canary.weightPercent else 0
    healthChks := setupHealthCheck cfg router canary
    nextGroup := next + 1 }

def existing (m : Members) : Owned := m.backends.foldl (fun e be => e.insert be.url be) ∅

theorem existing_lookup (m : Members) (url : String) :
    (existing m).lookup url = lastWith Backend.url url m.backends := lookup_index ..

def applyBackend (existing : Owned) (m : Members) (bc : BackendEntry) : Members :=
  match existing.lookup bc.url with
  | none => m.add bc.toBackendConfig
  | some be => if m.getWeight be = bc.weight then m else m.updateWeight be bc.weight

section ApplyBackend
variable {live : Owned} {bc : BackendEntry}

theorem applyBackend_new (m : Members) (h : live.lookup bc.url = none) :
    applyBackend live m bc = m.add bc.toBackendConfig := by
  unfold applyBackend
  rw [h]

theorem applyBackend_live (m : Members) {be : Backend} (h : live.lookup bc.url = some be) :
    (applyBackend live m bc = m ∧ m.getWeight be = bc.weight) ∨
      applyBackend live m bc = m.updateWeight be bc.weight := by
  unfold applyBackend
  rw [h]
  dsimp only
  split_ifs with hsame
  · exact .inl ⟨rfl, hsame⟩
  · exact .inr rfl

end ApplyBackend

def removeUndesired (desired : List String) (m : Members) (e : Sigma fun _ : String => Backend) :
    Members :=
  if e.1 ∈ desired then m else m.remove e.2

theorem foldl_removeUndesired_diff (desired : List String)
    (entries : List (Sigma fun _ : String => Backend)) (m : Members) :
    (entries.foldl (removeUndesired desired) m).backends =
        m.backends.diff ((entries.filter fun e => e.1 ∉ desired).map fun e => e.2) ∧
      (entries.foldl (removeUndesired desired) m).weight = m.weight ∧
      (entries.foldl (removeUndesired desired) m).next = m.next := by
  induction entries generalizing m with
  | nil => exact ⟨rfl, rfl, rfl⟩
  | cons e entries ih =>
    obtain ⟨hbackends, hweight, hnext⟩ := ih (removeUndesired desired m e)
    rw [List.foldl_cons]
    by_cases he : e.1 ∈ desired
    · have hstep : removeUndesired desired m e = m := if_pos he
      rw [hstep] at hbackends hweight hnext ⊢
      rw [List.filter_cons_of_neg (by simpa using he)]
      exact ⟨hbackends, hweight, hnext⟩
    · have hstep : removeUndesired desired m e = m.remove e.2 := if_neg he
      rw [hstep] at hbackends hweight hnext ⊢
      rw [List.filter_cons_of_pos (by simpa using he), List.map_cons, List.diff_cons]
      exact ⟨hbackends, hweight, hnext⟩

def applyBackendChanges (m : Members) (newBackends : List BackendEntry) : Members :=
  let live := existing m
  let m := newBackends.foldl (applyBackend live) m
  live.entries.foldl (removeUndesired (urls newBackends)) m

def backendsEqual (a b : List BackendEntry) : Bool :=
  (a.map fun bc => (bc.url, bc.weight, bc.maxConns)) == b.map fun bc =>
    (bc.url, bc.weight, bc.maxConns)

def routeGroupsEqual (a b : List RouteConfig) : Bool :=
  a.length == b.length && (a.zip b).all fun p =>
    p.1.pathPrefix == p.2.pathPrefix && p.1.algorithm == p.2.algorithm &&
      backendsEqual p.1.backends p.2.backends

def canaryEqual (a b : CanaryConfig) : Bool :=
  a.enabled == b.enabled && a.weightPercent == b.weightPercent && a.algorithm == b.algorithm &&
    backendsEqual a.backends b.backends

namespace Live

def reloadRoutes (s : Live) (routes : List RouteConfig) : Option Router × ℕ :=
  if routeGroupsEqual s.cfg.routes routes then (s.router, s.nextGroup)
  else match s.router, newMatchers s.nextGroup routes with
    | some _, .ok (ms, next) => (some { routes := ms }, next)
    | router, _ => (router, s.nextGroup)

def reloadCanaryWeight (s : Live) (canary : CanaryConfig) : ℤ :=
  let old := s.cfg.canary
  if canaryEqual old canary then s.canaryWeight
  else if old.enabled = canary.enabled ∧ old.algorithm = canary.algorithm ∧
      backendsEqual old.backends canary.backends ∧ old.weightPercent ≠ canary.weightPercent then
    clampPercent canary.weightPercent
  else s.canaryWeight

/-- `reloadConfig`, with the outcome of loading the file. -/
def reloadConfig (s : Live) : Option LoadedConfig → Live
  | none => s
  | some newCfg =>
    { s with
      balancer := applyBackendChanges s.balancer newCfg.backends
      router := (s.reloadRoutes newCfg.routes).1
      nextGroup := (s.reloadRoutes newCfg.routes).2
      canaryWeight := s.reloadCanaryWeight newCfg.canary
      cfg := { s.cfg with
        backends := newCfg.backends
        routes := newCfg.routes
        canary := newCfg.canary } }

/-- `sync` of the target at position `i`; a failed lookup changes nothing. -/
def syncTarget (s : Live) (i : ℕ) (t : DNSTarget) (resolver : Resolver) : Live :=
  match resolve resolver t with
  | none => s
  | some desired =>
    let d := t.sync desired (s.balancer, s.owned t.name)
    { s with
      balancer := d.1
      owned := Function.update s.owned t.name d.2
      resolved := Function.update s.resolved i desired }

def syncEndpoints (s : Live) (subsets : List Subset) : Live :=
  let kd := s.cfg.kubernetes
  let desired := kd.addressesFromEndpoints subsets
  let d := kd.sync desired (s.balancer, s.endpoints)
  { s with
    balancer := d.1
    endpoints := d.2
    reported := desired.map kd.url }

def removeEndpoints (s : Live) : Live :=
  let d := removeAll (s.balancer, s.endpoints)
  { s with
    balancer := d.1
    endpoints := d.2
    reported := [] }

end Live

inductive LiveCall where
  | reload (loaded : Option LoadedConfig)
  | target (i : ℕ) (resolver : Resolver)
  /-- A listing, or an event of type `ADDED` or `MODIFIED`. -/
  | endpoints (subsets : List Subset)
  /-- An event of type `DELETED`. -/
  | deleted

def Live.step (s : Live) : LiveCall → Option Live
  | .reload loaded => some (s.reloadConfig loaded)
  | .target i resolver => s.cfg.dns[i]?.map fun t => s.syncTarget i t resolver
  | .endpoints subsets => if s.cfg.kubernetes.enabled then some (s.syncEndpoints subsets) else none
  | .deleted => if s.cfg.kubernetes.enabled then some s.removeEndpoints else none

variable {s s' : Live}

structure SameSetup (s s' : Live) : Prop where
  cfg : s'.cfg = s.cfg
  router : s'.router = s.router
  canary : s'.canary = s.canary
  healthChks : s'.healthChks = s.healthChks

theorem reloadRoutes_cases (s : Live) (routes : List RouteConfig) :
    ((routeGroupsEqual s.cfg.routes routes ∨ s.router = none ∨
        ∃ err, newMatchers s.nextGroup routes = .error err) ∧ (s.reloadRoutes routes).1 = s.router) ∨
      ¬ routeGroupsEqual s.cfg.routes routes ∧ s.router.isSome ∧ ∃ ms next,
        newMatchers s.nextGroup routes = .ok (ms, next) ∧
        (s.reloadRoutes routes).1 = some { routes := ms } := by
  unfold Live.reloadRoutes
  by_cases heq : routeGroupsEqual s.cfg.routes routes
  · rw [if_pos heq]
    exact .inl ⟨.inl heq, rfl⟩
  · rw [if_neg heq]
    cases hr : s.router with
    | none => exact .inl ⟨.inr (.inl rfl), rfl⟩
    | some router =>
      cases hms : newMatchers s.nextGroup routes with
      | error err => exact .inl ⟨.inr (.inr ⟨err, rfl⟩), rfl⟩
      | ok built => exact .inr ⟨heq, rfl, built.1, built.2, rfl, rfl⟩

theorem step_setup {c : LiveCall} (h : s.step c = some s') :
    (∃ new, c = .reload (some new) ∧ s' = s.reloadConfig (some new)) ∨ SameSetup s s' := by
  cases c with
  | reload loaded =>
    cases h
    cases loaded with
    | none => exact .inr ⟨rfl, rfl, rfl, rfl⟩
    | some new => exact .inl ⟨new, rfl, rfl⟩
  | target i resolver =>
    obtain ⟨t, _, rfl⟩ := Option.map_eq_some_iff.mp h
    right
    unfold Live.syncTarget
    cases resolve resolver t with
    | none => exact ⟨rfl, rfl, rfl, rfl⟩
    | some desired => exact ⟨rfl, rfl, rfl, rfl⟩
  | endpoints subsets =>
    obtain ⟨_, hs⟩ := Option.ite_none_right_eq_some.mp h
    cases hs
    exact .inr ⟨rfl, rfl, rfl, rfl⟩
  | deleted =>
    obtain ⟨_, hs⟩ := Option.ite_none_right_eq_some.mp h
    cases hs
    exact .inr ⟨rfl, rfl, rfl, rfl⟩

end ReverseProxyLb.Server

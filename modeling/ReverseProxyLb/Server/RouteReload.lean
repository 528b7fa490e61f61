import ReverseProxyLb.Server.Reload

/-! A reload replaces the router's table only if `routeGroupsEqual` sees a difference in
path, algorithm or backends. Health checkers are made once; a new table comes without them.
-/
namespace ReverseProxyLb.Server
open Health Lib Routing

variable {s s' : Live}

/-- The file has valid routes, and a change that the comparison does not see is no change
to routing. -/
def RoutesSeen (s : Live) : LiveCall → Prop
  | .reload (some new) => Routable new.routes ∧
      (routeGroupsEqual s.cfg.routes new.routes → List.Forall₂ SameRoute s.cfg.routes new.routes)
  | _ => True

def Live.RoutesCurrent (s : Live) : Prop :=
  Routable s.cfg.routes ∧ ∃ router, s.router = some router ∧
    List.Forall₂ Built s.cfg.routes router.routes

theorem routesCurrent_newServer
    {cfg : LoadedConfig} (hne : cfg.routes ≠ []) (h : Routable cfg.routes) :
    (newServer cfg).RoutesCurrent := by
  obtain ⟨ms, next, hms, hbuilt⟩ := newMatchers_built h 0
  refine ⟨h, { routes := ms }, ?_, hbuilt⟩
  change (setupRouter cfg 0).1 = _
  unfold setupRouter newRouter
  rw [if_neg hne, hms]
  rfl

theorem Live.RoutesCurrent.step (h : s.RoutesCurrent) {c : LiveCall} (hok : RoutesSeen s c)
    (hs : s.step c = some s') : s'.RoutesCurrent := by
  obtain ⟨hcur, router, hrouter, hbuilt⟩ := h
  rcases step_setup hs with ⟨new, rfl, rfl⟩ | hsame
  · obtain ⟨hvalid, hseen⟩ := hok
    obtain ⟨ms, next, hms, hnew⟩ := newMatchers_built hvalid s.nextGroup
    rcases reloadRoutes_cases s new.routes with ⟨hwhy, hkeep⟩ | ⟨_, _, ms', next', hms', hswap⟩
    · refine ⟨hvalid, router, hkeep.trans hrouter, ?_⟩
      rcases hwhy with heq | hnone | ⟨err, herr⟩
      · exact built_congr (hseen heq) hbuilt
      · rw [hnone] at hrouter
        cases hrouter
      · rw [hms] at herr
        cases herr
    · rw [hms] at hms'
      cases hms'
      exact ⟨hvalid, { routes := ms }, hswap, hnew⟩
  · unfold Live.RoutesCurrent
    rw [hsame.cfg, hsame.router]
    exact ⟨hcur, router, hrouter, hbuilt⟩

/-- After reloads that see the changes to the routes, the installed router sends a request where
one built from the loaded routes would: to the default balancer, or to a group with the algorithm,
the options and the members of the matched route. -/
theorem router_serves_loaded (cfg : LoadedConfig) (hne : cfg.routes ≠ [])
    (hroutes : Routable cfg.routes) (calls : List LiveCall) (s : Live)
    (hok : Meets Live.step RoutesSeen (newServer cfg) calls)
    (hr : exec Live.step (newServer cfg) calls = some s) (routes : List RouteConfig)
    (hsame : List.Forall₂ SameRoute s.cfg.routes routes) (next : ℕ) :
    ∃ router fresh next', s.router = some router ∧ newRouter next routes = .ok (fresh, next') ∧
      ∀ req, (router.route req = none ↔ fresh.route req = none) ∧
        ∀ g, router.route req = some g → ∃ rc, matchedRoute routes fresh req = some rc ∧
          newByAlgorithm rc.algorithm rc.consistentHash = .ok g.algorithm ∧
          g.members.offers =
            rc.backends.map fun bc => (bc.url, Int32.ofInt bc.weight, bc.maxConns) := by
  obtain ⟨hcur, router, hrouter, hbuilt⟩ := exec_invariant (fun s c s' h hc hs => h.step hc hs) hok hr
    (routesCurrent_newServer hne hroutes)
  obtain ⟨ms, next', hms, hfresh⟩ := newMatchers_built (hcur.congr hsame) next
  refine ⟨router, { routes := ms }, next', hrouter, ?_, fun req => ?_⟩
  · unfold newRouter
    rw [hms]
    rfl
  · exact route_of_built (built_congr hsame hbuilt) hfresh req

def hostRoute (host : String) : RouteConfig where
  host := host
  backends := [{ url := "http://r" }]

theorem router_serves_loaded_moved :
    let cfg : LoadedConfig := { routes := [hostRoute "a.example"] }
    let calls : List LiveCall :=
      [.reload (some { routes := [hostRoute "a.example", hostRoute "b.example"] })]
    ∃ s router fresh next', exec Live.step (newServer cfg) calls = some s ∧ s.router = some router ∧
      newRouter 0 s.cfg.routes = .ok (fresh, next') ∧
      ∀ req, (router.route req = none ↔ fresh.route req = none) ∧
        ∀ g, router.route req = some g → ∃ rc, matchedRoute s.cfg.routes fresh req = some rc ∧
          newByAlgorithm rc.algorithm rc.consistentHash = .ok g.algorithm ∧
          g.members.offers =
            rc.backends.map fun bc => (bc.url, Int32.ofInt bc.weight, bc.maxConns) := by
  intro cfg calls
  have hroutable : ∀ hosts : List String, Routable (hosts.map hostRoute) := by
    intro hosts rc hrc
    obtain ⟨host, _, rfl⟩ := List.mem_map.mp hrc
    exact ⟨(by decide : "round_robin" ∈ validAlgorithms), List.nodup_nil⟩
  have hrefl : ∀ rc, SameRoute rc rc := fun rc => ⟨rfl, rfl, rfl, .refl _, rfl, rfl, rfl⟩
  obtain ⟨s, hs⟩ : ∃ s, exec Live.step (newServer cfg) calls = some s := ⟨_, rfl⟩
  have hok : Meets Live.step RoutesSeen (newServer cfg) calls :=
    ⟨⟨hroutable ["a.example", "b.example"], fun h => absurd h (by decide)⟩, fun _ _ => trivial⟩
  obtain ⟨router, fresh, next', hrouter, hfresh, hroute⟩ := router_serves_loaded cfg (by decide)
    (hroutable ["a.example"]) calls s hok hs s.cfg.routes
      (List.forall₂_same.mpr fun rc _ => hrefl rc) 0
  exact ⟨s, router, fresh, next', hs, hrouter, hfresh, hroute⟩

/-- A reload that moves a route to another host is not seen: the installed router sends
requests for the new host to the default balancer. -/
theorem reload_misses_host :
    let cfg : LoadedConfig := { routes := [hostRoute "a.example"] }
    let calls : List LiveCall := [.reload (some { routes := [hostRoute "b.example"] })]
    ∃ s router fresh next', exec Live.step (newServer cfg) calls = some s ∧ s.router = some router ∧
      newRouter 0 s.cfg.routes = .ok (fresh, next') ∧
      router.route { host := "b.example" } = none ∧ fresh.route { host := "b.example" } ≠ none := by
  refine ⟨_, _, _, _, rfl, rfl, rfl, rfl, ?_⟩
  intro h
  cases h

def Live.Watched (s : Live) (balancer : Option ℕ) (backends : List BackendEntry) : Prop :=
  ∃ c ∈ s.healthChks, c.balancer = balancer ∧
    ∀ url, c.overrides.lookup url = (backendOverrides backends).lookup url

def SameOverrides (a b : List BackendEntry) : Prop :=
  ∀ url, (backendOverrides a).lookup url = (backendOverrides b).lookup url

/-- The balancers that serve requests, each with the backends that the file has for it. -/
structure Live.AllWatched (s : Live) : Prop where
  balancer : s.Watched none s.cfg.backends
  groups : ∀ router, s.router = some router → ∀ (i : ℕ) g, router.groups[i]? = some g →
    ∃ rc, s.cfg.routes[i]? = some rc ∧ s.Watched (some g.addr) rc.backends
  canary : ∀ g, s.canary = some g → s.Watched (some g.addr) s.cfg.canary.backends

def ChecksKept (s : Live) : LiveCall → Prop
  | .reload (some new) => SameOverrides s.cfg.backends new.backends ∧
      (s.router.isSome → new.routes = [] ∨ routeGroupsEqual s.cfg.routes new.routes ∧
        List.Forall₂ (fun old new => SameOverrides old.backends new.backends) s.cfg.routes
          new.routes) ∧
      (s.canary.isSome → SameOverrides s.cfg.canary.backends new.canary.backends)
  | _ => True

theorem Live.Watched.congr {balancer : Option ℕ} {a b : List BackendEntry} (h : s.Watched balancer a)
    (hab : SameOverrides a b) (hc : s'.healthChks = s.healthChks) : s'.Watched balancer b := by
  obtain ⟨c, hmem, hbal, hover⟩ := h
  refine ⟨c, hc ▸ hmem, hbal, fun url => ?_⟩
  rw [hover url, hab url]

theorem setupRouter_length {cfg : LoadedConfig} {next : ℕ} {router : Router}
    (h : (setupRouter cfg next).1 = some router) : router.groups.length = cfg.routes.length := by
  unfold setupRouter newRouter at h
  split_ifs at h
  cases hms : newMatchers next cfg.routes with
  | error err =>
    rw [hms] at h
    cases h
  | ok built =>
    rw [hms] at h
    cases h
    rw [Router.groups, List.length_map]
    exact newMatchers_length hms

theorem allWatched_newServer {cfg : LoadedConfig} (h : cfg.healthCheck.isSome) :
    (newServer cfg).AllWatched := by
  obtain ⟨hc, hhc⟩ := Option.isSome_iff_exists.mp h
  set router := (setupRouter cfg 0).1 with hrouter
  set canary := setupCanary cfg (setupRouter cfg 0).2 with hcanary
  have hchks : (newServer cfg).healthChks = newHealthChecker none hc cfg.backends ::
      (((router.elim [] Router.groups).zip cfg.routes).map fun p =>
        newHealthChecker (some p.1.addr) hc p.2.backends) ++
      canary.toList.map fun group => newHealthChecker (some group.addr) hc cfg.canary.backends := by
    change setupHealthCheck cfg router canary = _
    unfold setupHealthCheck
    rw [hhc]
  have hwatched : ∀ (balancer : Option ℕ) (backends : List BackendEntry),
      newHealthChecker balancer hc backends ∈ (newServer cfg).healthChks →
      (newServer cfg).Watched balancer backends := fun _ _ hmem => ⟨_, hmem, rfl, fun _ => rfl⟩
  refine ⟨hwatched _ _ ?_, fun r hr i g hg => ?_, fun g hg => hwatched _ _ ?_⟩
  · rw [hchks]
    exact List.mem_append_left _ (List.mem_cons_self ..)
  · change router = some r at hr
    have hlt : i < cfg.routes.length := by
      rw [← setupRouter_length (hrouter.symm.trans hr)]
      exact (List.getElem?_eq_some_iff.mp hg).1
    refine ⟨cfg.routes[i], List.getElem?_eq_getElem hlt, hwatched _ _ ?_⟩
    have hzip : (g, cfg.routes[i]) ∈ r.groups.zip cfg.routes := by
      apply List.mem_of_getElem? (i := i)
      rw [List.getElem?_zip_eq_some]
      exact ⟨hg, List.getElem?_eq_getElem hlt⟩
    rw [hchks, hr]
    exact List.mem_append_left _ (List.mem_cons_of_mem _ (List.mem_map.mpr ⟨_, hzip, rfl⟩))
  · change canary = some g at hg
    rw [hchks, hg]
    exact List.mem_append_right _ (List.mem_singleton_self _)

theorem routeGroupsEqual_length {a b : List RouteConfig} (h : routeGroupsEqual a b) :
    a.length = b.length := by
  unfold routeGroupsEqual at h
  rw [Bool.and_eq_true] at h
  exact beq_iff_eq.mp h.1

theorem Live.AllWatched.step (h : s.AllWatched) {c : LiveCall} (hok : ChecksKept s c)
    (hs : s.step c = some s') : s'.AllWatched := by
  rcases step_setup hs with ⟨new, rfl, rfl⟩ | hsame
  · obtain ⟨hdefault, hroutes, hcanary⟩ := hok
    refine ⟨h.balancer.congr hdefault rfl, fun router hrouter i g hg => ?_, fun g hg => ?_⟩
    · change (s.reloadRoutes new.routes).1 = some router at hrouter
      change ∃ rc, new.routes[i]? = some rc ∧ _
      rcases reloadRoutes_cases s new.routes with ⟨hwhy, hkeep⟩ | ⟨hdiff, hsome, ms, next, hms, hswap⟩
      · -- the table stays, so its groups were watched before
        rw [hkeep] at hrouter
        obtain ⟨rc, hrc, hwatched⟩ := h.groups router hrouter i g hg
        have hlt := (List.getElem?_eq_some_iff.mp hrc).1
        rcases hroutes (by rw [hrouter]; rfl) with hnil | ⟨_, hover⟩
        · rcases hwhy with heq | hnone | ⟨err, herr⟩
          · have hlen := routeGroupsEqual_length heq
            rw [hnil] at hlen
            simp only [List.length_nil] at hlen
            omega
          · rw [hnone] at hrouter
            cases hrouter
          · rw [hnil] at herr
            cases herr
        · obtain ⟨hlen, hget⟩ := List.forall₂_iff_get.mp hover
          refine ⟨new.routes[i], List.getElem?_eq_getElem (hlen ▸ hlt), hwatched.congr ?_ rfl⟩
          obtain ⟨_, rfl⟩ := List.getElem?_eq_some_iff.mp hrc
          exact hget i hlt (hlen ▸ hlt)
      · -- a new table that is allowed has no groups
        rw [hswap] at hrouter
        cases hrouter
        have hnil : new.routes = [] := by
          rcases hroutes hsome with hnil | ⟨heq, _⟩
          · exact hnil
          · exact absurd heq hdiff
        rw [hnil] at hms
        cases hms
        cases hg
    · exact (h.canary g hg).congr (hcanary (by change s.canary = some g at hg; rw [hg]; rfl)) rfl
  · have hrefl : ∀ a, SameOverrides a a := fun a url => rfl
    refine ⟨?_, fun router hrouter i g hg => ?_, fun g hg => ?_⟩
    · rw [hsame.cfg]
      exact h.balancer.congr (hrefl _) hsame.healthChks
    · rw [hsame.router] at hrouter
      obtain ⟨rc, hrc, hwatched⟩ := h.groups router hrouter i g hg
      rw [hsame.cfg]
      exact ⟨rc, hrc, hwatched.congr (hrefl _) hsame.healthChks⟩
    · rw [hsame.canary] at hg
      rw [hsame.cfg]
      exact (h.canary g hg).congr (hrefl _) hsame.healthChks

/-- With health checks, after reloads that make no new groups and change no override, every
balancer that a request can be given to has a checker of its own with the overrides of the loaded
backends. -/
theorem routable_backends_watched (cfg : LoadedConfig) (henabled : cfg.healthCheck.isSome)
    (calls : List LiveCall) (s : Live) (hok : Meets Live.step ChecksKept (newServer cfg) calls)
    (hr : exec Live.step (newServer cfg) calls = some s) :
    s.Watched none s.cfg.backends ∧
      (∀ router, s.router = some router → ∀ req g, router.route req = some g →
        ∃ (i : ℕ) (rc : RouteConfig), router.groups[i]? = some g ∧ s.cfg.routes[i]? = some rc ∧
          s.Watched (some g.addr) rc.backends) ∧
      ∀ g, s.canary = some g → s.Watched (some g.addr) s.cfg.canary.backends := by
  have h := exec_invariant (fun s c s' h hc hs => Live.AllWatched.step h hc hs) hok hr
    (allWatched_newServer henabled)
  refine ⟨h.balancer, fun router hrouter req g hg => ?_, h.canary⟩
  obtain ⟨i, hi⟩ := List.mem_iff_getElem?.mp (Router.route_mem_groups hg)
  obtain ⟨rc, hrc, hwatched⟩ := h.groups router hrouter i g hi
  exact ⟨i, rc, hi, hrc, hwatched⟩

def checkedRoute (url : String) : LoadedConfig where
  routes :=
    [{ backends :=
        [{ url := url, healthCheck := some { healthyThreshold := 1, unhealthyThreshold := 1 } }] }]
  healthCheck := some { healthyThreshold := 2, unhealthyThreshold := 3 }

/-- The same with two default backends, the first of which has a check of its own. -/
def checkedDefaults (url : String) : LoadedConfig :=
  { checkedRoute "http://r" with
    backends :=
      [{ url := "http://a", healthCheck := some { healthyThreshold := 4, unhealthyThreshold := 1 } },
      { url := url }] }

/-- Two reloads that exchange the other default backend, and one that fails between them. -/
theorem routable_backends_watched_exchanged :
    let calls : List LiveCall :=
      [.reload (some (checkedDefaults "http://c")), .reload none,
        .reload (some (checkedDefaults "http://d"))]
    ∃ s, exec Live.step (newServer (checkedDefaults "http://b")) calls = some s ∧
      s.balancer.offers.map Prod.fst = ["http://a", "http://d"] ∧ s.Watched none s.cfg.backends ∧
      (∀ router, s.router = some router → ∀ req g, router.route req = some g →
        ∃ (i : ℕ) (rc : RouteConfig), router.groups[i]? = some g ∧ s.cfg.routes[i]? = some rc ∧
          s.Watched (some g.addr) rc.backends) ∧
      ∀ g, s.canary = some g → s.Watched (some g.addr) s.cfg.canary.backends := by
  intro calls
  have hkept : ∀ (s : Live) (old new : String), s.cfg = checkedDefaults old →
      ChecksKept s (.reload (some (checkedDefaults new))) := by
    intro s old new hcfg
    have hequal : routeGroupsEqual (checkedRoute "http://r").routes (checkedRoute "http://r").routes :=
      by decide
    rw [ChecksKept, hcfg]
    exact ⟨fun _ => rfl, fun _ => .inr ⟨hequal, .cons (fun _ => rfl) .nil⟩, fun _ _ => rfl⟩
  obtain ⟨s, hs, hoffers⟩ :
      ∃ s, exec Live.step (newServer (checkedDefaults "http://b")) calls = some s ∧
      s.balancer.offers.map Prod.fst = ["http://a", "http://d"] := ⟨_, rfl, by decide +kernel⟩
  have hok : Meets Live.step ChecksKept (newServer (checkedDefaults "http://b")) calls := by
    refine ⟨hkept _ _ _ rfl, ?_⟩
    rintro _ ⟨⟩
    refine ⟨trivial, ?_⟩
    rintro _ ⟨⟩
    exact ⟨hkept _ _ _ rfl, fun _ _ => trivial⟩
  exact ⟨s, hs, hoffers, routable_backends_watched _ rfl calls s hok hs⟩

/-- A reload that gives the route another backend installs a group that no checker runs on. -/
theorem reload_leaves_unwatched :
    let calls : List LiveCall := [.reload (some (checkedRoute "http://q"))]
    ∃ s router g, exec Live.step (newServer (checkedRoute "http://r")) calls = some s ∧
      s.router = some router ∧ router.route {} = some g ∧
        ∀ c ∈ s.healthChks, c.balancer ≠ some g.addr := by
  refine ⟨_, _, _, rfl, rfl, rfl, ?_⟩
  decide

end ReverseProxyLb.Server

import ReverseProxyLb.Balancer.Algorithms
import ReverseProxyLb.Balancer.Members
import ReverseProxyLb.Base.Text
import ReverseProxyLb.Health.Checker
import ReverseProxyLb.Lib.Index
import Mathlib.Data.List.AList

/-! The first matcher that a request satisfies selects its group, and the default balancer
serves the rest. Tables built from the same routes select alike, in whatever order headers
are visited. -/
namespace ReverseProxyLb.Routing
open Health Lib Text

/-- A configured backend with its own health check, if it declares one. -/
structure BackendEntry extends BackendConfig where
  healthCheck : Option HealthCheckConfig := none

structure RouteConfig where
  host : String := ""
  pathPrefix : String := ""
  methods : List String := []
  /-- A map, listed in the order in which it is iterated. -/
  headers : List (String × String) := []
  algorithm : String := "round_robin"
  consistentHash : Options := { consistentHashReplicas := 100, consistentHashLoadFactor := 5 / 4 }
  backends : List BackendEntry

/-- A base balancer; the address tells balancers apart. -/
structure Group where
  addr : ℕ
  algorithm : Algorithm
  members : Members

def buildGroup (addr : ℕ) (algorithm : String) (consistentHash : Options)
    (backends : List BackendEntry) : Except String Group :=
  match newByAlgorithm algorithm consistentHash with
  | .error err => .error err
  | .ok alg =>
    .ok
      { addr := addr, algorithm := alg
        members := .build (backends.map BackendEntry.toBackendConfig) }

structure Request where
  host : String := ""
  /-- Empty if the request has no URL. -/
  path : String := ""
  method : String := "GET"
  header : Header := Header.ofList []

structure Matcher where
  host : String
  pathPrefix : String
  methods : List String
  headers : AList fun _ : String => String
  bal : Group

def Matcher.matches (m : Matcher) (req : Request) : Bool :=
  (m.host == "" || equalFold req.host m.host) &&
  (m.pathPrefix == "" || decide (m.pathPrefix.toList <+: req.path.toList)) &&
  (m.methods.isEmpty || m.methods.any fun meth => equalFold req.method meth) &&
  m.headers.entries.all fun h => req.header.get h.1 == h.2

/-- The headers by their canonical names; of two names with one canonical form the one
visited last counts. -/
def headerTable (headers : List (String × String)) : AList fun _ : String => String :=
  headers.foldl (fun table h => table.insert (canonicalHeaderKey h.1) h.2) ∅

def newMatcher (rc : RouteConfig) (bal : Group) : Matcher where
  host := toLower rc.host
  pathPrefix := rc.pathPrefix
  methods := rc.methods.map toUpper
  headers := headerTable rc.headers
  bal := bal

/-- The loop that `NewRouter` and `UpdateRoutes` share, with the address of the next balancer. -/
def newMatchers : ℕ → List RouteConfig → Except String (List Matcher × ℕ)
  | next, [] => .ok ([], next)
  | next, rc :: routes =>
    match buildGroup next rc.algorithm rc.consistentHash rc.backends with
    | .error err => .error err
    | .ok bal =>
      match newMatchers (next + 1) routes with
      | .error err => .error err
      | .ok (ms, next') => .ok (newMatcher rc bal :: ms, next')

structure Router where
  routes : List Matcher

/-- The group of the first match; `none` is the default balancer. -/
def Router.route (r : Router) (req : Request) : Option Group :=
  (r.routes.find? fun m => m.matches req).map Matcher.bal

def Router.groups (r : Router) : List Group := r.routes.map Matcher.bal

def newRouter (next : ℕ) (routes : List RouteConfig) : Except String (Router × ℕ) :=
  (newMatchers next routes).map fun built => ({ routes := built.1 }, built.2)

def matchedRoute (routes : List RouteConfig) (r : Router) (req : Request) : Option RouteConfig :=
  ((routes.zip r.routes).find? fun p => p.2.matches req).map Prod.fst

theorem Router.route_mem_groups {r : Router} {req : Request} {g : Group} (h : r.route req = some g) :
    g ∈ r.groups := by
  obtain ⟨m, hm, rfl⟩ := Option.map_eq_some_iff.mp h
  exact List.mem_map_of_mem (List.mem_of_find?_eq_some hm)

variable {rc a b : RouteConfig} {m m' : Matcher}

def RouteConfig.HeadersDistinct (rc : RouteConfig) : Prop :=
  (rc.headers.map fun h => canonicalHeaderKey h.1).Nodup

theorem lookup_headerTable (headers : List (String × String)) (name : String) :
    (headerTable headers).lookup name =
      (lastWith (fun h => canonicalHeaderKey h.1) name headers).map Prod.snd :=
  lookup_foldl_insert ..

def RouteConfig.HeadersAgree (rc : RouteConfig) : Prop :=
  ∀ h ∈ rc.headers, ∀ h' ∈ rc.headers, canonicalHeaderKey h.1 = canonicalHeaderKey h'.1 → h.2 = h'.2

theorem RouteConfig.HeadersDistinct.agree (h : rc.HeadersDistinct) : rc.HeadersAgree := by
  intro x hx y hy hxy
  rw [List.inj_on_of_nodup_map h hx hy hxy]

theorem lookup_headerTable_agree (h : rc.HeadersAgree) {order : List (String × String)}
    (horder : order.Perm rc.headers) (name want : String) :
    (headerTable order).lookup name = some want ↔
      ∃ h ∈ rc.headers, canonicalHeaderKey h.1 = name ∧ h.2 = want := by
  rw [lookup_headerTable, Option.map_eq_some_iff]
  constructor
  · rintro ⟨x, hlast, rfl⟩
    obtain ⟨hmem, hname⟩ := mem_of_lastWith hlast
    exact ⟨x, horder.subset hmem, hname, rfl⟩
  · rintro ⟨x, hmem, rfl, rfl⟩
    have hlisted : canonicalHeaderKey x.1 ∈ order.map fun h => canonicalHeaderKey h.1 :=
      List.mem_map.mpr ⟨x, horder.symm.subset hmem, rfl⟩
    obtain ⟨y, hlast⟩ := exists_lastWith hlisted
    obtain ⟨hy, hname⟩ := mem_of_lastWith hlast
    exact ⟨y, hlast, h y (horder.subset hy) x hmem hname⟩

/-- The matcher is one that is built for the route. -/
structure Built (rc : RouteConfig) (m : Matcher) : Prop where
  host : m.host = toLower rc.host
  pathPrefix : m.pathPrefix = rc.pathPrefix
  methods : m.methods = rc.methods.map toUpper
  headers : ∀ name want, m.headers.lookup name = some want ↔
    ∃ h ∈ rc.headers, canonicalHeaderKey h.1 = name ∧ h.2 = want
  algorithm : newByAlgorithm rc.algorithm rc.consistentHash = .ok m.bal.algorithm
  offers : m.bal.members.offers = rc.backends.map fun bc =>
    (bc.url, Int32.ofInt bc.weight, bc.maxConns)

/-- The routes agree in everything that routing reads; the headers as maps. -/
structure SameRoute (a b : RouteConfig) : Prop where
  host : a.host = b.host
  pathPrefix : a.pathPrefix = b.pathPrefix
  methods : a.methods = b.methods
  headers : a.headers.Perm b.headers
  algorithm : a.algorithm = b.algorithm
  consistentHash : a.consistentHash = b.consistentHash
  backends : (a.backends.map fun bc => (bc.url, bc.weight, bc.maxConns)) =
    b.backends.map fun bc => (bc.url, bc.weight, bc.maxConns)

theorem SameRoute.offers (h : SameRoute a b) :
    (a.backends.map fun bc => (bc.url, Int32.ofInt bc.weight, bc.maxConns)) =
      b.backends.map fun bc => (bc.url, Int32.ofInt bc.weight, bc.maxConns) := by
  have hstored := congrArg
    (List.map fun o : String × ℤ × ℤ => (o.1, Int32.ofInt o.2.1, o.2.2)) h.backends
  rw [List.map_map, List.map_map] at hstored
  exact hstored

theorem SameRoute.headersDistinct (h : SameRoute a b) (hd : a.HeadersDistinct) :
    b.HeadersDistinct := by
  have hperm := h.headers.map fun p : String × String => canonicalHeaderKey p.1
  exact hperm.nodup_iff.mp hd

theorem Built.congr (h : SameRoute a b) (hm : Built a m) : Built b m := by
  refine ⟨?_, ?_, ?_, fun name want => ?_, ?_, ?_⟩
  · rw [hm.host, h.host]
  · rw [hm.pathPrefix, h.pathPrefix]
  · rw [hm.methods, h.methods]
  · rw [hm.headers]
    simp only [h.headers.mem_iff]
  · rw [← h.algorithm, ← h.consistentHash]
    exact hm.algorithm
  · rw [hm.offers, h.offers]

theorem mem_entries_iff {table : AList fun _ : String => String} {h : Sigma fun _ : String => String} :
    h ∈ table.entries ↔ table.lookup h.1 = some h.2 :=
  AList.mem_lookup_iff.symm

theorem Built.matches_eq (hm : Built rc m) (hm' : Built rc m') (req : Request) :
    m.matches req = m'.matches req := by
  have hentry : ∀ h, h ∈ m.headers.entries ↔ h ∈ m'.headers.entries := by
    intro h
    rw [mem_entries_iff, mem_entries_iff, hm.headers, hm'.headers]
  have hall : (m.headers.entries.all fun h => req.header.get h.1 == h.2) =
      m'.headers.entries.all fun h => req.header.get h.1 == h.2 := by
    rw [Bool.eq_iff_iff, List.all_eq_true, List.all_eq_true]
    simp only [hentry]
  unfold Matcher.matches
  rw [hall, hm.host, hm.pathPrefix, hm.methods, hm'.host, hm'.pathPrefix, hm'.methods]

def validAlgorithms : List String :=
  ["round_robin", "least_conn", "weighted", "ip_hash", "swrr", "p2c", "weighted_least_conn",
    "weighted_random", "consistent_hash", "ewma"]

theorem newByAlgorithm_valid {name : String} (h : name ∈ validAlgorithms) (opts : Options) :
    ∃ alg, newByAlgorithm name opts = .ok alg := by
  simp only [validAlgorithms, List.mem_cons, List.not_mem_nil, or_false] at h
  rcases h with rfl | rfl | rfl | rfl | rfl | rfl | rfl | rfl | rfl | rfl <;> exact ⟨_, rfl⟩

theorem buildGroup_ok {addr : ℕ} {bal : Group}
    (h : buildGroup addr rc.algorithm rc.consistentHash rc.backends = .ok bal) :
    newByAlgorithm rc.algorithm rc.consistentHash = .ok bal.algorithm ∧
      bal.members.offers = rc.backends.map fun bc => (bc.url, Int32.ofInt bc.weight, bc.maxConns) := by
  unfold buildGroup at h
  cases halg : newByAlgorithm rc.algorithm rc.consistentHash with
  | error err =>
    rw [halg] at h
    cases h
  | ok alg =>
    rw [halg] at h
    cases h
    refine ⟨rfl, ?_⟩
    rw [Members.build_offers, List.map_map]
    rfl

theorem built_newMatcher (hd : rc.HeadersDistinct) {addr : ℕ} {bal : Group}
    (h : buildGroup addr rc.algorithm rc.consistentHash rc.backends = .ok bal) :
    Built rc (newMatcher rc bal) := by
  obtain ⟨halg, hoffers⟩ := buildGroup_ok h
  exact ⟨rfl, rfl, rfl, lookup_headerTable_agree hd.agree (.refl _), halg, hoffers⟩

theorem buildGroup_valid (addr : ℕ) (h : rc.algorithm ∈ validAlgorithms) :
    ∃ bal, buildGroup addr rc.algorithm rc.consistentHash rc.backends = .ok bal := by
  obtain ⟨alg, halg⟩ := newByAlgorithm_valid h rc.consistentHash
  unfold buildGroup
  rw [halg]
  exact ⟨_, rfl⟩

def Routable (routes : List RouteConfig) : Prop :=
  ∀ rc ∈ routes, rc.algorithm ∈ validAlgorithms ∧ rc.HeadersDistinct

theorem Routable.congr {routes routes' : List RouteConfig} (hs : List.Forall₂ SameRoute routes routes')
    (h : Routable routes) : Routable routes' := by
  induction hs with
  | nil => exact h
  | cons hab _ ih =>
    obtain ⟨⟨hvalid, hd⟩, hrest⟩ := List.forall_mem_cons.mp h
    exact List.forall_mem_cons.mpr ⟨⟨hab.algorithm ▸ hvalid, hab.headersDistinct hd⟩, ih hrest⟩

theorem newMatchers_length {routes : List RouteConfig} {next next' : ℕ} {ms : List Matcher}
    (h : newMatchers next routes = .ok (ms, next')) : ms.length = routes.length := by
  induction routes generalizing next ms with
  | nil =>
    cases h
    rfl
  | cons rc routes ih =>
    rw [newMatchers] at h
    cases hbal : buildGroup next rc.algorithm rc.consistentHash rc.backends with
    | error err =>
      rw [hbal] at h
      cases h
    | ok bal =>
      rw [hbal] at h
      cases hms : newMatchers (next + 1) routes with
      | error err =>
        simp only [hms] at h
        cases h
      | ok built =>
        simp only [hms] at h
        cases h
        exact congrArg (· + 1) (ih hms)

theorem newMatchers_built {routes : List RouteConfig} (h : Routable routes) (next : ℕ) :
    ∃ ms next', newMatchers next routes = .ok (ms, next') ∧ List.Forall₂ Built routes ms := by
  induction routes generalizing next with
  | nil => exact ⟨[], next, rfl, .nil⟩
  | cons rc routes ih =>
    obtain ⟨hvalid, hd⟩ := h rc (List.mem_cons_self ..)
    obtain ⟨bal, hbal⟩ := buildGroup_valid next hvalid
    obtain ⟨ms, next', hms, hbuilt⟩ := ih (fun rc hrc => h rc (List.mem_cons_of_mem _ hrc)) (next + 1)
    refine ⟨newMatcher rc bal :: ms, next', ?_, .cons (built_newMatcher hd hbal) hbuilt⟩
    rw [newMatchers, hbal]
    simp only [hms]

theorem built_congr {routes routes' : List RouteConfig} {ms : List Matcher}
    (hs : List.Forall₂ SameRoute routes routes') (h : List.Forall₂ Built routes ms) :
    List.Forall₂ Built routes' ms := by
  induction hs generalizing ms with
  | nil =>
    cases h
    exact .nil
  | cons hab _ ih =>
    cases h with
    | cons hm hms => exact .cons (hm.congr hab) (ih hms)

theorem route_of_built {routes : List RouteConfig} {ms ms' : List Matcher}
    (h : List.Forall₂ Built routes ms) (h' : List.Forall₂ Built routes ms') (req : Request) :
    (Router.route ⟨ms⟩ req = none ↔ Router.route ⟨ms'⟩ req = none) ∧
      ∀ g, Router.route ⟨ms⟩ req = some g → ∃ rc, matchedRoute routes ⟨ms'⟩ req = some rc ∧
        newByAlgorithm rc.algorithm rc.consistentHash = .ok g.algorithm ∧
        g.members.offers = rc.backends.map fun bc => (bc.url, Int32.ofInt bc.weight, bc.maxConns) := by
  induction h generalizing ms' with
  | nil =>
    cases h'
    exact ⟨Iff.rfl, fun g hg => nomatch hg⟩
  | @cons rc m routes ms hm _ ih =>
    cases h' with
    | @cons _ m' _ ms' hm' hms' =>
      have heq := hm.matches_eq hm' req
      unfold Router.route matchedRoute
      rw [List.zip_cons_cons, List.find?_cons, List.find?_cons, List.find?_cons, ← heq]
      cases hreq : m.matches req with
      | false => exact ih hms'
      | true =>
        refine ⟨by simp, fun g hg => ?_⟩
        obtain rfl : m.bal = g := Option.some.inj hg
        exact ⟨rc, rfl, hm.algorithm, hm.offers⟩

end ReverseProxyLb.Routing

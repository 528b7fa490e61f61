import ReverseProxyLb.Balancer.Selection
import ReverseProxyLb.Circuit.Breaker
import ReverseProxyLb.Proxy.Containment

/-! The backends of a group, their breaker and their balancer as the requests share them. In all
traffic any eligible backend can be the primary; to bring something about, the balancer has to
return it. -/
namespace ReverseProxyLb.Server
open Lib Proxy Circuit

structure Site where
  proxy : Settings
  breaker : CircuitBreaker
  deployment : Deployment
  sticky : Bool := false

structure Shared where
  now : ℤ := 0
  world : World := {}
  /-- The map `backendStates` of the breaker. -/
  records : Backend → Option BackendState := fun _ => none

namespace Shared

def clock (σ : Shared) : Clock := fun _ => σ.now

def cell (σ : Shared) (b : Backend) : Cell where
  record := σ.records b
  healthy := σ.world.healthy b

def setCell (σ : Shared) (b : Backend) (cell : Cell) : Shared :=
  { σ with
    world := { σ.world with healthy := Function.update σ.world.healthy b cell.healthy }
    records := Function.update σ.records b cell.record }

variable (site : Site)

def call (σ : Shared) (b : Backend) (k : Call) : Shared := σ.setCell b ((σ.cell b).step site.breaker k)

def observe (σ : Shared) (b : Backend) (ok : Bool) : Shared :=
  match site.deployment.outlier with
  | some od =>
    { σ with world := OutlierDetection.observeOutcome OutlierDetection.errRate od σ.now b ok σ.world }
  | none => σ

/-- The state after an operation with this answer, if it is the answer. What is not
shared is left to the environment. -/
def answer (σ : Shared) : (o : Op) → Ans o → Option Shared
  | .getHealthy, healthy => if healthy = σ.world.getHealthy then some σ else none
  | .getActiveConns b, conns => if conns = σ.world.getActiveConns b then some σ else none
  | .incrConn b, _ => some { σ with world := σ.world.incrConn b }
  | .decrConn b, _ => some { σ with world := σ.world.decrConn b }
  | .allow b, err =>
    if err = (σ.cell b).err site.breaker (.allow σ.clock) then some (σ.call site b (.allow σ.clock))
    else none
  | .recordSuccess b, _ => some (σ.call site b (.recordSuccess σ.clock))
  | .recordFailure b, _ => some (σ.call site b (.recordFailure σ.clock))
  | .observeOutcome b ok, _ => some (σ.observe site b ok)
  | _, _ => some σ

def serve (σ : Shared) : Label Op Ans → Option Shared
  | .main (.answer o a) | .spawned _ (.answer o a) => σ.answer site o a
  | _ => some σ

def reinstated (σ : Shared) : World := site.deployment.reinstated { σ.world with clock := σ.clock }

def eligible (σ : Shared) : List Backend :=
  site.deployment.stack.eligibleFrom (σ.reinstated site).getHealthy

/-- A state of the balancer that agrees with what is shared. -/
structure Shows (σ : Shared) (w : World) : Prop where
  backends : w.backends = σ.world.backends
  healthy : w.healthy = σ.world.healthy
  activeConns : w.activeConns = σ.world.activeConns
  weight : w.weight = σ.world.weight
  stats : w.stats = σ.world.stats
  clock : w.clock = σ.clock

/-- `Next`, or `NextForKey` for some key, returns the backend in some such state. -/
def Returns (σ : Shared) (b : Backend) : Prop :=
  ∃ w, σ.Shows w ∧ ((site.deployment.balancer.next w).1 = .backend b ∨
    ∃ f ∈ site.deployment.balancer.nextForKey, ∃ key, (f key w).1 = .backend b)

end Shared

/-- A group with the requests in flight, and those that have ended. -/
structure Traffic where
  shared : Shared := {}
  requests : List Handlers := []

inductive Move where
  | wait (t : ℕ)
  /-- A request whose sticky cookie names a healthy backend. -/
  | pinned (r : Request) (primary : Backend)
  | balanced (r : Request) (primary : Backend)
  | work (i : ℕ) (l : Label Op Ans)

namespace Traffic
variable (site : Site)

def start (s : Traffic) (w : World) (r : Request) (primary : Backend) : Traffic where
  shared := { s.shared with world := w.incrConn primary }
  requests := s.requests ++ [{ main := proxyRequest site.proxy w.backends r primary }]

def step (s : Traffic) : Move → Option Traffic
  | .wait t => some { s with shared := { s.shared with now := s.shared.now + t } }
  | .pinned r primary =>
    if site.sticky ∧ primary ∈ s.shared.world.getHealthy then
      some (s.start site s.shared.world r primary)
    else none
  | .balanced r primary =>
    if primary ∈ s.shared.eligible site then some (s.start site (s.shared.reinstated site) r primary)
    else none
  | .work i l =>
    match s.requests[i]? with
    | some pool => (Pool.step (hedgeAttempt site.proxy) pool l).bind fun pool' =>
        (s.shared.serve site l).map fun σ => { shared := σ, requests := s.requests.set i pool' }
    | none => none

inductive Steps (s : Traffic) : Move → Traffic → Prop
  | wait (t : ℕ) : Steps s (.wait t) { s with shared := { s.shared with now := s.shared.now + t } }
  | pinned {r : Request} {primary : Backend} (hsticky : site.sticky)
    (h : primary ∈ s.shared.world.getHealthy) :
      Steps s (.pinned r primary) (s.start site s.shared.world r primary)
  | balanced {r : Request} {primary : Backend} (h : primary ∈ s.shared.eligible site) :
      Steps s (.balanced r primary) (s.start site (s.shared.reinstated site) r primary)
  | work {i : ℕ} {l : Label Op Ans} {pool pool' : Handlers} {σ : Shared}
    (hi : s.requests[i]? = some pool)
      (hpool : Pool.step (hedgeAttempt site.proxy) pool l = some pool')
        (hσ : s.shared.serve site l = some σ) :
      Steps s (.work i l) { shared := σ, requests := s.requests.set i pool' }

theorem step_cases {site : Site} {s s' : Traffic} {m : Move} (h : s.step site m = some s') :
    Steps site s m s' := by
  cases m with
  | wait t =>
    cases h
    exact .wait t
  | pinned r primary =>
    simp only [step] at h
    split_ifs at h with hp
    cases h
    exact .pinned hp.1 hp.2
  | balanced r primary =>
    simp only [step] at h
    split_ifs at h with hp
    cases h
    exact .balanced hp
  | work i l =>
    simp only [step] at h
    split at h
    · next pool hi =>
      obtain ⟨pool', hpool, h⟩ := Option.bind_eq_some_iff.mp h
      obtain ⟨σ, hσ, rfl⟩ := Option.map_eq_some_iff.mp h
      exact .work hi hpool hσ
    · cases h

end Traffic

def Good : (o : Op) → Ans o → Prop
  | .proxyFor _, err => err = none
  | .serveHTTP _ _, reply =>
    match (show Reply from reply) with
    | .served none true code _ _ => responseClass code = .ok
    | _ => False
  | _, _ => True

def Move.Succeeds : Move → Prop
  | .work _ (.main (.answer o a)) | .work _ (.spawned _ (.answer o a)) => Good o a
  | _ => True

def Move.Returned (site : Site) (s : Traffic) : Move → Prop
  | .balanced _ primary => s.shared.Returns site primary
  | _ => True

end ReverseProxyLb.Server

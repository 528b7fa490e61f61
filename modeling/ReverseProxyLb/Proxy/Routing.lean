import ReverseProxyLb.Base.Text
import ReverseProxyLb.Proxy.Avoidance
import ReverseProxyLb.Lib.Interpret

/-! `ServeHTTP` fixes the balancer of a request and hands it to `proxyRequest`, whose helpers look
it up again. So handling a request is a program over operations that name a balancer. -/
namespace ReverseProxyLb.Proxy
open Lib Pool

/-- A balancer, with the optional interfaces that it implements. -/
structure Group where
  id : ℕ
  keyed : Bool := false
  observesLatency : Bool := false
  observesOutcome : Bool := false
  deriving DecidableEq, Repr

structure StickyConfig where
  enabled : Bool := false
  cookie : String := ""
  ttl : ℤ := 0

structure Cookie where
  name : String
  value : String
  path : String := "/"
  httpOnly : Bool := true
  sameSiteLax : Bool := true
  maxAge : ℤ := 0
  deriving DecidableEq, Repr

/-- The proxy, with `router` telling whether it has one. -/
structure Front where
  settings : Settings := {}
  balancer : Group
  router : Bool := false
  canary : Option Group := none
  sticky : StickyConfig := {}

/-- A request with what its context holds under `balancerCtxKey`. -/
structure Incoming where
  request : Request
  cookies : List (String × String) := []
  clientIP : String := ""
  balancerCtx : Option Group := none
  deriving DecidableEq, Repr

inductive FrontOp where
  | loadCanaryWeight
  | intn (n : ℤ)
  | incrCanaryRequest
  | route
  | next (g : Group)
  | nextForKey (g : Group) (key : String)
  | getHealthy (g : Group)
  | observeOutcome (g : Group) (b : Backend) (ok : Bool)
  | observeLatency (g : Group) (b : Backend)
  | setCookie (c : Cookie)
  /-- An operation that does not depend on the balancer. -/
  | plain (o : Op)
  deriving DecidableEq

@[reducible] def FrontAns : FrontOp → Type
  | .loadCanaryWeight => ℤ
  | .intn _ => ℤ
  | .route => Option Group
  | .next _ => Except String (Option Backend)
  | .nextForKey _ _ => Except String (Option Backend)
  | .getHealthy _ => List Backend
  | .plain o => Ans o
  | _ => Unit

abbrev Serve := Prog FrontOp FrontAns (Incoming × Backend) HedgeResult

abbrev FrontEvent := Event FrontOp FrontAns (Incoming × Backend) HedgeResult

abbrev FrontEntry := Entry FrontOp FrontAns (Incoming × Backend) HedgeResult

/-- `fnv.New64a`. -/
def fnv64a (data : List UInt8) : UInt64 :=
  data.foldl (fun h c => (h ^^^ c.toUInt64) * 1099511628211) 14695981039346656037

/-- `hex.EncodeToString` of the eight bytes, the most significant first. -/
def encodeToString (h : UInt64) : String :=
  String.ofList ((List.range 16).map fun i => Nat.digitChar (h.toNat / 16 ^ (15 - i) % 16))

def backendToken (b : Backend) : String := encodeToString (fnv64a b.url.toUTF8.data.toList)

namespace Front
variable (F : Front)

def route : Serve Group := do
  if F.router then
    match ← (.perform FrontOp.route : Serve (Option Group)) with
    | some b => pure b
    | none => pure F.balancer
  else pure F.balancer

def balancerFor (r : Incoming) : Serve Group :=
  match r.balancerCtx with
  | some b => pure b
  | none => F.route

def rollCanary : Serve Bool := do
  let n ← (.perform (FrontOp.intn 100) : Serve ℤ)
  let weight ← (.perform FrontOp.loadCanaryWeight : Serve ℤ)
  pure (decide (n < weight))

def canaryFor : Serve (Option Group) :=
  match F.canary with
  | none => pure none
  | some canary => do
    let weight ← (.perform FrontOp.loadCanaryWeight : Serve ℤ)
    if 0 < weight then do
      if ← rollCanary then pure (some canary) else pure none
    else pure none

/-- The first part of `ServeHTTP`: the request with its balancer on the context. -/
def pin (r : Incoming) : Serve Incoming := do
  match ← F.canaryFor with
  | some canary => do
    (.perform FrontOp.incrCanaryRequest : Serve Unit)
    pure { r with request := { r.request with canary := true }, balancerCtx := some canary }
  | none => do
    let b ← F.route
    pure { r with balancerCtx := some b }

def stickyToken (r : Incoming) : String :=
  if F.sticky.cookie = "" then "" else (r.cookies.lookup F.sticky.cookie).getD ""

def backendForToken (r : Incoming) (token : String) : Serve (Option Backend) := do
  let b ← F.balancerFor r
  let healthy ← (.perform (FrontOp.getHealthy b) : Serve (List Backend))
  pure (healthy.find? fun b => backendToken b = token)

/-- `NextForKey` if the balancer has it, else `Next`. -/
def nextFrom (b : Group) (key : String) : Serve (Except String (Option Backend)) :=
  if b.keyed then .perform (FrontOp.nextForKey b key) else .perform (FrontOp.next b)

def selectBackend (r : Incoming) : Serve (Except String (Option Backend)) := do
  let b ← F.balancerFor r
  if F.sticky.enabled then
    let token := F.stickyToken r
    match ← (if token ≠ "" then F.backendForToken r token else pure none) with
    | some be => do
      (.perform (FrontOp.plain (.incrConn be)) : Serve Unit)
      pure (.ok (some be))
    | none => nextFrom b (if token = "" then r.clientIP else token)
  else nextFrom b r.clientIP

/-- `http.SetCookie`: a cookie whose name is no token is dropped. -/
def setCookie (c : Cookie) : Serve Unit :=
  if Text.isToken c.name then .perform (FrontOp.setCookie c) else pure ()

def setStickyCookie (backend : Option Backend) : Serve Unit :=
  if F.sticky.cookie = "" then pure ()
  else match backend with
    | none => .panic
    | some b => setCookie
        { name := F.sticky.cookie, value := backendToken b
          maxAge := if 0 < F.sticky.ttl then F.sticky.ttl / Time.second else 0 }

/-- The operations of `proxyRequest` for a request with this context. -/
def carryOut (r : Incoming) : (o : Op) → Serve (Ans o)
  | .getHealthy => do
    let b ← F.balancerFor r
    (.perform (FrontOp.getHealthy b) : Serve (List Backend))
  | .observeOutcome backend ok => do
    let b ← F.balancerFor r
    if b.observesOutcome then (.perform (FrontOp.observeOutcome b backend ok) : Serve Unit)
      else pure ()
  | .observeLatency backend => do
    let b ← F.balancerFor r
    if b.observesLatency then (.perform (FrontOp.observeLatency b backend) : Serve Unit) else pure ()
  | o => .perform (FrontOp.plain o)

def onBehalf {α : Type} (r : Incoming) (prog : Act α) : Serve α :=
  prog.interpret (F.carryOut r) fun b => (r, b)

def attempt (t : Incoming × Backend) : Serve Unit := F.onBehalf t.1 (hedgeAttempt F.settings t.2)

/-- `proxyRequest`, with what becomes of a nil primary. -/
def proxyPrimary (group : List Backend) (r : Incoming) : Option Backend → Serve Unit
  | some primary => F.onBehalf r (proxyRequest F.settings group r.request primary)
  | none =>
    if hedgeEnabled F.settings && isIdempotent r.request then .panic
    else F.onBehalf r (giveUp r.request none false)

/-- The rest of `ServeHTTP`. -/
def serve (group : List Backend) (r : Incoming) : Serve Unit := do
  match ← F.selectBackend r with
  | .error _ => do
    (.perform (FrontOp.plain (.count .incrError)) : Serve Unit)
    (.perform (FrontOp.plain (.httpError serviceUnavailable "No available backends")) : Serve Unit)
  | .ok backend => do
    if F.sticky.enabled then F.setStickyCookie backend
    F.proxyPrimary group r backend

def serveHTTP (group : List Backend) (r : Incoming) : Serve Unit := F.pin r >>= F.serve group

end Front
end ReverseProxyLb.Proxy

import ReverseProxyLb.Balancer.Backend
import ReverseProxyLb.Base.Number
import ReverseProxyLb.Lib.Pool

/-! Request handling as a program over the operations by which it touches anything shared.
What these return is up to the environment, so a run stands for any interleaving and any
upstream. -/
namespace ReverseProxyLb.Proxy
open Lib

/-- The class of an attempt; `empty` is the empty string. -/
inductive Class where
  | empty
  | ok
  | serverError
  | connect
  | timeout
  deriving DecidableEq, Repr

/-- What the error tests of the proxy can tell about an upstream error. -/
structure UpstreamError where
  deadlineExceeded : Bool := false
  canceled : Bool := false
  /-- The attempt's own context has passed its deadline. -/
  ctxDeadline : Bool := false
  netTimeout : Bool := false
  dial : Bool := false
  connRefused : Bool := false
  deriving DecidableEq, Repr

def isConnectError (err : UpstreamError) : Bool := err.dial || err.connRefused

def classifyError (err : UpstreamError) : Class :=
  if err.deadlineExceeded || err.canceled then .timeout
  else if err.ctxDeadline then .timeout
  else if err.netTimeout then .timeout
  else if isConnectError err then .connect
  else .connect

structure Request where
  method : String
  idempotencyKey : String := ""
  canary : Bool := false
  deriving DecidableEq, Repr

def idempotentMethods : List String := ["GET", "HEAD", "PUT", "DELETE", "OPTIONS", "TRACE"]

def isIdempotent (r : Request) : Bool :=
  if idempotentMethods.contains r.method then true else r.idempotencyKey != ""

structure HedgeConfig where
  enabled : Bool := false
  maxExtra : ℤ := 0

structure RetryConfig where
  maxAttempts : ℤ := 0
  budget : ℚ := 0
  honorRetryAfter : Bool := false
  maxBackoff : ℤ := 0
  hedge : HedgeConfig := {}

/-- The settings of a proxy; `circuitBreaker` tells whether it has one. -/
structure Settings where
  circuitBreaker : Bool := false
  tripOn : Class → Bool := fun c => c = .connect ∨ c = .timeout
  retryOn : Class → Bool := fun c => c = .connect ∨ c = .timeout
  retryConfig : RetryConfig := {}

/-- Where an attempt writes its response. -/
inductive Writer where
  | client
  | recorder
  deriving DecidableEq, Repr

/-- What was written to a response writer besides the status code. -/
structure Content where
  header : List (String × String) := []
  body : String := ""
  deriving DecidableEq, Repr

/-- It panicked with `ErrAbortHandler`, or it returned with an error or a response in the
capturing writer. -/
inductive Reply where
  | panicked (wrote : Bool)
  | served (err : Option UpstreamError) (wrote : Bool) (statusCode : ℤ) (retryAfter : ℤ)
      (content : Content := {})
  deriving DecidableEq, Repr

inductive Counter where
  | retryReqs
  | retryCount
  | budgetDenied
  | rejections
  | hedged
  | hedgeWins
  | incrError
  | incrCanaryError
  | incrRetry
  | backendError (b : Backend)
  | backendLatency (b : Backend)
  deriving DecidableEq

/-- Points of the program that the statements about it refer to; they do nothing. -/
inductive Note where
  /-- The failover loop turns to a backend. -/
  | visit (b : Backend)
  /-- The hedged path gives up after it was admitted to the primary. -/
  | fellBack (primary : Backend)
  /-- The hedged path ends with extras that it was admitted to and never launched. -/
  | unlaunched (extras : List Backend)
  deriving DecidableEq

inductive Op where
  | getHealthy
  | getActiveConns (b : Backend)
  | incrConn (b : Backend)
  | decrConn (b : Backend)
  | allow (b : Backend)
  | recordSuccess (b : Backend)
  | recordFailure (b : Backend)
  | observeOutcome (b : Backend) (ok : Bool)
  | observeLatency (b : Backend)
  | recordBackendRequest (b : Backend)
  | proxyFor (b : Backend)
  | serveHTTP (w : Writer) (b : Backend)
  | loadRetryCount
  | loadRetryReqs
  | int63n (n : ℤ)
  | sleep (d : ℤ)
  | count (c : Counter)
  | httpError (code : ℤ) (msg : String)
  | writeResponse (code : ℤ) (content : Content)
  | note (n : Note)
  deriving DecidableEq

@[reducible] def Ans : Op → Type
  | .getHealthy => List Backend
  | .getActiveConns _ => ℤ
  | .allow _ => Option String
  | .proxyFor _ => Option UpstreamError
  | .serveHTTP _ _ => Reply
  | .loadRetryCount => ℕ
  | .loadRetryReqs => ℕ
  | .int63n _ => ℤ
  | _ => Unit

/-- A private recorder, as `httptest.NewRecorder` makes it. -/
structure Recorder where
  code : ℤ := 200
  content : Content := {}
  deriving DecidableEq, Repr

/-- The buffered outcome of a hedge attempt. -/
structure HedgeResult where
  backend : Backend
  recorder : Recorder := {}
  err : Option UpstreamError := none
  cls : Class := .empty
  deriving DecidableEq

abbrev Act := Prog Op Ans Backend HedgeResult

abbrev Happening := Event Op Ans Backend HedgeResult

section Operations

def getHealthy : Act (List Backend) := .perform Op.getHealthy
def getActiveConns (b : Backend) : Act ℤ := .perform (Op.getActiveConns b)
def incrConn (b : Backend) : Act Unit := .perform (Op.incrConn b)
def decrConn (b : Backend) : Act Unit := .perform (Op.decrConn b)
def allow (b : Backend) : Act (Option String) := .perform (Op.allow b)
def recordSuccess (b : Backend) : Act Unit := .perform (Op.recordSuccess b)
def recordFailure (b : Backend) : Act Unit := .perform (Op.recordFailure b)
def observeOutcome (b : Backend) (ok : Bool) : Act Unit := .perform (Op.observeOutcome b ok)
def observeLatency (b : Backend) : Act Unit := .perform (Op.observeLatency b)
def recordBackendRequest (b : Backend) : Act Unit := .perform (Op.recordBackendRequest b)
def proxyFor (b : Backend) : Act (Option UpstreamError) := .perform (Op.proxyFor b)
def serveHTTP (w : Writer) (b : Backend) : Act Reply := .perform (Op.serveHTTP w b)
def loadRetryCount : Act ℕ := .perform Op.loadRetryCount
def loadRetryReqs : Act ℕ := .perform Op.loadRetryReqs
def int63n (n : ℤ) : Act ℤ := .perform (Op.int63n n)
def sleep (d : ℤ) : Act Unit := .perform (Op.sleep d)
def count (c : Counter) : Act Unit := .perform (Op.count c)
def httpError (code : ℤ) (msg : String) : Act Unit := .perform (Op.httpError code msg)
def writeResponse (code : ℤ) (content : Content) : Act Unit := .perform (Op.writeResponse code content)
def note (n : Note) : Act Unit := .perform (Op.note n)
def launch (b : Backend) : Act Unit := .fork b (.ret ())
def sendResult (hr : HedgeResult) : Act Unit := .send hr (.ret ())
def recvResult : Act HedgeResult := .recv .ret
def selectResult : Act (Option HedgeResult) := .select .ret

end Operations

variable (p : Settings)

def badGateway : ℤ := 502
def serviceUnavailable : ℤ := 503

def retryBudgetFloor : ℕ := 10

def allowRetry : Act Bool :=
  if p.retryConfig.budget ≤ 0 then pure true
  else do
    let retries ← loadRetryCount
    if retries < retryBudgetFloor then pure true
    else do
      let reqs ← loadRetryReqs
      if reqs = 0 then pure true
      else pure (decide (float64 (float64 retries / float64 reqs) < p.retryConfig.budget))

def backoffCeiling : ℕ → ℤ → ℤ
  | 0, ceiling => ceiling
  | n + 1, ceiling =>
    let ceiling := (ceiling * 2).bmod (2 ^ 64)
    if ceiling ≤ 0 then 2 ^ 62 else backoffCeiling n ceiling

def calculateBackoff (attempt : ℕ) : Act ℤ :=
  if attempt < 1 then pure 0
  else
    let ceiling := backoffCeiling (attempt - 1) Time.second
    let maxBackoff := p.retryConfig.maxBackoff
    let ceiling := if 0 < maxBackoff ∧ maxBackoff < ceiling then maxBackoff else ceiling
    if ceiling ≤ 0 then pure 0 else int63n (ceiling + 1)

def sleepBackoff (attempt : ℕ) (retryAfter : ℤ) : Act Unit := do
  let d ← calculateBackoff p attempt
  let cap := p.retryConfig.maxBackoff
  let d := if 0 < retryAfter then (if 0 < cap ∧ cap < retryAfter then cap else retryAfter) else d
  if 0 < d then sleep d else pure ()

/-- The error, the class, whether the client has seen anything, and the delay the upstream asked
for. -/
structure Attempted where
  err : Option UpstreamError
  cls : Class
  written : Bool
  retryAfter : ℤ := 0

def responseClass (statusCode : ℤ) : Class :=
  if 500 ≤ statusCode ∧ statusCode ≤ 599 then .serverError else .ok

def doRequest (b : Backend) : Act Attempted := do
  recordBackendRequest b
  match ← proxyFor b with
  | some err => pure { err := some err, cls := .connect, written := false }
  | none =>
    match ← serveHTTP .client b with
    | .panicked _ => .panic
    | .served err wrote statusCode retryAfter _ => do
      count (.backendLatency b)
      match err with
      | some err => pure { err := some err, cls := classifyError err, written := wrote }
      | none => do
        let cls := responseClass statusCode
        if cls = .ok then observeLatency b
        pure { err := none, cls := cls, written := wrote
               retryAfter := if p.retryConfig.honorRetryAfter then retryAfter else 0 }

/-- The budget gate before a retry; `false` ends the loop. -/
def beforeRetry (attempt : ℕ) (lastRetryAfter : ℤ) : Act Bool :=
  if attempt = 0 then pure true
  else do
    if ← allowRetry p then do
      count .retryCount
      count .incrRetry
      sleepBackoff p attempt lastRetryAfter
      pure true
    else do
      count .budgetDenied
      pure false

/-- The attempts on one backend, with `n` rounds to go. -/
def attemptLoop (b : Backend) : ℕ → ℕ → Attempted → Act Attempted
  | 0, _, last => pure { last with written := false }
  | n + 1, attempt, last => do
    if ← beforeRetry p attempt last.retryAfter then do
      let res ← doRequest p b
      match res.err with
      | none => pure res
      | some _ => do
        count (.backendError b)
        if res.written then pure res
        else if !p.retryOn res.cls then pure { res with written := false }
        else attemptLoop b n (attempt + 1) res
    else pure { last with written := false }

def attemptBackend (r : Request) (b : Backend) : Act Attempted :=
  Prog.deferring (decrConn b) do
    count .retryReqs
    let maxRetries := if isIdempotent r then p.retryConfig.maxAttempts else 0
    attemptLoop p b (maxRetries + 1).toNat 0 { err := none, cls := .empty, written := false }

end ReverseProxyLb.Proxy

import ReverseProxyLb.Proxy.Attempt

/-! The failover loop over the backends of the group, and the hedged path that races the
primary against extras. The loops run on fuel; `group` bounds the failover loop. -/
namespace ReverseProxyLb.Proxy
open Lib

variable (p : Settings)

/-- `http.StatusText`, for the two codes the proxy generates. -/
def badGatewayText : String := "Bad Gateway"
def serviceUnavailableText : String := "Service Unavailable"

def atCapacity (b : Backend) : Act Bool :=
  if 0 < b.maxConns then do
    let conns ← getActiveConns b
    pure (decide (b.maxConns < conns))
  else pure false

def isFull (b : Backend) : Act Bool :=
  if 0 < b.maxConns then do
    let conns ← getActiveConns b
    pure (decide (b.maxConns ≤ conns))
  else pure false

def admitted (b : Backend) : Act Bool :=
  if p.circuitBreaker then do
    let err ← allow b
    pure err.isNone
  else pure true

def available (b : Backend) : Act Bool := do
  if ← atCapacity b then pure false else admitted p b

def recordCircuit (b : Backend) (cls : Class) : Act Unit :=
  if p.circuitBreaker then
    if cls ≠ .empty ∧ p.tripOn cls then recordFailure b else recordSuccess b
  else pure ()

/-- The loop of `reserveAlternate`. -/
def reserveUntried (tried : List Backend) : List Backend → Act (Option Backend)
  | [] => pure none
  | b :: rest =>
    if b ∈ tried then reserveUntried tried rest
    else do
      if ← isFull b then reserveUntried tried rest
      else do
        incrConn b
        pure (some b)

def reserveAlternate (tried : List Backend) : Act (Option Backend) := do
  let healthy ← getHealthy
  reserveUntried tried healthy

def countError (r : Request) : Act Unit := do
  count .incrError
  if r.canary then count .incrCanaryError else pure ()

def giveUp (r : Request) (lastErr : Option UpstreamError) (bulkheadBlocked : Bool) : Act Unit := do
  countError r
  if lastErr.isSome then httpError badGateway badGatewayText
  else if bulkheadBlocked then do
    count .rejections
    httpError serviceUnavailable serviceUnavailableText
  else httpError serviceUnavailable "No available backends"

/-- What a round of the failover loop decides: stop, give up, or try the next one. -/
inductive Verdict where
  | done
  | stop (lastErr : Option UpstreamError)
  | next (lastErr : Option UpstreamError) (bulkheadBlocked : Bool)

def visit (r : Request) (backend : Backend) (lastErr : Option UpstreamError) (bulkheadBlocked : Bool) :
    Act Verdict := do
  note (.visit backend)
  if ← available p backend then do
    let res ← attemptBackend p r backend
    observeOutcome backend res.err.isNone
    recordCircuit p backend res.cls
    match res.err with
    | none => pure .done
    | some err =>
      if res.written then do
        countError r
        pure .done
      else if !isIdempotent r && !isConnectError err then pure (.stop (some err))
      else pure (.next (some err) bulkheadBlocked)
  else do
    let full ← atCapacity backend
    decrConn backend
    pure (.next lastErr (if full then true else bulkheadBlocked))

def failover (r : Request) : ℕ → Backend → List Backend → Option UpstreamError → Bool → Act Unit
  | 0, _, _, _, _ => .diverge
  | fuel + 1, backend, tried, lastErr, bulkheadBlocked => do
    match ← visit p r backend lastErr bulkheadBlocked with
    | .done => pure ()
    | .stop lastErr => giveUp r lastErr bulkheadBlocked
    | .next lastErr bulkheadBlocked => do
      match ← reserveAlternate (backend :: tried) with
      | none => giveUp r lastErr bulkheadBlocked
      | some b => failover r fuel b (backend :: tried) lastErr bulkheadBlocked

def sequential (group : List Backend) (r : Request) (primary : Backend) : Act Unit :=
  failover p r (group.length + 1) primary [] none false

def hedgeEnabled : Bool := p.retryConfig.hedge.enabled && decide (0 < p.retryConfig.hedge.maxExtra)

/-- The loop of `reserveHedgeBackends`. -/
def reserveHedges (primary : Backend) (n : ℤ) : List Backend → List Backend → Act (List Backend)
  | out, [] => pure out
  | out, b :: rest =>
    if n ≤ out.length then pure out
    else if b = primary then reserveHedges primary n out rest
    else do
      if ← isFull b then reserveHedges primary n out rest
      else do
        if ← admitted p b then do
          incrConn b
          reserveHedges primary n (out ++ [b]) rest
        else reserveHedges primary n out rest

def reserveHedgeBackends (primary : Backend) (n : ℤ) : Act (List Backend) := do
  let healthy ← getHealthy
  reserveHedges p primary n [] healthy

def doHedgeAttempt (b : Backend) : Act (Attempted × Recorder) := do
  recordBackendRequest b
  match ← proxyFor b with
  | some err => pure ({ err := some err, cls := .connect, written := false }, {})
  | none =>
    match ← serveHTTP .recorder b with
    | .panicked _ => .panic
    | .served err wrote statusCode _ content => do
      count (.backendLatency b)
      let recorder : Recorder := { code := if wrote then statusCode else 200, content := content }
      match err with
      | some err => pure ({ err := some err, cls := classifyError err, written := wrote }, recorder)
      | none => do
        let cls := responseClass statusCode
        if cls = .ok then observeLatency b
        pure ({ err := none, cls := cls, written := wrote }, recorder)

/-- The goroutine that `launch` starts. -/
def hedgeAttempt (b : Backend) : Act Unit := do
  let (res, recorder) ← doHedgeAttempt b
  observeOutcome b res.err.isNone
  recordCircuit p b res.cls
  decrConn b
  sendResult { backend := b, recorder := recorder, err := res.err, cls := res.cls }

def isHedgeWin (hr : HedgeResult) : Bool := hr.err.isNone

structure Race where
  winner : Option HedgeResult := none
  pending : ℕ
  extrasLaunched : Bool := false

def launchExtras : List Backend → Act Unit
  | [] => pure ()
  | b :: rest => do
    count .hedged
    launch b
    launchExtras rest

/-- The loop labelled `collect`. -/
def collect (extras : List Backend) : ℕ → Race → Act Race
  | 0, _ => .diverge
  | fuel + 1, race =>
    if race.pending = 0 then pure race
    else if race.extrasLaunched then do
      let hr ← recvResult
      let winner := if race.winner.isNone && isHedgeWin hr then some hr else race.winner
      collect extras fuel { race with pending := race.pending - 1, winner := winner }
    else do
      match ← selectResult with
      | none => do
        launchExtras extras
        collect extras fuel
          { race with pending := race.pending + extras.length, extrasLaunched := true }
      | some hr =>
        if race.winner.isNone && isHedgeWin hr then
          pure { race with pending := race.pending - 1, winner := some hr }
        else do
          launchExtras extras
          collect extras fuel
            { race with pending := race.pending - 1 + extras.length, extrasLaunched := true }

def drain : ℕ → Option HedgeResult → Act (Option HedgeResult)
  | 0, winner => pure winner
  | pending + 1, winner => do
    let hr ← recvResult
    drain pending (if winner.isNone && isHedgeWin hr then some hr else winner)

def releaseAll : List Backend → Act Unit
  | [] => pure ()
  | b :: rest => do
    decrConn b
    releaseAll rest

def copyRecorded (recorder : Recorder) : Act Unit :=
  writeResponse (if recorder.code = 0 then 200 else recorder.code) recorder.content

def finishHedge (primary : Backend) : Option HedgeResult → Act Unit
  | some hr => do
    if hr.backend ≠ primary then count .hedgeWins
    copyRecorded hr.recorder
  | none => do
    count .incrError
    httpError badGateway badGatewayText

def hedge (primary : Backend) (extras : List Backend) : Act Unit := do
  launch primary
  let race ← collect extras (extras.length + 3) { pending := 1 }
  let winner ← drain race.pending race.winner
  if race.extrasLaunched then pure ()
  else do
    note (.unlaunched extras)
    releaseAll extras
  finishHedge primary winner

def proxyRequestHedged (primary : Backend) : Act Bool := do
  if ← available p primary then do
    let extras ← reserveHedgeBackends p primary p.retryConfig.hedge.maxExtra
    if extras = [] then do
      note (.fellBack primary)
      pure false
    else do
      hedge primary extras
      pure true
  else pure false

def proxyRequest (group : List Backend) (r : Request) (primary : Backend) : Act Unit := do
  if hedgeEnabled p && isIdempotent r then do
    if ← proxyRequestHedged p primary then pure () else sequential p group r primary
  else sequential p group r primary

end ReverseProxyLb.Proxy

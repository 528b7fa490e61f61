import Mathlib.Tactic
import ReverseProxyLb.Base.Number

/-! Every call of the breaker touches one record under its lock, so a call is a function of that
record, the health flag and the clock. The hook calls are part of its result. -/
namespace ReverseProxyLb.Circuit

inductive State where
  | stateClosed
  | stateOpen
  | stateHalfOpen
  deriving DecidableEq, Repr

inductive Mode where
  | modeConsecutive
  | modeRolling
  deriving DecidableEq, Repr

structure Config where
  mode : Mode
  failureThreshold : ℤ
  successThreshold : ℤ
  timeout : ℤ
  rollingWindow : ℤ
  errorRateThreshold : ℚ
  minRequests : ℤ

/-- The parameters of a breaker. The last field tells whether a state-change hook is registered.
-/
structure CircuitBreaker where
  mode : Mode
  failureThreshold : ℤ
  successThreshold : ℤ
  timeout : ℤ
  rollingWindow : ℤ
  errorRateThreshold : ℚ
  minRequests : ℤ
  onStateChange : Bool := false
  failureThreshold_pos : 1 ≤ failureThreshold
  successThreshold_pos : 1 ≤ successThreshold
  rollingWindow_pos : 0 < rollingWindow
  errorRateThreshold_pos : 0 < errorRateThreshold
  errorRateThreshold_le : errorRateThreshold ≤ 1
  minRequests_pos : 0 < minRequests

def rollingBuckets : ℕ := 10

def newCircuitBreakerWithConfig (cfg : Config) : CircuitBreaker where
  mode := cfg.mode
  failureThreshold := if cfg.failureThreshold < 1 then 1 else cfg.failureThreshold
  successThreshold := if cfg.successThreshold < 1 then 1 else cfg.successThreshold
  timeout := cfg.timeout
  rollingWindow := if cfg.rollingWindow ≤ 0 then 10 * Time.second else cfg.rollingWindow
  errorRateThreshold :=
    if cfg.errorRateThreshold ≤ 0 ∨ 1 < cfg.errorRateThreshold then 1 / 2 else cfg.errorRateThreshold
  minRequests := if cfg.minRequests ≤ 0 then 20 else cfg.minRequests
  failureThreshold_pos := by split <;> omega
  successThreshold_pos := by split <;> omega
  rollingWindow_pos := by simp only [Time.second]; split <;> omega
  errorRateThreshold_pos := by
    split_ifs with h
    · norm_num
    · exact not_le.mp (fun hle => h (.inl hle))
  errorRateThreshold_le := by
    split_ifs with h
    · norm_num
    · exact not_lt.mp (fun hlt => h (.inr hlt))
  minRequests_pos := by split <;> omega

def CircuitBreaker.setOnStateChange (c : CircuitBreaker) (hook : Bool) : CircuitBreaker :=
  { c with onStateChange := hook }

structure Bucket where
  start : ℤ := 0
  successes : ℤ := 0
  failures : ℤ := 0
  deriving DecidableEq, Repr

/-- The record the breaker keeps for a backend. An empty `buckets` is the nil slice. -/
structure BackendState where
  state : State := .stateClosed
  failures : ℤ := 0
  successes : ℤ := 0
  halfOpenInFlight : ℤ := 0
  lastFailure : ℤ := 0
  closedAt : ℤ := 0
  buckets : List Bucket := []
  deriving DecidableEq, Repr

/-- The record, the argument of `SetHealthy` if it was called, those of the pending hook call, and
the error. -/
structure CallResult where
  record : BackendState
  setHealthy : Option Bool := none
  pending : Option (State × State) := none
  err : Option String := none
  deriving DecidableEq, Repr

variable (c : CircuitBreaker)

def maxProbes : ℤ := if c.successThreshold < 1 then 1 else c.successThreshold

/-- The notification pair before `transition` fills it in. -/
def noNotify : State × State := (.stateClosed, .stateClosed)

def transition (st : BackendState) (dest : State) (notify : State × State) :
    BackendState × (State × State) :=
  if st.state = dest then (st, notify) else ({ st with state := dest }, (st.state, dest))

def recordWindow (now : ℤ) (st : BackendState) (success : Bool) : BackendState :=
  let buckets := if st.buckets.isEmpty then List.replicate rollingBuckets {} else st.buckets
  let bucketDur := c.rollingWindow.tdiv rollingBuckets
  let bucketDur := if bucketDur ≤ 0 then 1 else bucketDur
  let idx := ((Time.unixNano now).tdiv bucketDur).tmod rollingBuckets
  let idx := if idx < 0 then idx + rollingBuckets else idx
  let b := buckets.getD idx.toNat {}
  let b := if c.rollingWindow ≤ Time.sub now b.start ∨ Time.isZero b.start
    then { start := now, successes := 0, failures := 0 } else b
  let b := if success then { b with successes := b.successes + 1 }
    else { b with failures := b.failures + 1 }
  { st with buckets := buckets.set idx.toNat b }

def windowTotals (now : ℤ) (st : BackendState) : ℤ × ℤ :=
  st.buckets.foldl (fun acc b =>
    if Time.isZero b.start then acc
    else if c.rollingWindow ≤ Time.sub now b.start then acc
    else (acc.1 + (b.successes + b.failures), acc.2 + b.failures)) (0, 0)

def rollingShouldTrip (now : ℤ) (st : BackendState) : Bool :=
  let (total, failures) := windowTotals c now st
  if total < c.minRequests then false
  else decide (c.errorRateThreshold < float64 (float64 failures / float64 total))

def resetWindow (st : BackendState) : BackendState := { st with buckets := [] }

def allow (now : Clock) (st : BackendState) : CallResult :=
  match st.state with
  | .stateOpen =>
    if c.timeout ≤ Time.sub (now 0) st.lastFailure then
      let (st, pending) := transition st .stateHalfOpen noNotify
      { record := { st with successes := 0, halfOpenInFlight := 1 }, pending := some pending }
    else { record := st, err := some "circuit breaker is open" }
  | .stateHalfOpen =>
    if maxProbes c ≤ st.halfOpenInFlight then
      { record := st, err := some "circuit breaker is half-open (probe limit reached)" }
    else { record := { st with halfOpenInFlight := st.halfOpenInFlight + 1 } }
  | .stateClosed => { record := st }

def recordSuccess (now : Clock) (st : BackendState) : CallResult :=
  match st.state with
  | .stateHalfOpen =>
    let st := if 0 < st.halfOpenInFlight
      then { st with halfOpenInFlight := st.halfOpenInFlight - 1 } else st
    let st := { st with successes := st.successes + 1 }
    if c.successThreshold ≤ st.successes then
      let (st, pending) := transition st .stateClosed noNotify
      let st := { st with failures := 0, successes := 0, halfOpenInFlight := 0, closedAt := now 0 }
      { record := resetWindow st, setHealthy := some true, pending := some pending }
    else { record := st }
  | .stateClosed =>
    let st := { st with failures := 0, successes := 0 }
    if c.mode = .modeRolling then { record := recordWindow c (now 0) st true } else { record := st }
  | .stateOpen => { record := st }

def recordFailure (now : Clock) (st : BackendState) : CallResult :=
  let st := { st with failures := st.failures + 1, lastFailure := now 0 }
  if st.state = .stateHalfOpen then
    -- a failure during recovery re-opens the circuit immediately
    let (st, pending) := transition st .stateOpen noNotify
    { record := { st with successes := 0, halfOpenInFlight := 0 }, setHealthy := some false,
      pending := some pending }
  else if c.mode = .modeRolling then
    let st := recordWindow c (now 1) st false
    if st.state = .stateClosed ∧ rollingShouldTrip c (now 2) st then
      let (st, pending) := transition st .stateOpen noNotify
      { record := st, setHealthy := some false, pending := some pending }
    else { record := st }
  else if st.state = .stateClosed ∧ c.failureThreshold ≤ st.failures then
    let (st, pending) := transition st .stateOpen noNotify
    { record := st, setHealthy := some false, pending := some pending }
  else { record := st }

/-- `forceOpen` of the Redis syncer: counters are left alone. -/
def forceOpen (now : Clock) (st : BackendState) : CallResult :=
  if st.state = .stateOpen then { record := st }
  else
    let (st, pending) := transition st .stateOpen noNotify
    { record := { st with lastFailure := now 0 }, setHealthy := some false, pending := some pending }

inductive Call where
  | allow (now : Clock)
  | recordSuccess (now : Clock)
  | recordFailure (now : Clock)
  | forceOpen (now : Clock)
  | reset

/-- Its entry in `backendStates`, absent until the first call and after `Reset`, and its health
flag. -/
structure Cell where
  record : Option BackendState := none
  healthy : Bool := true
  deriving DecidableEq, Repr

namespace Cell

/-- `stateFor`: a missing record is a fresh closed one. -/
def stateFor (cell : Cell) : BackendState := cell.record.getD {}

def getState (cell : Cell) : State := cell.stateFor.state

def apply (cell : Cell) (r : CallResult) : Cell where
  record := some r.record
  healthy := r.setHealthy.getD cell.healthy

end Cell

/-- The result of a call that is not `Reset`. -/
def Call.result (k : Call) (st : BackendState) : Option CallResult :=
  match k with
  | .allow now => some (Circuit.allow c now st)
  | .recordSuccess now => some (Circuit.recordSuccess c now st)
  | .recordFailure now => some (Circuit.recordFailure c now st)
  | .forceOpen now => some (Circuit.forceOpen now st)
  | .reset => none

def Cell.step (cell : Cell) (k : Call) : Cell :=
  match k.result c cell.stateFor with
  | some r => cell.apply r
  | none => { cell with record := none }

def Cell.hooks (cell : Cell) (k : Call) : List (State × State) :=
  match k.result c cell.stateFor with
  | some r => if c.onStateChange then r.pending.toList else []
  | none => []

def Cell.err (cell : Cell) (k : Call) : Option String :=
  (k.result c cell.stateFor).bind CallResult.err

end ReverseProxyLb.Circuit

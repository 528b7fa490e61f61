import ReverseProxyLb.Circuit.Breaker

/-! Runs of arbitrary calls on one backend. The counters are shared between the states and
not all reset on every transition, so each is related to the history only in the state that
reads it. -/
namespace ReverseProxyLb.Circuit

variable {c : CircuitBreaker} {now : Clock} {st : BackendState}

section Window

@[simp] theorem recordWindow_state (t : ℤ) (ok : Bool) :
    (recordWindow c t st ok).state = st.state := rfl

end Window

theorem maxProbes_eq : maxProbes c = c.successThreshold := by
  have h := c.successThreshold_pos
  simp only [maxProbes]
  split <;> omega

theorem allow_of_closed (h : st.state = .stateClosed) : allow c now st = { record := st } := by
  simp [allow, h]

theorem allow_of_expired (h : st.state = .stateOpen)
    (ht : c.timeout ≤ Time.sub (now 0) st.lastFailure) :
    allow c now st =
      { record := { st with state := .stateHalfOpen, successes := 0, halfOpenInFlight := 1 },
        pending := some (.stateOpen, .stateHalfOpen) } := by
  simp [allow, h, ht, transition]

theorem allow_of_waiting (h : st.state = .stateOpen)
    (ht : ¬ c.timeout ≤ Time.sub (now 0) st.lastFailure) :
    allow c now st = { record := st, err := some "circuit breaker is open" } := by
  simp [allow, h, ht]

theorem allow_of_halfOpen (h : st.state = .stateHalfOpen) :
    allow c now st = if c.successThreshold ≤ st.halfOpenInFlight then
      { record := st, err := some "circuit breaker is half-open (probe limit reached)" }
      else { record := { st with halfOpenInFlight := st.halfOpenInFlight + 1 } } := by
  simp [allow, h, maxProbes_eq]

theorem recordSuccess_of_open (h : st.state = .stateOpen) :
    recordSuccess c now st = { record := st } := by
  simp [recordSuccess, h]

theorem recordSuccess_of_closed (c : CircuitBreaker) (now : Clock) (h : st.state = .stateClosed) :
    ∃ st', recordSuccess c now st = { record := st' } ∧
      st'.state = .stateClosed ∧ st'.failures = 0 := by
  let st₁ := { st with failures := 0, successes := 0 }
  by_cases hm : c.mode = .modeRolling
  · exact ⟨recordWindow c (now 0) st₁ true, by simp [recordSuccess, h, hm, st₁], h, rfl⟩
  · exact ⟨st₁, by simp [recordSuccess, h, hm, st₁], h, rfl⟩

theorem recordSuccess_of_halfOpen (h : st.state = .stateHalfOpen) :
    recordSuccess c now st =
      if c.successThreshold ≤ st.successes + 1 then
        { record := { state := .stateClosed, lastFailure := st.lastFailure, closedAt := now 0 },
          setHealthy := some true, pending := some (.stateHalfOpen, .stateClosed) }
      else
        { record := { st with
            halfOpenInFlight := if 0 < st.halfOpenInFlight then st.halfOpenInFlight - 1
              else st.halfOpenInFlight
            successes := st.successes + 1 } } := by
  by_cases hp : 0 < st.halfOpenInFlight <;> by_cases hs : c.successThreshold ≤ st.successes + 1 <;>
    simp [recordSuccess, h, hp, hs, transition, resetWindow]

theorem recordFailure_of_halfOpen (h : st.state = .stateHalfOpen) :
    recordFailure c now st =
      { record := { st with
          state := .stateOpen
          failures := st.failures + 1
          lastFailure := now 0
          successes := 0
          halfOpenInFlight := 0 }
        setHealthy := some false
        pending := some (.stateHalfOpen, .stateOpen) } := by
  simp [recordFailure, h, transition]

theorem recordFailure_of_open (c : CircuitBreaker) (now : Clock) (h : st.state = .stateOpen) :
    ∃ st', recordFailure c now st = { record := st' } ∧ st'.state = .stateOpen := by
  let st₁ := { st with failures := st.failures + 1, lastFailure := now 0 }
  by_cases hm : c.mode = .modeRolling
  · exact ⟨recordWindow c (now 1) st₁ false, by simp [recordFailure, h, hm, st₁], h⟩
  · exact ⟨st₁, by simp [recordFailure, h, hm, st₁], h⟩

theorem recordFailure_of_closed (c : CircuitBreaker) (now : Clock) (h : st.state = .stateClosed) :
    ∃ st', st'.failures = st.failures + 1 ∧
      ((recordFailure c now st = { record := { st' with state := .stateOpen }
                                   setHealthy := some false
                                   pending := some (.stateClosed, .stateOpen) } ∧
        (c.mode = .modeConsecutive → c.failureThreshold ≤ st.failures + 1)) ∨
       (recordFailure c now st = { record := st' } ∧ st'.state = .stateClosed ∧
        (c.mode = .modeConsecutive → st.failures + 1 < c.failureThreshold))) := by
  let st₁ := { st with failures := st.failures + 1, lastFailure := now 0 }
  by_cases hm : c.mode = .modeRolling
  · refine ⟨recordWindow c (now 1) st₁ false, rfl, ?_⟩
    by_cases ht : rollingShouldTrip c (now 2) (recordWindow c (now 1) st₁ false)
    · left
      refine ⟨?_, by simp [hm]⟩
      simp only [recordFailure, h, hm, recordWindow_state, st₁, transition] at ht ⊢
      simp [ht]
    · right
      refine ⟨?_, h, by simp [hm]⟩
      simp only [recordFailure, h, hm, recordWindow_state, st₁] at ht ⊢
      simp [ht]
  · refine ⟨st₁, rfl, ?_⟩
    by_cases ht : c.failureThreshold ≤ st.failures + 1
    · left
      exact ⟨by simp [recordFailure, h, hm, ht, transition, st₁], fun _ => ht⟩
    · right
      exact ⟨by simp [recordFailure, h, hm, ht, st₁], h, fun _ => by omega⟩

theorem forceOpen_of_open (h : st.state = .stateOpen) : forceOpen now st = { record := st } := by
  simp [forceOpen, h]

theorem forceOpen_of_ne (h : st.state ≠ .stateOpen) :
    forceOpen now st =
      { record := { st with state := .stateOpen, lastFailure := now 0 }, setHealthy := some false,
        pending := some (st.state, .stateOpen) } := by
  simp [forceOpen, h, transition]

namespace Cell
variable (cell : Cell)

@[simp] theorem stateFor_apply (r : CallResult) : (cell.apply r).stateFor = r.record := rfl

@[simp] theorem getState_apply (r : CallResult) : (cell.apply r).getState = r.record.state := rfl

@[simp] theorem healthy_apply (r : CallResult) :
    (cell.apply r).healthy = r.setHealthy.getD cell.healthy := rfl

theorem step_allow (c : CircuitBreaker) (now : Clock) :
    cell.step c (.allow now) = cell.apply (allow c now cell.stateFor) := rfl

theorem step_recordSuccess (c : CircuitBreaker) (now : Clock) :
    cell.step c (.recordSuccess now) = cell.apply (recordSuccess c now cell.stateFor) := rfl

theorem step_recordFailure (c : CircuitBreaker) (now : Clock) :
    cell.step c (.recordFailure now) = cell.apply (recordFailure c now cell.stateFor) := rfl

theorem step_forceOpen :
    cell.step c (.forceOpen now) = cell.apply (forceOpen now cell.stateFor) := rfl

theorem step_reset : cell.step c .reset = { cell with record := none } := rfl

def run (c : CircuitBreaker) (cell : Cell) (calls : List Call) : Cell :=
  calls.foldl (Cell.step c) cell

@[simp] theorem run_snoc (calls : List Call) (k : Call) :
    cell.run c (calls ++ [k]) = (cell.run c calls).step c k := by
  simp [run]

end Cell

/-- A call together with the states it was made in and left behind. -/
structure Entry where
  call : Call
  pre : State
  post : State

def history (c : CircuitBreaker) : Cell → List Call → List Entry
  | _, [] => []
  | cell, k :: ks => ⟨k, cell.getState, (cell.step c k).getState⟩ :: history c (cell.step c k) ks

theorem history_snoc (cell : Cell) (calls : List Call) (k : Call) :
    history c cell (calls ++ [k]) = history c cell calls ++
      [⟨k, (cell.run c calls).getState, ((cell.run c calls).step c k).getState⟩] := by
  induction calls generalizing cell with
  | nil => rfl
  | cons k' ks ih =>
    simp only [List.cons_append, history, ih]
    rfl

def Call.isReset : Call → Bool
  | .reset => true
  | _ => false

/-- `Reset` drops the record, so it enters the closed state anew. -/
def Entry.entersClosed (e : Entry) : Bool :=
  e.post = .stateClosed && (e.pre ≠ .stateClosed || e.call.isReset)

def Entry.entersHalfOpen (e : Entry) : Bool :=
  e.post = .stateHalfOpen && e.pre ≠ .stateHalfOpen

/-- The number of failures recorded, with no success among them, since the closed
state was last entered. -/
def failureRun (h : List Entry) : ℕ :=
  h.foldl (fun n e =>
    if e.entersClosed then 0 else
      match e.call with
      | .recordSuccess _ => 0
      | .recordFailure _ => n + 1
      | _ => n) 0

def episodeSuccesses (h : List Entry) : ℕ :=
  h.foldl (fun n e =>
    if e.entersHalfOpen then 0 else
      match e.call with
      | .recordSuccess _ => n + 1
      | _ => n) 0

theorem failureRun_snoc (h : List Entry) (e : Entry) :
    failureRun (h ++ [e]) = if e.entersClosed then 0 else
      match e.call with
      | .recordSuccess _ => 0
      | .recordFailure _ => failureRun h + 1
      | _ => failureRun h := by
  simp [failureRun]

theorem episodeSuccesses_snoc (h : List Entry) (e : Entry) :
    episodeSuccesses (h ++ [e]) = if e.entersHalfOpen then 0 else
      match e.call with
      | .recordSuccess _ => episodeSuccesses h + 1
      | _ => episodeSuccesses h := by
  simp [episodeSuccesses]

/-- What the counters of a record mean, given how it came about. -/
structure Inv (c : CircuitBreaker) (h : List Entry) (cell : Cell) : Prop where
  failures : cell.getState = .stateClosed → cell.stateFor.failures = failureRun h
  untripped : cell.getState = .stateClosed → c.mode = .modeConsecutive →
    cell.stateFor.failures < c.failureThreshold
  inFlight : cell.getState = .stateHalfOpen →
    0 ≤ cell.stateFor.halfOpenInFlight ∧ cell.stateFor.halfOpenInFlight ≤ c.successThreshold
  successes : cell.getState = .stateHalfOpen →
    cell.stateFor.successes = episodeSuccesses h ∧ cell.stateFor.successes < c.successThreshold

theorem inv_start (healthy : Bool) : Inv c [] { healthy := healthy } where
  failures _ := rfl
  untripped _ _ := c.failureThreshold_pos
  inFlight h := by cases h
  successes h := by cases h

variable {h : List Entry} {cell : Cell}

theorem inv_of_open (ho : cell.getState = .stateOpen) : Inv c h cell where
  failures hs := by simp [ho] at hs
  untripped hs := by simp [ho] at hs
  inFlight hs := by simp [ho] at hs
  successes hs := by simp [ho] at hs

theorem inv_closed {h' : List Entry} (hc : cell.getState = .stateClosed)
    (hf : cell.stateFor.failures = failureRun h')
    (ht : c.mode = .modeConsecutive → cell.stateFor.failures < c.failureThreshold) :
    Inv c h' cell where
  failures _ := hf
  untripped _ := ht
  inFlight hs := by simp [hc] at hs
  successes hs := by simp [hc] at hs

theorem inv_halfOpen {h' : List Entry} (hc : cell.getState = .stateHalfOpen)
    (hp : 0 ≤ cell.stateFor.halfOpenInFlight ∧ cell.stateFor.halfOpenInFlight ≤ c.successThreshold)
    (hs : cell.stateFor.successes = episodeSuccesses h' ∧
      cell.stateFor.successes < c.successThreshold) :
    Inv c h' cell where
  failures hc' := by simp [hc] at hc'
  untripped hc' := by simp [hc] at hc'
  inFlight _ := hp
  successes _ := hs

def extend (c : CircuitBreaker) (h : List Entry) (cell : Cell) (k : Call) : List Entry :=
  h ++ [⟨k, cell.getState, (cell.step c k).getState⟩]

theorem inv_allow (hi : Inv c h cell) :
    Inv c (extend c h cell (.allow now)) (cell.step c (.allow now)) := by
  have hpos := c.successThreshold_pos
  cases hs : cell.getState with
  | stateClosed =>
    have he : cell.step c (.allow now) = cell.apply { record := cell.stateFor } := by
      rw [Cell.step_allow, allow_of_closed hs]
    refine inv_closed (by rw [he]; exact hs) ?_ (fun hm => ?_)
    · simp [extend, failureRun_snoc, Entry.entersClosed, Call.isReset, hs, he, hi.failures hs]
    · simpa [he] using hi.untripped hs hm
  | stateOpen =>
    by_cases ht : c.timeout ≤ Time.sub (now 0) cell.stateFor.lastFailure
    · have he := Cell.step_allow cell c now
      rw [allow_of_expired hs ht] at he
      refine inv_halfOpen (by rw [he]; rfl) (by simp [he]; omega) ?_
      simp [extend, episodeSuccesses_snoc, Entry.entersHalfOpen, hs, he]
      omega
    · rw [Cell.step_allow, allow_of_waiting hs ht]
      exact inv_of_open hs
  | stateHalfOpen =>
    have he := Cell.step_allow cell c now
    rw [allow_of_halfOpen hs] at he
    have hp := hi.inFlight hs
    have hq := hi.successes hs
    split at he
    · refine inv_halfOpen (by rw [he]; exact hs) (by simpa [he] using hp) ?_
      simpa [extend, episodeSuccesses_snoc, Entry.entersHalfOpen, hs, he] using hq
    · refine inv_halfOpen (by rw [he]; exact hs) (by simp [he]; omega) ?_
      simpa [extend, episodeSuccesses_snoc, Entry.entersHalfOpen, hs, he] using hq

theorem inv_recordSuccess (hi : Inv c h cell) :
    Inv c (extend c h cell (.recordSuccess now)) (cell.step c (.recordSuccess now)) := by
  cases hs : cell.getState with
  | stateClosed =>
    obtain ⟨st', hr, hst, hf⟩ := recordSuccess_of_closed c now hs
    have he := Cell.step_recordSuccess cell c now
    rw [hr] at he
    refine inv_closed (by rw [he]; exact hst) ?_ (fun _ => ?_)
    · simp [extend, failureRun_snoc, he, hf]
    · simp only [he, Cell.stateFor_apply, hf]
      exact c.failureThreshold_pos
  | stateOpen =>
    rw [Cell.step_recordSuccess, recordSuccess_of_open hs]
    exact inv_of_open hs
  | stateHalfOpen =>
    have he := Cell.step_recordSuccess cell c now
    rw [recordSuccess_of_halfOpen hs] at he
    have hp := hi.inFlight hs
    have hq := hi.successes hs
    split at he
    · refine inv_closed (by rw [he]; rfl) ?_ (fun _ => ?_)
      · simp [extend, failureRun_snoc, he]
      · simp only [he, Cell.stateFor_apply]
        exact c.failureThreshold_pos
    · refine inv_halfOpen (by rw [he]; exact hs) ?_ ?_
      · simp only [he, Cell.stateFor_apply]
        split <;> omega
      · simp [extend, episodeSuccesses_snoc, Entry.entersHalfOpen, hs, he]
        omega

theorem inv_recordFailure (hi : Inv c h cell) :
    Inv c (extend c h cell (.recordFailure now)) (cell.step c (.recordFailure now)) := by
  cases hs : cell.getState with
  | stateClosed =>
    obtain ⟨st', hf, ⟨hr, -⟩ | ⟨hr, hst, ht⟩⟩ := recordFailure_of_closed c now hs
    · rw [Cell.step_recordFailure, hr]
      exact inv_of_open rfl
    · have he := Cell.step_recordFailure cell c now
      rw [hr] at he
      refine inv_closed (by rw [he]; exact hst) ?_ (fun hm => ?_)
      · simp [extend, failureRun_snoc, Entry.entersClosed, Call.isReset, hs, he, hf, hi.failures hs]
      · simpa [he, hf] using ht hm
  | stateOpen =>
    obtain ⟨st', hr, hst⟩ := recordFailure_of_open c now hs
    rw [Cell.step_recordFailure, hr]
    exact inv_of_open hst
  | stateHalfOpen =>
    rw [Cell.step_recordFailure, recordFailure_of_halfOpen hs]
    exact inv_of_open rfl

theorem inv_forceOpen : Inv c (extend c h cell (.forceOpen now)) (cell.step c (.forceOpen now)) := by
  by_cases hs : cell.getState = .stateOpen
  · rw [Cell.step_forceOpen, forceOpen_of_open hs]
    exact inv_of_open hs
  · rw [Cell.step_forceOpen, forceOpen_of_ne hs]
    exact inv_of_open rfl

theorem inv_reset : Inv c (extend c h cell .reset) (cell.step c .reset) := by
  refine inv_closed rfl ?_ (fun _ => c.failureThreshold_pos)
  rw [extend, failureRun_snoc]
  simp [Entry.entersClosed, Call.isReset, Cell.step_reset, Cell.getState, Cell.stateFor]

theorem inv_step (hi : Inv c h cell) (k : Call) : Inv c (extend c h cell k) (cell.step c k) := by
  cases k with
  | allow now => exact inv_allow hi
  | recordSuccess now => exact inv_recordSuccess hi
  | recordFailure now => exact inv_recordFailure hi
  | forceOpen now => exact inv_forceOpen
  | reset => exact inv_reset

theorem inv_run (healthy : Bool) (calls : List Call) :
    Inv c (history c { healthy := healthy } calls) (Cell.run c { healthy := healthy } calls) := by
  induction calls using List.reverseRecOn with
  | nil => exact inv_start healthy
  | append_singleton calls k ih =>
    rw [history_snoc, Cell.run_snoc]
    exact inv_step ih k

/-- The half-open state is left for the closed one by this call only if it is the
last success the episode needs. -/
def ClosesBySuccess (c : CircuitBreaker) (h : List Entry) (k : Call) : Prop :=
  (∃ now, k = .recordSuccess now) ∧ episodeSuccesses h + 1 = c.successThreshold

/-- What the call `k`, made on `cell` after the history `h`, may do. -/
structure Conforms (c : CircuitBreaker) (h : List Entry) (cell : Cell) (k : Call) : Prop where
  /-- The half-open counters stay in their ranges. -/
  probes : (cell.step c k).getState = .stateHalfOpen →
    0 ≤ (cell.step c k).stateFor.halfOpenInFlight ∧
    (cell.step c k).stateFor.halfOpenInFlight ≤ c.successThreshold ∧
    0 ≤ (cell.step c k).stateFor.successes ∧
    (cell.step c k).stateFor.successes < c.successThreshold
  /-- In consecutive mode exactly the failure that completes the run trips. -/
  trips : c.mode = .modeConsecutive → cell.getState = .stateClosed →
    ∀ now, k = .recordFailure now →
      ((cell.step c k).getState = .stateOpen ↔ failureRun h + 1 = c.failureThreshold)
  /-- The closed state is left only for the open one, by a failure or by force. -/
  leavesClosed : cell.getState = .stateClosed → (cell.step c k).getState ≠ .stateClosed →
    (cell.step c k).getState = .stateOpen ∧
      ∃ now, k = .recordFailure now ∨ k = .forceOpen now
  /-- The open state is left by `Reset`, or for a probe once the timeout is over. -/
  leavesOpen : cell.getState = .stateOpen → (cell.step c k).getState ≠ .stateOpen →
    k = .reset ∨ ∃ now, k = .allow now ∧ c.timeout ≤ Time.sub (now 0) cell.stateFor.lastFailure ∧
      (cell.step c k).getState = .stateHalfOpen
  /-- Recovery needs all the successes of the episode, unless it is forced. -/
  recovers : cell.getState = .stateHalfOpen → (cell.step c k).getState = .stateClosed →
    k = .reset ∨ ClosesBySuccess c h k
  /-- The first failure of an episode, or a forced opening, ends it. -/
  reopens : cell.getState = .stateHalfOpen →
    ∀ now, k = .recordFailure now ∨ k = .forceOpen now → (cell.step c k).getState = .stateOpen
  /-- Entering the open state marks the backend unhealthy. -/
  unhealthy : cell.getState ≠ .stateOpen → (cell.step c k).getState = .stateOpen →
    (cell.step c k).healthy = false
  /-- The hook sees every transition except `Reset`, once, with its two ends. -/
  notifies : c.onStateChange = true → cell.hooks c k =
    if k.isReset ∨ cell.getState = (cell.step c k).getState then []
    else [(cell.getState, (cell.step c k).getState)]

theorem result_moves {k : Call} {r : CallResult} (hr : k.result c st = some r) :
    (r.record.state = st.state ∧ r.pending = none) ∨
    (r.record.state ≠ st.state ∧ r.pending = some (st.state, r.record.state) ∧
      (r.record.state = .stateOpen → r.setHealthy = some false)) := by
  cases k with
  | allow now =>
    obtain rfl : allow c now st = r := Option.some.inj hr
    cases hs : st.state with
    | stateClosed => rw [allow_of_closed hs]; exact .inl ⟨hs, rfl⟩
    | stateOpen =>
      by_cases ht : c.timeout ≤ Time.sub (now 0) st.lastFailure
      · rw [allow_of_expired hs ht]; exact .inr (by simp)
      · rw [allow_of_waiting hs ht]; exact .inl ⟨hs, rfl⟩
    | stateHalfOpen => rw [allow_of_halfOpen hs]; split <;> exact .inl ⟨hs, rfl⟩
  | recordSuccess now =>
    obtain rfl : recordSuccess c now st = r := Option.some.inj hr
    cases hs : st.state with
    | stateClosed =>
      obtain ⟨st', hr', hst, -⟩ := recordSuccess_of_closed c now hs
      rw [hr']; exact .inl ⟨hst, rfl⟩
    | stateOpen => rw [recordSuccess_of_open hs]; exact .inl ⟨hs, rfl⟩
    | stateHalfOpen =>
      rw [recordSuccess_of_halfOpen hs]
      split
      · exact .inr (by simp)
      · exact .inl ⟨hs, rfl⟩
  | recordFailure now =>
    obtain rfl : recordFailure c now st = r := Option.some.inj hr
    cases hs : st.state with
    | stateClosed =>
      obtain ⟨st', -, ⟨hr', -⟩ | ⟨hr', hst, -⟩⟩ := recordFailure_of_closed c now hs
      · rw [hr']; exact .inr (by simp)
      · rw [hr']; exact .inl ⟨hst, rfl⟩
    | stateOpen =>
      obtain ⟨st', hr', hst⟩ := recordFailure_of_open c now hs
      rw [hr']; exact .inl ⟨hst, rfl⟩
    | stateHalfOpen => rw [recordFailure_of_halfOpen hs]; exact .inr (by simp)
  | forceOpen now =>
    obtain rfl : forceOpen now st = r := Option.some.inj hr
    by_cases hs : st.state = .stateOpen
    · rw [forceOpen_of_open hs]; exact .inl ⟨rfl, rfl⟩
    · rw [forceOpen_of_ne hs]; exact .inr ⟨fun h => hs h.symm, rfl, fun _ => rfl⟩
  | reset => cases hr

theorem step_of_result {k : Call} {r : CallResult} (hr : k.result c cell.stateFor = some r) :
    cell.step c k = cell.apply r := by
  simp [Cell.step, hr]

theorem result_of_not_reset {k : Call} (hk : k.isReset = false) (st : BackendState) :
    ∃ r, k.result c st = some r := by
  cases k <;> first | exact ⟨_, rfl⟩ | cases hk

theorem step_unhealthy (k : Call) (hpre : cell.getState ≠ .stateOpen)
    (hpost : (cell.step c k).getState = .stateOpen) : (cell.step c k).healthy = false := by
  cases hk : k.isReset with
  | true => cases k <;> cases hk; cases hpost
  | false =>
    obtain ⟨r, hr⟩ := result_of_not_reset (c := c) hk cell.stateFor
    rw [step_of_result hr] at hpost ⊢
    obtain ⟨hst, -⟩ | ⟨-, -, hh⟩ := result_moves hr
    · exact absurd (hst.symm.trans hpost) hpre
    · simp [hh hpost]

theorem step_notifies (k : Call) (hook : c.onStateChange = true) : cell.hooks c k =
    if k.isReset ∨ cell.getState = (cell.step c k).getState then []
    else [(cell.getState, (cell.step c k).getState)] := by
  cases hk : k.isReset with
  | true => cases k <;> cases hk; rfl
  | false =>
    obtain ⟨r, hr⟩ := result_of_not_reset (c := c) hk cell.stateFor
    rw [step_of_result hr]
    obtain ⟨hst, hp⟩ | ⟨hst, hp, -⟩ := result_moves hr
    · simp [Cell.hooks, hr, hook, hp, hst, Cell.getState]
    · have hne : ¬ cell.getState = r.record.state := fun he => hst he.symm
      simp only [Cell.hooks, hr, hook, hp, Cell.getState_apply, hne, if_true, or_self, if_false,
        Option.toList_some, Bool.false_eq_true]
      rfl

theorem leaves_closed (k : Call) (hpre : cell.getState = .stateClosed)
    (hpost : (cell.step c k).getState ≠ .stateClosed) :
    (cell.step c k).getState = .stateOpen ∧ ∃ now, k = .recordFailure now ∨ k = .forceOpen now := by
  cases k with
  | allow now =>
    rw [Cell.step_allow, allow_of_closed hpre] at hpost
    exact absurd hpre hpost
  | recordSuccess now =>
    obtain ⟨st', hr, hst, -⟩ := recordSuccess_of_closed c now hpre
    rw [Cell.step_recordSuccess, hr] at hpost
    exact absurd hst hpost
  | recordFailure now =>
    obtain ⟨st', -, ⟨hr, -⟩ | ⟨hr, hst, -⟩⟩ := recordFailure_of_closed c now hpre
    · exact ⟨by rw [Cell.step_recordFailure, hr]; rfl, now, .inl rfl⟩
    · rw [Cell.step_recordFailure, hr] at hpost
      exact absurd hst hpost
  | forceOpen now =>
    refine ⟨?_, now, .inr rfl⟩
    rw [Cell.step_forceOpen, forceOpen_of_ne (fun ho => by simp [Cell.getState, ho] at hpre)]
    rfl
  | reset => exact absurd rfl hpost

theorem leaves_open (k : Call) (hpre : cell.getState = .stateOpen)
    (hpost : (cell.step c k).getState ≠ .stateOpen) :
    k = .reset ∨ ∃ now, k = .allow now ∧ c.timeout ≤ Time.sub (now 0) cell.stateFor.lastFailure ∧
      (cell.step c k).getState = .stateHalfOpen := by
  cases k with
  | allow now =>
    by_cases ht : c.timeout ≤ Time.sub (now 0) cell.stateFor.lastFailure
    · exact .inr ⟨now, rfl, ht, by rw [Cell.step_allow, allow_of_expired hpre ht]; rfl⟩
    · rw [Cell.step_allow, allow_of_waiting hpre ht] at hpost
      exact absurd hpre hpost
  | recordSuccess now =>
    rw [Cell.step_recordSuccess, recordSuccess_of_open hpre] at hpost
    exact absurd hpre hpost
  | recordFailure now =>
    obtain ⟨st', hr, hst⟩ := recordFailure_of_open c now hpre
    rw [Cell.step_recordFailure, hr] at hpost
    exact absurd hst hpost
  | forceOpen now =>
    rw [Cell.step_forceOpen, forceOpen_of_open hpre] at hpost
    exact absurd hpre hpost
  | reset => exact .inl rfl

theorem leaves_halfOpen (hi : Inv c h cell) (k : Call) (hpre : cell.getState = .stateHalfOpen)
    (hpost : (cell.step c k).getState = .stateClosed) :
    k = .reset ∨ ClosesBySuccess c h k := by
  cases k with
  | allow now =>
    rw [Cell.step_allow, allow_of_halfOpen hpre] at hpost
    split at hpost <;> cases hpre.symm.trans hpost
  | recordSuccess now =>
    obtain ⟨hn, hlt⟩ := hi.successes hpre
    rw [Cell.step_recordSuccess, recordSuccess_of_halfOpen hpre] at hpost
    split at hpost
    · exact .inr ⟨⟨now, rfl⟩, by omega⟩
    · cases hpre.symm.trans hpost
  | recordFailure now =>
    rw [Cell.step_recordFailure, recordFailure_of_halfOpen hpre] at hpost
    cases hpost
  | forceOpen now =>
    rw [Cell.step_forceOpen, forceOpen_of_ne (fun ho => by simp [Cell.getState, ho] at hpre)] at hpost
    cases hpost
  | reset => exact .inl rfl

theorem allow_cases (c : CircuitBreaker) (cell : Cell) (now : Clock) :
    ((cell.err c (.allow now)).isSome ∧ (cell.step c (.allow now)).stateFor = cell.stateFor) ∨
    (cell.err c (.allow now) = none ∧ cell.getState = .stateClosed ∧
      (cell.step c (.allow now)).stateFor = cell.stateFor) ∨
    (cell.err c (.allow now) = none ∧ cell.getState = .stateOpen ∧
      c.timeout ≤ Time.sub (now 0) cell.stateFor.lastFailure ∧
      (cell.step c (.allow now)).stateFor =
        { cell.stateFor with state := .stateHalfOpen, successes := 0, halfOpenInFlight := 1 }) ∨
    (cell.err c (.allow now) = none ∧ cell.getState = .stateHalfOpen ∧
      cell.stateFor.halfOpenInFlight < c.successThreshold ∧
      (cell.step c (.allow now)).stateFor =
        { cell.stateFor with halfOpenInFlight := cell.stateFor.halfOpenInFlight + 1 }) := by
  have he : cell.err c (.allow now) = (allow c now cell.stateFor).err := rfl
  rw [he, Cell.step_allow, Cell.stateFor_apply]
  cases hs : cell.getState with
  | stateClosed => rw [allow_of_closed hs]; exact .inr (.inl ⟨rfl, rfl, rfl⟩)
  | stateOpen =>
    by_cases ht : c.timeout ≤ Time.sub (now 0) cell.stateFor.lastFailure
    · rw [allow_of_expired hs ht]; exact .inr (.inr (.inl ⟨rfl, rfl, ht, rfl⟩))
    · rw [allow_of_waiting hs ht]; exact .inl ⟨rfl, rfl⟩
  | stateHalfOpen =>
    rw [allow_of_halfOpen hs]
    split
    · exact .inl ⟨rfl, rfl⟩
    · exact .inr (.inr (.inr ⟨rfl, rfl, by omega, rfl⟩))

theorem failure_trips (hi : Inv c h cell) (hm : c.mode = .modeConsecutive)
    (hpre : cell.getState = .stateClosed) :
    (cell.step c (.recordFailure now)).getState = .stateOpen ↔
      failureRun h + 1 = c.failureThreshold := by
  have hf := hi.failures hpre
  have hlt := hi.untripped hpre hm
  obtain ⟨st', -, ⟨hr, ht⟩ | ⟨hr, hst, ht⟩⟩ := recordFailure_of_closed c now hpre
  · have := ht hm
    rw [Cell.step_recordFailure, hr]
    exact ⟨fun _ => by omega, fun _ => rfl⟩
  · have := ht hm
    rw [Cell.step_recordFailure, hr, Cell.getState_apply, hst]
    exact ⟨(nomatch ·), fun he => by omega⟩

theorem reopens (k : Call) (hpre : cell.getState = .stateHalfOpen)
    (hk : k = .recordFailure now ∨ k = .forceOpen now) : (cell.step c k).getState = .stateOpen := by
  rcases hk with rfl | rfl
  · rw [Cell.step_recordFailure, recordFailure_of_halfOpen hpre]
    rfl
  · rw [Cell.step_forceOpen, forceOpen_of_ne (fun ho => by simp [Cell.getState, ho] at hpre)]
    rfl

theorem conforms_of_inv (hi : Inv c h cell) (k : Call) : Conforms c h cell k where
  probes hpost := by
    have hi' := inv_step hi k
    obtain ⟨hs, hlt⟩ := hi'.successes hpost
    exact ⟨(hi'.inFlight hpost).1, (hi'.inFlight hpost).2, by omega, hlt⟩
  trips hm hpre now hk := by
    subst hk
    exact failure_trips hi hm hpre
  leavesClosed := leaves_closed k
  leavesOpen := leaves_open k
  recovers := leaves_halfOpen hi k
  reopens hpre now hk := reopens k hpre hk
  unhealthy := step_unhealthy k
  notifies := step_notifies k

/-- Every call of every run, from the construction of the breaker on, conforms. -/
theorem breaker_conforms (cfg : Config) (hook healthy : Bool) (calls : List Call) (k : Call) :
    let c := (newCircuitBreakerWithConfig cfg).setOnStateChange hook
    Conforms c (history c { healthy := healthy } calls) (Cell.run c { healthy := healthy } calls) k :=
  conforms_of_inv (inv_run healthy calls) k

/-- A breaker that trips on the first failure and probes at once. -/
def quickConfig : Config where
  mode := .modeConsecutive
  failureThreshold := 1
  successThreshold := 2
  timeout := 0
  rollingWindow := 0
  errorRateThreshold := 0
  minRequests := 0

/-- `Reset` during a half-open episode closes the breaker without any success. -/
theorem reset_closes_halfOpen :
    let c := newCircuitBreakerWithConfig quickConfig
    let calls := [Call.recordFailure (fun _ => 1), Call.allow (fun _ => 1)]
    (Cell.run c {} calls).getState = .stateHalfOpen ∧
      ((Cell.run c {} calls).step c .reset).getState = .stateClosed ∧
      ¬ ClosesBySuccess c (history c {} calls) .reset := by
  refine ⟨by decide, rfl, ?_⟩
  rintro ⟨⟨now, hk⟩, -⟩
  cases hk

end ReverseProxyLb.Circuit

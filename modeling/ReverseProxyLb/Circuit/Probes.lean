import ReverseProxyLb.Circuit.StateMachine
import ReverseProxyLb.Lib.Run

/-! Concurrent requests on one backend, each admitted once and reporting later. The breaker
does not learn which admission a result belongs to, so the episode of each probe is kept
beside it. -/
namespace ReverseProxyLb.Circuit
open Lib

structure Traffic where
  cell : Cell := {}
  /-- How many half-open episodes have begun. -/
  episode : ℕ := 0
  /-- How many probes of the current episode have reported success in it. -/
  confirmed : ℕ := 0
  /-- The admitted requests that have not reported yet. -/
  outstanding : List (ℕ × Option ℕ) := []
  deriving DecidableEq, Repr

inductive Act where
  | request (id : ℕ) (now : Clock)
  | finish (id : ℕ) (ok : Bool) (now : Clock)

namespace Traffic

def report (ok : Bool) (now : Clock) : Call := if ok then .recordSuccess now else .recordFailure now

def admission (s : Traffic) (id : ℕ) : Option (ℕ × Option ℕ) :=
  s.outstanding.find? (fun e => e.1 == id)

/-- A request that is admitted in the half-open state is a probe; the one that
ends the open state begins a new episode. -/
def admitting (s : Traffic) (id : ℕ) (cell : Cell) : Traffic :=
  let fresh := s.cell.getState = .stateOpen ∧ cell.getState = .stateHalfOpen
  let episode := if fresh then s.episode + 1 else s.episode
  { cell := cell
    episode := episode
    confirmed := if fresh then 0 else s.confirmed
    outstanding :=
      (id, if cell.getState = .stateHalfOpen then some episode else none) :: s.outstanding }

def settle (s : Traffic) (e : ℕ × Option ℕ) (ok : Bool) (cell : Cell) : Traffic :=
  { s with
    cell := cell
    confirmed := if s.cell.getState = .stateHalfOpen ∧ ok ∧ e.2 = some s.episode
      then s.confirmed + 1 else s.confirmed
    outstanding := s.outstanding.erase e }

def step (c : CircuitBreaker) (s : Traffic) : Act → Option Traffic
  | .request id now =>
    if (s.admission id).isSome then none
    else match s.cell.err c (.allow now) with
      | some _ => some { s with cell := s.cell.step c (.allow now) }
      | none => some (s.admitting id (s.cell.step c (.allow now)))
  | .finish id ok now =>
    (s.admission id).map fun e => s.settle e ok (s.cell.step c (report ok now))

def probes (s : Traffic) : ℕ := s.outstanding.countP (fun e => e.2 == some s.episode)

/-- The result that the action reports belongs to a probe of the running episode,
if an episode is running. -/
def OwnResult (s : Traffic) : Act → Prop
  | .request _ _ => True
  | .finish id _ _ => ∀ e ∈ s.admission id, s.cell.getState = .stateHalfOpen → e.2 = some s.episode

instance (s : Traffic) (a : Act) : Decidable (OwnResult s a) :=
  match a with
  | .request _ _ => isTrue trivial
  | .finish id _ _ => inferInstanceAs (Decidable
      (∀ e ∈ s.admission id, s.cell.getState = .stateHalfOpen → e.2 = some s.episode))

/-- Recovery is decided by the probes of the episode and by nothing else. -/
structure DecidedByProbes (c : CircuitBreaker) (s : Traffic) (a : Act) (s' : Traffic) : Prop where
  bounded : s'.cell.getState = .stateHalfOpen → (s'.probes : ℤ) ≤ c.successThreshold
  recovered : s.cell.getState = .stateHalfOpen → s'.cell.getState = .stateClosed →
    c.successThreshold ≤ s'.confirmed
  isolated : s.cell.getState = .stateHalfOpen →
    ∀ id ok now e, a = .finish id ok now → s.admission id = some e → e.2 ≠ some s.episode →
      s'.cell.getState = .stateHalfOpen ∧
      s'.cell.stateFor.halfOpenInFlight = s.cell.stateFor.halfOpenInFlight ∧
      s'.cell.stateFor.successes = s.cell.stateFor.successes

/-- While an episode runs, the counters of the record count its probes. -/
structure ProbeInv (c : CircuitBreaker) (s : Traffic) : Prop where
  tags : ∀ e ∈ s.outstanding, ∀ n, e.2 = some n → n ≤ s.episode
  inFlight : s.cell.getState = .stateHalfOpen → s.cell.stateFor.halfOpenInFlight = s.probes
  bound : s.cell.getState = .stateHalfOpen → s.cell.stateFor.halfOpenInFlight ≤ c.successThreshold
  successes : s.cell.getState = .stateHalfOpen → s.cell.stateFor.successes = s.confirmed

variable {c : CircuitBreaker} {s s' : Traffic}

theorem probeInv_start (healthy : Bool) : ProbeInv c { cell := { healthy := healthy } } where
  tags e he := by cases he
  inFlight h := by cases h
  bound h := by cases h
  successes h := by cases h

theorem admission_mem {id : ℕ} {e : ℕ × Option ℕ} (h : s.admission id = some e) :
    e ∈ s.outstanding :=
  List.mem_of_find?_eq_some h

theorem countP_erase_add (p : ℕ × Option ℕ → Bool) {e : ℕ × Option ℕ} {l : List (ℕ × Option ℕ)}
    (h : e ∈ l) : (l.erase e).countP p + (if p e then 1 else 0) = l.countP p := by
  rw [(List.perm_cons_erase h).countP_eq p, List.countP_cons]

theorem countP_next_episode (hi : ProbeInv c s) :
    s.outstanding.countP (fun e => e.2 == some (s.episode + 1)) = 0 := by
  rw [List.countP_eq_zero]
  intro e he hc
  have hn := hi.tags e he (s.episode + 1) (by simpa using hc)
  omega

theorem report_not_halfOpen {cell : Cell} {ok : Bool} {now : Clock}
    (h : cell.getState ≠ .stateHalfOpen) :
    (cell.step c (report ok now)).getState ≠ .stateHalfOpen := by
  intro hpost
  cases hs : cell.getState with
  | stateHalfOpen => exact h hs
  | stateClosed =>
    have hl := leaves_closed (c := c) (report ok now) hs (by rw [hpost]; simp)
    rw [hpost] at hl
    cases hl.1
  | stateOpen =>
    have hl := leaves_open (c := c) (report ok now) hs (by rw [hpost]; simp)
    cases ok <;> simp [report] at hl

theorem probeInv_refused (hi : ProbeInv c s) {cell : Cell} (hc : cell.stateFor = s.cell.stateFor) :
    ProbeInv c { s with cell := cell } where
  tags := hi.tags
  inFlight hs := by
    simp only [Cell.getState, hc] at hs ⊢
    exact hi.inFlight hs
  bound hs := by
    simp only [Cell.getState, hc] at hs ⊢
    exact hi.bound hs
  successes hs := by
    simp only [Cell.getState, hc] at hs ⊢
    exact hi.successes hs

theorem probeInv_request {id : ℕ} {now : Clock} (hi : ProbeInv c s)
    (h : s.step c (.request id now) = some s') : ProbeInv c s' := by
  simp only [step] at h
  split at h
  · cases h
  obtain ⟨he, hc⟩ | ⟨he, hs, hc⟩ | ⟨he, hs, -, hc⟩ | ⟨he, hs, hlt, hc⟩ := allow_cases c s.cell now
  · obtain ⟨m, hm⟩ := Option.isSome_iff_exists.mp he
    rw [hm] at h
    cases h
    exact probeInv_refused hi hc
  all_goals
    rw [he] at h
    cases h
  · -- admitted while closed: the request is no probe, and no episode is running
    have hs' : (s.cell.step c (.allow now)).getState = .stateClosed := by
      rw [Cell.getState, hc]
      exact hs
    refine ⟨?_, fun hp => ?_, fun hp => ?_, fun hp => ?_⟩
    · simp only [admitting, hs, hs', List.mem_cons]
      rintro e (rfl | he') n hn
      · simp at hn
      · simpa using hi.tags e he' n hn
    all_goals
      simp only [admitting, hs'] at hp
      cases hp
  · -- the open state ends: the request is the only probe of the new episode
    have hs' : (s.cell.step c (.allow now)).getState = .stateHalfOpen := by rw [Cell.getState, hc]
    refine ⟨?_, fun _ => ?_, fun _ => ?_, fun _ => ?_⟩
    · simp only [admitting, hs, hs', List.mem_cons]
      rintro e (rfl | he') n hn
      · simp at hn
        simp [← hn]
      · have := hi.tags e he' n hn
        simp only [and_self, if_true]
        omega
    · simp [admitting, probes, hs, hs', hc, countP_next_episode hi]
    · simp only [admitting, hc]
      exact c.successThreshold_pos
    · simp [admitting, hs, hs', hc]
  · -- one more probe of the running episode
    have hs' : (s.cell.step c (.allow now)).getState = .stateHalfOpen := by
      rw [Cell.getState, hc]
      exact hs
    refine ⟨?_, fun _ => ?_, fun _ => ?_, fun _ => ?_⟩
    · simp only [admitting, hs, hs', List.mem_cons]
      rintro e (rfl | he') n hn
      · simp at hn
        simp [← hn]
      · simpa using hi.tags e he' n hn
    · have hf := hi.inFlight hs
      simp only [probes] at hf
      simp [admitting, probes, hs, hs', hc, hf]
    · simp only [admitting, hc]
      omega
    · simpa [admitting, hs, hs', hc] using hi.successes hs

theorem probeInv_success {e : ℕ × Option ℕ} (now : Clock) (hi : ProbeInv c s)
    (hs : s.cell.getState = .stateHalfOpen) (hm : e ∈ s.outstanding) (ht : e.2 = some s.episode) :
    ProbeInv c (s.settle e true (s.cell.step c (.recordSuccess now))) ∧
      ((s.cell.step c (.recordSuccess now)).getState = .stateClosed →
        c.successThreshold ≤ s.confirmed + 1) := by
  have hcount := countP_erase_add (fun e => e.2 == some s.episode) hm
  simp only [ht, beq_self_eq_true, if_true] at hcount
  have hf := hi.inFlight hs
  have hb := hi.bound hs
  have hq := hi.successes hs
  simp only [probes] at hf
  have he := Cell.step_recordSuccess s.cell c now
  rw [recordSuccess_of_halfOpen hs] at he
  split at he
  · have hc : (s.cell.step c (.recordSuccess now)).getState = .stateClosed := by rw [he]; rfl
    refine ⟨⟨fun e' he' n hn => hi.tags e' (List.mem_of_mem_erase he') n hn, ?_, ?_, ?_⟩, ?_⟩
    · simp [settle, hc]
    · simp [settle, hc]
    · simp [settle, hc]
    · intro _
      omega
  · have hc : (s.cell.step c (.recordSuccess now)).getState = .stateHalfOpen := by rw [he]; exact hs
    have hpos : 0 < s.cell.stateFor.halfOpenInFlight := by omega
    refine ⟨⟨fun e' he' n hn => hi.tags e' (List.mem_of_mem_erase he') n hn, ?_, ?_, ?_⟩, ?_⟩
    · intro _
      simp only [settle, probes, he, Cell.stateFor_apply, hpos, if_true]
      omega
    · intro _
      simp only [settle, he, Cell.stateFor_apply, hpos, if_true]
      omega
    · intro _
      simp [settle, he, hs, ht, hq]
    · simp [hc]

theorem probeInv_settle_ne {e : ℕ × Option ℕ} {ok : Bool} {cell : Cell} (hi : ProbeInv c s)
    (hc : cell.getState ≠ .stateHalfOpen) : ProbeInv c (s.settle e ok cell) where
  tags e' he' n hn := hi.tags e' (List.mem_of_mem_erase he') n hn
  inFlight hp := absurd hp hc
  bound hp := absurd hp hc
  successes hp := absurd hp hc

theorem probeInv_finish {id : ℕ} {ok : Bool} {now : Clock} (hi : ProbeInv c s)
    (ho : OwnResult s (.finish id ok now)) (h : s.step c (.finish id ok now) = some s') :
    ProbeInv c s' := by
  obtain ⟨e, he, rfl⟩ := Option.map_eq_some_iff.mp h
  by_cases hs : s.cell.getState = .stateHalfOpen
  · cases ok with
    | true => exact (probeInv_success now hi hs (admission_mem he) (ho e he hs)).1
    | false =>
      refine probeInv_settle_ne hi ?_
      rw [reopens (report false now) hs (.inl rfl)]
      simp
  · exact probeInv_settle_ne hi (report_not_halfOpen hs)

theorem probeInv_step {a : Act} (hi : ProbeInv c s) (ho : OwnResult s a)
    (h : s.step c a = some s') : ProbeInv c s' := by
  cases a with
  | request id now => exact probeInv_request hi h
  | finish id ok now => exact probeInv_finish hi ho h

theorem recovered_of_inv {a : Act} (hi : ProbeInv c s) (ho : OwnResult s a)
    (h : s.step c a = some s') (hs : s.cell.getState = .stateHalfOpen)
    (hs' : s'.cell.getState = .stateClosed) : c.successThreshold ≤ s'.confirmed := by
  cases a with
  | request id now =>
    simp only [step] at h
    split at h
    · cases h
    have hcell : s'.cell = s.cell.step c (.allow now) := by
      split at h <;> (obtain rfl := Option.some.inj h; rfl)
    obtain ⟨-, hc⟩ | ⟨-, hs₂, -⟩ | ⟨-, hs₂, -⟩ | ⟨-, -, -, hc⟩ := allow_cases c s.cell now
    · rw [hcell, Cell.getState, hc] at hs'
      cases hs.symm.trans hs'
    · cases hs.symm.trans hs₂
    · cases hs.symm.trans hs₂
    · rw [hcell, Cell.getState, hc] at hs'
      cases hs.symm.trans hs'
  | finish id ok now =>
    obtain ⟨e, he, rfl⟩ := Option.map_eq_some_iff.mp h
    have ht := ho e he hs
    cases ok with
    | true =>
      have hr := (probeInv_success now hi hs (admission_mem he) ht).2 hs'
      simpa [settle, hs, ht] using hr
    | false =>
      have hr : (s.cell.step c (report false now)).getState = .stateOpen :=
        reopens (report false now) hs (.inl rfl)
      cases hr.symm.trans hs'

theorem decidedByProbes_of_inv {a : Act} (hi : ProbeInv c s) (ho : OwnResult s a)
    (h : s.step c a = some s') : DecidedByProbes c s a s' where
  bounded hs' := by
    have hi' := probeInv_step hi ho h
    rw [← hi'.inFlight hs']
    exact hi'.bound hs'
  recovered := recovered_of_inv hi ho h
  isolated hs id ok now e ha he hne := by
    subst ha
    exact absurd (ho e he hs) hne

/-- Where no request reports during an episode unless it was admitted as its probe, recovery is
decided by the probes alone. -/
theorem recovery_by_probes (cfg : Config) (healthy : Bool) (acts : List Act) (a : Act)
    (s s' : Traffic) :
    let c := newCircuitBreakerWithConfig cfg
    let start : Traffic := { cell := { healthy := healthy } }
    Meets (step c) OwnResult start (acts ++ [a]) →
    exec (step c) start acts = some s → s.step c a = some s' → DecidedByProbes c s a s' := by
  intro c start hm hr h
  obtain ⟨hacts, hlast⟩ := meets_append.mp hm
  have hi : ProbeInv c s :=
    exec_invariant (fun _ _ _ hi ho h => probeInv_step hi ho h) hacts hr (probeInv_start healthy)
  exact decidedByProbes_of_inv hi (hlast s hr).1 h

def still : Clock := fun _ => 1

/-- The breaker of `quickConfig` in its first episode. -/
def probing (successes halfOpenInFlight : ℤ) : Cell where
  record := some { state := .stateHalfOpen, failures := 1, successes := successes,
                   halfOpenInFlight := halfOpenInFlight, lastFailure := 1 }
  healthy := false

/-- The breaker of `quickConfig` after it recovered. -/
def recoveredCell : Cell where
  record := some { lastFailure := 1, closedAt := 1 }
  healthy := true

/-- One request trips the breaker, and both of its probes succeed. -/
theorem recovery_by_probes_quick :
    let c := newCircuitBreakerWithConfig quickConfig
    let acts := [Act.request 0 still, .finish 0 false still, .request 1 still, .request 2 still,
      .finish 1 true still]
    let s : Traffic := ⟨probing 1 1, 1, 1, [(2, some 1)]⟩
    let s' : Traffic := ⟨recoveredCell, 1, 2, []⟩
    exec (step c) {} acts = some s ∧ s.step c (.finish 2 true still) = some s' ∧
      DecidedByProbes c s (.finish 2 true still) s' :=
  ⟨by decide, by decide,
    recovery_by_probes quickConfig true
      [.request 0 still, .finish 0 false still, .request 1 still, .request 2 still,
        .finish 1 true still] _ _ _ (by decide) (by decide) (by decide)⟩

/-- A result of a request admitted before the trip counts as that of a probe, and the breaker
closes after one successful probe although it asks for two. -/
theorem stale_result_decides :
    let c := newCircuitBreakerWithConfig quickConfig
    let acts := [Act.request 0 still, .request 1 still, .finish 1 false still, .request 2 still,
      .request 3 still, .finish 0 true still]
    let s₁ : Traffic := ⟨probing 1 1, 1, 0, [(3, some 1), (2, some 1)]⟩
    let s₂ : Traffic := ⟨probing 1 2, 1, 0, [(4, some 1), (3, some 1), (2, some 1)]⟩
    let s₃ : Traffic := ⟨recoveredCell, 1, 1, [(4, some 1), (3, some 1)]⟩
    exec (step c) {} acts = some s₁ ∧ s₁.step c (.request 4 still) = some s₂ ∧
      s₂.step c (.finish 2 true still) = some s₃ ∧
      ¬ DecidedByProbes c s₁ (.request 4 still) s₂ ∧
      ¬ DecidedByProbes c s₂ (.finish 2 true still) s₃ := by
  refine ⟨by decide, by decide, by decide, fun h => ?_, fun h => ?_⟩
  · exact absurd (h.bounded rfl) (by decide)
  · exact absurd (h.recovered rfl rfl) (by decide)

end Traffic
end ReverseProxyLb.Circuit

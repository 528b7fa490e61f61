import ReverseProxyLb.Health.Checker
import ReverseProxyLb.Circuit.StateMachine
import ReverseProxyLb.Server.Recovery

/-! The breaker, the outlier detection and the checker write one flag. A set flag says that all
are content as long as no writer sets it while another is not. -/
namespace ReverseProxyLb.Server
open Lib Proxy Circuit Health OutlierDetection

/-- The counters of the checker, the write that it has decided on, and the probes that it is done
with. -/
structure Checking where
  counters : Backend → Counters := fun _ => {}
  pending : Option (Backend × Bool) := none
  probes : Backend → List Bool := fun _ => []

def Shared.setHealthy (σ : Shared) (b : Backend) (v : Bool) : Shared :=
  { σ with world := { σ.world with healthy := Function.update σ.world.healthy b v } }

namespace Checking

def conclude (k : Checking) (b : Backend) (ok : Bool) : Checking :=
  { k with pending := none, probes := Function.update k.probes b (k.probes b ++ [ok]) }

def probe (hc : HealthChecker) (σ : Shared) (k : Checking) (b : Backend) (ok : Bool) :
    Option Checking :=
  if k.pending.isNone then
    let (counters, write) :=
      checked hc (hc.effectiveConfig b) σ.now (σ.world.healthy b) ok (k.counters b)
    let k := { k with counters := Function.update k.counters b counters }
    match write with
    | some v => some { k with pending := some (b, v) }
    | none => some (k.conclude b ok)
  else none

def mark (σ : Shared) (k : Checking) : Option (Shared × Checking) :=
  k.pending.map fun (b, v) => (σ.setHealthy b v, k.conclude b v)

end Checking

structure Monitored where
  shared : Shared := {}
  checking : Checking := {}

inductive Turn where
  | wait (t : ℕ)
  | call (b : Backend) (k : Call)
  | outcome (b : Backend) (ok : Bool)
  /-- A selection, which reinstates what has been ejected for long enough. -/
  | select
  | probe (b : Backend) (ok : Bool)
  | mark

namespace Monitored
variable (site : Site) (hc : HealthChecker)

def step (s : Monitored) : Turn → Option Monitored
  | .wait t => some { s with shared := { s.shared with now := s.shared.now + t } }
  | .call b k => some { s with shared := s.shared.call site b k }
  | .outcome b ok => some { s with shared := s.shared.observe site b ok }
  | .select => some { s with shared := { s.shared with world := s.shared.reinstated site } }
  | .probe b ok => (s.checking.probe hc s.shared b ok).map fun k => { s with checking := k }
  | .mark => (s.checking.mark s.shared).map fun p => { shared := p.1, checking := p.2 }

/-- Nothing has been called, observed or probed; the flags are as they are. -/
structure Fresh (s : Monitored) : Prop where
  records : s.shared.records = fun _ => none
  stats : s.shared.world.stats = []
  checking : s.checking = {}

end Monitored

def Closing (c : CircuitBreaker) (cell : Cell) (k : Call) : Prop :=
  (k.result c cell.stateFor).bind CallResult.setHealthy = some true

def Expiring (site : Site) (σ : Shared) (b : Backend) : Prop :=
  ∃ od ∈ site.deployment.outlier, ∃ p ∈ σ.world.stats, p.1 = b ∧ OutlierDetection.expired od σ.now p.2

instance (c : CircuitBreaker) (cell : Cell) (k : Call) : Decidable (Closing c cell k) :=
  inferInstanceAs (Decidable (_ = _))

instance (site : Site) (σ : Shared) (b : Backend) : Decidable (Expiring site σ b) := by
  unfold Expiring
  infer_instance

/-- The breaker is not open, the backend is not ejected, and the checker's verdict
is not unhealthy. -/
structure Agreed (hc : HealthChecker) (s : Monitored) (b : Backend) : Prop where
  admitting : (s.shared.cell b).getState ≠ .stateOpen
  retained : isEjected s.shared.world b = false
  approved : (standing (hc.effectiveConfig b) (s.checking.probes b)).unhealthy = false

/-- The flag of `b` is set only while the other two are content, and probes fail
outside the grace period only. -/
def Consented (site : Site) (hc : HealthChecker) (b : Backend) (s : Monitored) : Turn → Prop
  | .mark => s.checking.pending = some (b, true) →
      (s.shared.cell b).getState ≠ .stateOpen ∧ isEjected s.shared.world b = false
  | .call b' k => b' = b → Closing site.breaker (s.shared.cell b) k →
      isEjected s.shared.world b = false ∧
        (standing (hc.effectiveConfig b) (s.checking.probes b)).unhealthy = false
  | .select => Expiring site s.shared b → (s.shared.cell b).getState ≠ .stateOpen ∧
      (standing (hc.effectiveConfig b) (s.checking.probes b)).unhealthy = false
  | .probe b' ok => b' = b → ok = false → ¬ hc.inGrace (hc.effectiveConfig b) s.shared.now
  | .wait _ | .outcome _ _ => True

instance (site : Site) (hc : HealthChecker) (b : Backend) (s : Monitored) (t : Turn) :
    Decidable (Consented site hc b s t) := by
  unfold Consented
  split <;> infer_instance

section Breaker
variable {site : Site} {b x : Backend} {c : CircuitBreaker} {cell : Cell} {k : Call}

theorem Closing.recovery (h : Closing c cell k) :
    ∃ now, k = .recordSuccess now ∧ (cell.step c k).getState = .stateClosed := by
  cases k with
  | allow now =>
    simp only [Closing, Call.result, Circuit.allow, Option.bind_some] at h
    split at h <;> try split at h
    all_goals cases h
  | recordSuccess now =>
    refine ⟨now, rfl, ?_⟩
    rw [Cell.step_recordSuccess]
    simp only [Closing, Call.result, Option.bind_some] at h
    cases hs : cell.stateFor.state with
    | stateClosed =>
      obtain ⟨st', hr, hst, -⟩ := recordSuccess_of_closed c now hs
      rw [hr]
      exact hst
    | stateOpen =>
      rw [recordSuccess_of_open hs] at h
      cases h
    | stateHalfOpen =>
      rw [recordSuccess_of_halfOpen hs] at h ⊢
      split at h
      · next ht => rw [if_pos ht]; rfl
      · cases h
  | recordFailure now =>
    simp only [Closing, Call.result, Option.bind_some, Circuit.recordFailure] at h
    split at h <;> try split at h
    all_goals try split at h
    all_goals cases h
  | forceOpen now =>
    simp only [Closing, Call.result, Option.bind_some, Circuit.forceOpen] at h
    split at h <;> cases h
  | reset => cases h

theorem healthy_of_step (h : (cell.step c k).healthy = true) (hk : ¬ Closing c cell k) :
    cell.healthy = true := by
  unfold Cell.step at h
  unfold Closing at hk
  cases hr : k.result c cell.stateFor with
  | none =>
    rw [hr] at h
    exact h
  | some r =>
    rw [hr] at h hk
    cases hset : r.setHealthy with
    | none => simpa [hset] using h
    | some v =>
      obtain rfl : v = true := by simpa [hset] using h
      exact absurd hset hk

theorem cell_call_self (σ : Shared) (k : Call) :
    (σ.call site b k).cell b = (σ.cell b).step site.breaker k := by
  simp [Shared.call, Shared.cell, Shared.setCell]

theorem cell_call_ne (hx : x ≠ b) (σ : Shared) (k : Call) : (σ.call site x k).cell b = σ.cell b := by
  simp [Shared.call, Shared.cell, Shared.setCell, Function.update_of_ne (Ne.symm hx)]

theorem call_flag {σ : Shared} (h : (σ.call site x k).world.healthy b = true) :
    σ.world.healthy b = true ∨ (x = b ∧ Closing site.breaker (σ.cell b) k) := by
  by_cases hx : x = b
  · subst hx
    by_cases hk : Closing site.breaker (σ.cell x) k
    · exact .inr ⟨rfl, hk⟩
    · have hstep : ((σ.cell x).step site.breaker k).healthy = true := by
        rw [← cell_call_self]
        exact h
      exact .inl (healthy_of_step hstep hk)
  · have hcell : (σ.call site x k).cell b = σ.cell b := cell_call_ne hx σ k
    exact .inl ((congrArg Cell.healthy hcell).symm.trans h)

end Breaker

section Selection
variable {site : Site} {σ : Shared} {b : Backend}

theorem reinstated_flag (h : (σ.reinstated site).healthy b = true) :
    σ.world.healthy b = true ∨ Expiring site σ b := by
  unfold Shared.reinstated Deployment.reinstated at h
  cases hod : site.deployment.outlier with
  | none =>
    rw [hod] at h
    exact .inl h
  | some od =>
    rw [hod] at h
    dsimp only at h
    rw [reinstateExpired_healthy, Bool.or_eq_true] at h
    refine h.imp id fun hexp => ?_
    obtain ⟨p, hp, hexp⟩ := List.any_eq_true.mp hexp
    exact ⟨od, hod, p, hp, by simpa [Shared.clock] using hexp⟩

theorem nodup_reinstated (h : (σ.world.stats.map Prod.fst).Nodup) :
    ((σ.reinstated site).stats.map Prod.fst).Nodup := by
  unfold Shared.reinstated Deployment.reinstated
  cases site.deployment.outlier with
  | none => exact h
  | some od => exact (reinstateExpired_keys od _ _).symm ▸ h

theorem isEjected_reinstated (hnodup : (σ.world.stats.map Prod.fst).Nodup)
    (h : isEjected σ.world b = false ∨ Expiring site σ b) :
    isEjected (σ.reinstated site) b = false := by
  unfold Shared.reinstated Deployment.reinstated
  cases hod : site.deployment.outlier with
  | none =>
    rcases h with h | ⟨od, hmem, -⟩
    · exact h
    · simp [hod] at hmem
  | some od =>
    refine isEjected_reinstateExpired od _ hnodup (h.imp id ?_)
    rintro ⟨od', hmem, p, hp, he, hexp⟩
    obtain rfl : od' = od := by simpa [hod] using hmem.symm
    exact ⟨p, hp, he, hexp⟩

theorem observe_flag {x : Backend} {ok : Bool} (h : (σ.observe site x ok).world.healthy b = true) :
    σ.world.healthy b = true ∧
      (isEjected σ.world b = false → isEjected (σ.observe site x ok).world b = false) := by
  unfold Shared.observe at h ⊢
  split at h
  · exact observeOutcome_healthy _ _ _ _ h
  · exact ⟨h, id⟩

theorem nodup_observe {x : Backend} {ok : Bool} (h : (σ.world.stats.map Prod.fst).Nodup) :
    ((σ.observe site x ok).world.stats.map Prod.fst).Nodup := by
  unfold Shared.observe
  split
  · exact nodup_observeOutcome _ _ _ _ h
  · exact h

end Selection

section Probes
variable {hc : HealthChecker} {cfg : HealthCheckConfig} {now : ℤ} {flag : Bool} {probes : List Bool}

theorem toInt_ofNat_le (n : ℕ) : (Int32.ofNat n).toInt ≤ n := by
  rw [Int32.toInt_ofNat', Int.bmod_def]
  simp only [Int32.size]
  split_ifs <;> omega

theorem checked_write {ok v : Bool}
    (h : (checked hc cfg now flag ok (standing cfg probes).counters).2 = some v) :
    v = ok ∧ (v = true → (standing cfg (probes ++ [v])).unhealthy = false) := by
  cases ok with
  | true =>
    simp only [checked, markHealthy, if_true, recordSuccess_counters cfg] at h
    split_ifs at h with hw
    cases h
    have hle := toInt_ofNat_le ((standing cfg probes).succeeded + 1)
    have hge := hw.1
    simp only [Counters.getSuccesses, Standing.counters, Standing.after, if_true] at hge
    simp only [standing_append, Standing.after, if_true, Bool.and_eq_false_imp,
      decide_eq_false_iff_not, not_lt]
    exact ⟨trivial, fun _ _ => hge.trans hle⟩
  | false =>
    simp only [checked, markUnhealthy, Bool.false_eq_true, if_false] at h
    split_ifs at h
    cases h
    exact ⟨rfl, by simp⟩

theorem checked_silent (hmax : cfg.unhealthyThreshold < 2 ^ 31) (hgrace : ¬ hc.inGrace cfg now)
    (hv : (standing cfg probes).unhealthy = false)
    (h : (checked hc cfg now true false (standing cfg probes).counters).2 = none) :
    (standing cfg (probes ++ [false])).unhealthy = false := by
  have hlt := failed_lt hv
  have hcap : atLeastOne cfg.unhealthyThreshold < 2 ^ 31 := by
    unfold atLeastOne
    split_ifs <;> omega
  have hexact := toInt_ofNat_of_lt (n := (standing cfg probes).failed + 1) (by omega)
  simp only [checked, markUnhealthy, Bool.false_eq_true, if_false, if_neg hgrace,
    recordFailure_counters cfg] at h
  split_ifs at h with hw
  simp only [Counters.getFailures, Standing.counters, Standing.after, Bool.false_eq_true, if_false,
    hexact] at hw
  simp only [standing_append, Standing.after, Bool.false_eq_true, if_false, hv, Bool.false_or,
    decide_eq_false_iff_not]
  push_cast
  simpa using hw

theorem unhealthy_success (h : (standing cfg probes).unhealthy = false) :
    (standing cfg (probes ++ [true])).unhealthy = false := by
  simp [Standing.after, h]

end Probes

section Invariant
variable {site : Site} {hc : HealthChecker} {b : Backend} {s s' : Monitored}

theorem Agreed.keep (h : Agreed hc s b) (hσ : s'.shared = s.shared)
    (hp : s'.checking.probes b = s.checking.probes b) : Agreed hc s' b :=
  ⟨hσ ▸ h.admitting, hσ ▸ h.retained, hp ▸ h.approved⟩

structure Consistent (hc : HealthChecker) (b : Backend) (s : Monitored) : Prop where
  nodup : (s.shared.world.stats.map Prod.fst).Nodup
  idle : (∀ v, s.checking.pending ≠ some (b, v)) →
    s.checking.counters b = (standing (hc.effectiveConfig b) (s.checking.probes b)).counters
  busy : ∀ v, s.checking.pending = some (b, v) →
    s.checking.counters b = (standing (hc.effectiveConfig b) (s.checking.probes b ++ [v])).counters ∧
      (v = true → (standing (hc.effectiveConfig b) (s.checking.probes b ++ [v])).unhealthy = false)
  agreed : s.shared.world.healthy b = true → Agreed hc s b

theorem Monitored.Fresh.consistent (h : s.Fresh) : Consistent hc b s := by
  have hcell : (s.shared.cell b).getState = .stateClosed := by
    simp [Shared.cell, Cell.getState, Cell.stateFor, h.records]
  refine ⟨by
    simp [h.stats],
    fun _ => by rw [h.checking]; rfl, fun v hv => by simp [h.checking] at hv, fun _ => ?_⟩
  exact ⟨by simp [hcell], by simp [isEjected, h.stats], by rw [h.checking]; rfl⟩

theorem Consistent.shared (h : Consistent hc b s) {σ : Shared}
    (hnodup : (σ.world.stats.map Prod.fst).Nodup)
    (hagreed : σ.world.healthy b = true → Agreed hc { s with shared := σ } b) :
    Consistent hc b { s with shared := σ } := ⟨hnodup, h.idle, h.busy, hagreed⟩

theorem Consistent.call (h : Consistent hc b s) {x : Backend} {k : Call}
    (hg : Consented site hc b s (.call x k)) :
    Consistent hc b { s with shared := s.shared.call site x k } := by
  refine h.shared h.nodup fun hh => ?_
  rcases call_flag hh with hflag | ⟨rfl, hclosing⟩
  · obtain ⟨hadm, hret, happ⟩ := h.agreed hflag
    refine ⟨fun hopen => ?_, hret, happ⟩
    by_cases hx : x = b
    · subst hx
      rw [cell_call_self] at hopen
      have hclear := step_unhealthy k hadm hopen
      rw [← cell_call_self] at hclear
      exact absurd (hh.symm.trans hclear) (by decide)
    · exact hadm (by rwa [cell_call_ne hx] at hopen)
  · obtain ⟨hret, happ⟩ := hg rfl hclosing
    obtain ⟨-, -, hclosed⟩ := hclosing.recovery
    refine ⟨?_, hret, happ⟩
    rw [cell_call_self, hclosed]
    decide

theorem Consistent.outcome (h : Consistent hc b s) (x : Backend) (ok : Bool) :
    Consistent hc b { s with shared := s.shared.observe site x ok } := by
  refine h.shared (nodup_observe h.nodup) fun hh => ?_
  obtain ⟨hflag, hkeep⟩ := observe_flag hh
  obtain ⟨hadm, hret, happ⟩ := h.agreed hflag
  refine ⟨?_, hkeep hret, happ⟩
  have hcell : ((s.shared.observe site x ok).cell b).record = (s.shared.cell b).record := by
    simp only [Shared.cell, Shared.observe]
    split <;> rfl
  simpa [Cell.getState, Cell.stateFor, hcell] using hadm

theorem Consistent.select (h : Consistent hc b s) (hg : Consented site hc b s .select) :
    Consistent hc b { s with shared := { s.shared with world := s.shared.reinstated site } } := by
  refine h.shared (nodup_reinstated h.nodup) fun hh => ?_
  rcases reinstated_flag hh with hflag | hexp
  · obtain ⟨hadm, hret, happ⟩ := h.agreed hflag
    exact ⟨hadm, isEjected_reinstated h.nodup (.inl hret), happ⟩
  · obtain ⟨hadm, happ⟩ := hg hexp
    exact ⟨hadm, isEjected_reinstated h.nodup (.inr hexp), happ⟩

theorem probe_cases {σ : Shared} {k k' : Checking} {x : Backend} {ok : Bool}
    (h : k.probe hc σ x ok = some k') :
    let done := checked hc (hc.effectiveConfig x) σ.now (σ.world.healthy x) ok (k.counters x)
    let counted : Checking := { k with counters := Function.update k.counters x done.1 }
    k.pending = none ∧ ((∃ v, done.2 = some v ∧ k' = { counted with pending := some (x, v) }) ∨
      (done.2 = none ∧ k' = counted.conclude x ok)) := by
  intro done counted
  simp only [Checking.probe] at h
  split_ifs at h with hp
  refine ⟨by simpa using hp, ?_⟩
  split at h
  · next v hv => exact .inl ⟨v, hv, (Option.some.inj h).symm⟩
  · next hv => exact .inr ⟨hv, (Option.some.inj h).symm⟩

theorem Consistent.probe_other (h : Consistent hc b s) {x : Backend} {ok : Bool} (hx : x ≠ b)
    {k : Checking} (hk : s.checking.probe hc s.shared x ok = some k) :
    Consistent hc b { s with checking := k } := by
  have hb : b ≠ x := Ne.symm hx
  obtain ⟨hidle, ⟨v, -, rfl⟩ | ⟨-, rfl⟩⟩ := probe_cases hk
  all_goals have hcounters := h.idle (by simp [hidle])
  · refine ⟨h.nodup, fun _ => ?_, fun v hv => ?_, fun hh => ?_⟩
    · simpa [Function.update_of_ne hb] using hcounters
    · exact absurd (congrArg Prod.fst (Option.some.inj hv)) hx
    · exact (h.agreed hh).keep rfl rfl
  · refine ⟨h.nodup, fun _ => ?_, fun v hv => by simp [Checking.conclude] at hv, fun hh => ?_⟩
    · simpa [Checking.conclude, Function.update_of_ne hb] using hcounters
    · exact (h.agreed hh).keep rfl (Function.update_of_ne hb ..)

theorem Consistent.probe_self (h : Consistent hc b s)
    (hmax : (hc.effectiveConfig b).unhealthyThreshold < 2 ^ 31) {ok : Bool}
    (hg : ok = false → ¬ hc.inGrace (hc.effectiveConfig b) s.shared.now) {k : Checking}
    (hk : s.checking.probe hc s.shared b ok = some k) : Consistent hc b { s with checking := k } := by
  obtain ⟨hidle, hcase⟩ := probe_cases hk
  rw [h.idle (by simp [hidle])] at hcase
  obtain ⟨v, hv, rfl⟩ | ⟨hv, rfl⟩ := hcase
  · -- the write is still to come, and the flag and the verdict stand as they are
    obtain ⟨rfl, hgood⟩ := checked_write hv
    refine ⟨h.nodup, fun hno => absurd rfl (hno v), fun v' hv' => ?_, fun hh => ?_⟩
    · obtain rfl : v = v' := congrArg Prod.snd (Option.some.inj hv')
      exact ⟨by simp only [Function.update_self, checked_counters], hgood⟩
    · exact (h.agreed hh).keep rfl rfl
  · refine ⟨h.nodup, fun _ => ?_, fun v' hv' => by simp [Checking.conclude] at hv', fun hh => ?_⟩
    · simp only [Checking.conclude, Function.update_self, checked_counters]
    · refine ⟨(h.agreed hh).admitting, (h.agreed hh).retained, ?_⟩
      simp only [Checking.conclude, Function.update_self]
      have happ := (h.agreed hh).approved
      cases ok with
      | true => exact unhealthy_success happ
      | false =>
        have hflag : s.shared.world.healthy b = true := hh
        rw [hflag] at hv
        exact checked_silent hmax (hg rfl) happ hv

theorem Consistent.mark (h : Consistent hc b s) (hg : Consented site hc b s .mark) {σ : Shared}
    {k : Checking} (hk : s.checking.mark s.shared = some (σ, k)) :
    Consistent hc b { shared := σ, checking := k } := by
  obtain ⟨⟨x, v⟩, hp, heq⟩ := Option.map_eq_some_iff.mp hk
  cases heq
  by_cases hx : x = b
  · subst hx
    obtain ⟨hcounters, hgood⟩ := h.busy v hp
    refine ⟨h.nodup, fun _ => ?_, fun v' hv' => by simp [Checking.conclude] at hv', fun hh => ?_⟩
    · simpa [Checking.conclude] using hcounters
    · obtain rfl : v = true := by simpa [Shared.setHealthy] using hh
      obtain ⟨hadm, hret⟩ := hg hp
      exact ⟨hadm, hret, by simpa [Checking.conclude] using hgood rfl⟩
  · have hb : b ≠ x := Ne.symm hx
    have hcounters := h.idle fun v' hv' => hx (congrArg Prod.fst (Option.some.inj (hp.symm.trans hv')))
    refine ⟨h.nodup, fun _ => ?_, fun v' hv' => by simp [Checking.conclude] at hv', fun hh => ?_⟩
    · simpa [Checking.conclude, Function.update_of_ne hb] using hcounters
    · have hflag : s.shared.world.healthy b = true := by
        simpa [Shared.setHealthy, Function.update_of_ne hb] using hh
      refine ⟨(h.agreed hflag).admitting, (h.agreed hflag).retained, ?_⟩
      simpa [Checking.conclude, Function.update_of_ne hb] using (h.agreed hflag).approved

theorem Consistent.step (hmax : (hc.effectiveConfig b).unhealthyThreshold < 2 ^ 31) {t : Turn}
    (h : Consistent hc b s) (hg : Consented site hc b s t) (hs : s.step site hc t = some s') :
    Consistent hc b s' := by
  cases t with
  | wait t =>
    cases hs
    exact h.shared h.nodup fun hh =>
      ⟨(h.agreed hh).admitting, (h.agreed hh).retained, (h.agreed hh).approved⟩
  | call x k => cases hs; exact h.call hg
  | outcome x ok => cases hs; exact h.outcome x ok
  | select => cases hs; exact h.select hg
  | probe x ok =>
    obtain ⟨k, hk, rfl⟩ := Option.map_eq_some_iff.mp hs
    by_cases hx : x = b
    · subst hx
      exact h.probe_self hmax (hg rfl) hk
    · exact h.probe_other hx hk
  | mark =>
    obtain ⟨⟨σ, k⟩, hk, rfl⟩ := Option.map_eq_some_iff.mp hs
    exact h.mark hg hk

/-- Where the flag of a backend is set only while the other two are content, all three are content
whenever it is healthy. -/
theorem healthy_is_agreed {ts : List Turn} (hmax : (hc.effectiveConfig b).unhealthyThreshold < 2 ^ 31)
    (h₀ : s.Fresh) (hm : Meets (Monitored.step site hc) (Consented site hc b) s ts)
    (hrun : exec (Monitored.step site hc) s ts = some s') (hb : b ∈ s'.shared.world.getHealthy) :
    Agreed hc s' b := by
  have hinv : Consistent hc b s' :=
    exec_invariant (fun _ _ _ hi hg hs => hi.step hmax hg hs) hm hrun h₀.consistent
  have hflag : s'.shared.world.healthy b = true := (List.mem_filter.mp hb).2
  exact hinv.agreed hflag

end Invariant

def promptChecker : HealthChecker where
  cfg := { healthyThreshold := 1, unhealthyThreshold := 1 }

/-- A tripped backend is probed once its breaker takes probes too. -/
theorem healthy_is_agreed_halfOpen :
    let a : Backend := { addr := 1 }
    let start : Monitored := { shared := { world := { backends := [a] } } }
    let later : Clock := fun _ => 40 * Time.second
    let ts : List Turn :=
      [.call a (.recordFailure fun _ => 0), .wait 40000000000, .call a (.allow later), .probe a true,
        .mark]
    ∃ s ∈ exec (Monitored.step guarded promptChecker) start ts,
      a ∈ s.shared.world.getHealthy ∧ Agreed promptChecker s a := by
  intro a start later ts
  have h : Meets (Monitored.step guarded promptChecker) (Consented guarded promptChecker a) start ts ∧
      ∃ s ∈ exec (Monitored.step guarded promptChecker) start ts, a ∈ s.shared.world.getHealthy := by
    decide +kernel
  obtain ⟨hm, s, hs, ha⟩ := h
  exact ⟨s, hs, ha, healthy_is_agreed (by decide) ⟨rfl, rfl, rfl⟩ hm hs ha⟩

/-- The breaker has just opened and cleared the flag, and the next probe sets it. -/
theorem probe_overrules_breaker :
    let a : Backend := { addr := 1 }
    let start : Monitored := { shared := { world := { backends := [a] } } }
    let ts : List Turn := [.call a (.recordFailure fun _ => 0), .probe a true, .mark]
    start.Fresh ∧ ∃ s ∈ exec (Monitored.step guarded promptChecker) start ts,
      a ∈ s.shared.world.getHealthy ∧ (s.shared.cell a).getState = .stateOpen ∧
        ¬ Agreed promptChecker s a := by
  intro a start ts
  have h : ∃ s ∈ exec (Monitored.step guarded promptChecker) start ts,
      a ∈ s.shared.world.getHealthy ∧ (s.shared.cell a).getState = .stateOpen := by decide +kernel
  obtain ⟨s, hs, ha, hopen⟩ := h
  exact ⟨⟨rfl, rfl, rfl⟩, s, hs, ha, hopen, fun hag => hag.admitting hopen⟩

end ReverseProxyLb.Server

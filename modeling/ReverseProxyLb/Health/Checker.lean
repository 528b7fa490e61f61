import ReverseProxyLb.Balancer.Backend
import ReverseProxyLb.Base.Time

/-! The checker counts failed and successful probes in a row and decides after each probe
whether to write the flag. The counters agree with the probes as long as they do not
overflow. -/
namespace ReverseProxyLb.Health

structure HealthCheckConfig where
  healthyThreshold : ℤ
  unhealthyThreshold : ℤ
  startupGracePeriod : ℤ := 0

structure HealthChecker where
  cfg : HealthCheckConfig
  /-- By the URL of the backend. -/
  overrides : List (String × HealthCheckConfig) := []
  startedAt : ℤ := 0

def HealthChecker.effectiveConfig (h : HealthChecker) (b : Backend) : HealthCheckConfig :=
  (h.overrides.lookup b.url).getD h.cfg

/-- The counters of a `Backend` that the checker uses. -/
structure Counters where
  failures : Int32 := 0
  successes : Int32 := 0
  deriving DecidableEq

namespace Counters

def recordSuccess (c : Counters) : Counters where
  failures := 0
  successes := c.successes + 1

def recordFailure (c : Counters) : Counters where
  failures := c.failures + 1
  successes := 0

def getFailures (c : Counters) : ℤ := c.failures.toInt

def getSuccesses (c : Counters) : ℤ := c.successes.toInt

end Counters

def atLeastOne (threshold : ℤ) : ℤ := if threshold < 1 then 1 else threshold

theorem one_le_atLeastOne (threshold : ℤ) : 1 ≤ atLeastOne threshold := by
  unfold atLeastOne
  split <;> omega

def markHealthy (cfg : HealthCheckConfig) (isHealthy : Bool) (c : Counters) : Counters × Option Bool :=
  let c := c.recordSuccess
  (c, if atLeastOne cfg.healthyThreshold ≤ c.getSuccesses ∧ isHealthy = false then some true else none)

def HealthChecker.inGrace (h : HealthChecker) (cfg : HealthCheckConfig) (now : ℤ) : Prop :=
  0 < cfg.startupGracePeriod ∧ Time.sub now h.startedAt < cfg.startupGracePeriod

instance (h : HealthChecker) (cfg : HealthCheckConfig) (now : ℤ) : Decidable (h.inGrace cfg now) :=
  inferInstanceAs (Decidable (_ ∧ _))

def markUnhealthy (h : HealthChecker) (cfg : HealthCheckConfig) (now : ℤ) (isHealthy : Bool)
    (c : Counters) :
    Counters × Option Bool :=
  let c := c.recordFailure
  if h.inGrace cfg now then (c, none)
  else (c, if atLeastOne cfg.unhealthyThreshold ≤ c.getFailures ∧ isHealthy then some false else none)

/-- The end of `checkBackend`, when the probe's outcome is known. -/
def checked (h : HealthChecker) (cfg : HealthCheckConfig) (now : ℤ) (isHealthy ok : Bool)
    (c : Counters) :
    Counters × Option Bool :=
  if ok then markHealthy cfg isHealthy c else markUnhealthy h cfg now isHealthy c

/-- The verdict, and how many probes in a row have failed or succeeded. -/
structure Standing where
  unhealthy : Bool := false
  failed : ℕ := 0
  succeeded : ℕ := 0
  deriving DecidableEq

def Standing.after (cfg : HealthCheckConfig) (v : Standing) (ok : Bool) : Standing :=
  if ok then
    { unhealthy := v.unhealthy && decide ((v.succeeded + 1 : ℕ) < atLeastOne cfg.healthyThreshold)
      failed := 0
      succeeded := v.succeeded + 1 }
  else
    { unhealthy := v.unhealthy || decide (atLeastOne cfg.unhealthyThreshold ≤ (v.failed + 1 : ℕ))
      failed := v.failed + 1
      succeeded := 0 }

def standing (cfg : HealthCheckConfig) (probes : List Bool) : Standing :=
  probes.foldl (Standing.after cfg) {}

variable {cfg : HealthCheckConfig} {probes : List Bool} {ok : Bool}

@[simp] theorem standing_append :
    standing cfg (probes ++ [ok]) = (standing cfg probes).after cfg ok := by
  simp [standing]

theorem failed_lt (h : (standing cfg probes).unhealthy = false) :
    (standing cfg probes).failed < atLeastOne cfg.unhealthyThreshold := by
  have hone := one_le_atLeastOne cfg.unhealthyThreshold
  induction probes using List.reverseRecOn with
  | nil =>
    simp only [standing, List.foldl_nil]
    omega
  | append_singleton probes ok ih =>
    rw [standing_append] at h ⊢
    cases ok with
    | true =>
      simp only [Standing.after, if_true]
      omega
    | false =>
      simp only [Standing.after, Bool.false_eq_true, if_false, Bool.or_eq_false_iff,
        decide_eq_false_iff_not,
        not_le] at h ⊢
      exact h.2

def Standing.counters (v : Standing) : Counters where
  failures := Int32.ofNat v.failed
  successes := Int32.ofNat v.succeeded

theorem recordSuccess_counters (cfg : HealthCheckConfig) (v : Standing) :
    v.counters.recordSuccess = (v.after cfg true).counters := by
  simp [Standing.counters, Counters.recordSuccess, Standing.after, Int32.ofNat_add]

theorem recordFailure_counters (cfg : HealthCheckConfig) (v : Standing) :
    v.counters.recordFailure = (v.after cfg false).counters := by
  simp [Standing.counters, Counters.recordFailure, Standing.after, Int32.ofNat_add]

theorem checked_counters {h : HealthChecker} {now : ℤ} {isHealthy : Bool} (ok : Bool) :
    (checked h cfg now isHealthy ok (standing cfg probes).counters).1 =
      (standing cfg (probes ++ [ok])).counters := by
  cases ok with
  | true => simp [checked, markHealthy, recordSuccess_counters cfg]
  | false =>
    simp only [checked, markUnhealthy, Bool.false_eq_true, if_false, standing_append]
    split_ifs <;> exact recordFailure_counters cfg _

theorem toInt_ofNat_of_lt {n : ℕ} (h : n < 2 ^ 31) : (Int32.ofNat n).toInt = n := by
  rw [Int32.toInt_ofNat', Int.bmod_def]
  simp only [Int32.size]
  split_ifs <;> omega

end ReverseProxyLb.Health

import ReverseProxyLb.Health.Checker

/-! A backend whose flag only the checker writes: the flag changes exactly where a streak of
one outcome is long enough. -/
namespace ReverseProxyLb.Health.Hysteresis

/-- What a probe has found, and the time at which it is judged. -/
structure Probe where
  ok : Bool
  now : ℤ

/-- The flag of a new backend and its counters. -/
structure Checked where
  healthy : Bool := true
  counters : Counters := {}

/-- The end of `checkBackend` with what it writes. -/
def probe (h : HealthChecker) (cfg : HealthCheckConfig) (s : Checked) (p : Probe) : Checked :=
  let done := checked h cfg p.now s.healthy p.ok s.counters
  { healthy := done.2.getD s.healthy, counters := done.1 }

def run (h : HealthChecker) (cfg : HealthCheckConfig) (ps : List Probe) : Checked :=
  ps.foldl (probe h cfg) {}

/-- The last `k` probes had this outcome, and each was made while the flag had this value. -/
def Streak (h : HealthChecker) (cfg : HealthCheckConfig) (ps : List Probe) (k : ℕ)
    (ok healthy : Bool) :
    Prop :=
  k ≤ ps.length ∧ ∀ i p, ps.length ≤ i + k → ps[i]? = some p → p.ok = ok ∧
    (run h cfg (ps.take i)).healthy = healthy

variable {h : HealthChecker} {cfg : HealthCheckConfig} {ps : List Probe} {p : Probe} {k : ℕ}
  {ok healthy : Bool}

@[simp] theorem run_append : run h cfg (ps ++ [p]) = probe h cfg (run h cfg ps) p := by
  simp [run]

theorem streak_zero : Streak h cfg ps 0 ok healthy := by
  refine ⟨Nat.zero_le _, fun i p hi hp => ?_⟩
  have hlt := (List.getElem?_eq_some_iff.mp hp).1
  omega

theorem streak_append : Streak h cfg (ps ++ [p]) (k + 1) ok healthy ↔
    p.ok = ok ∧ (run h cfg ps).healthy = healthy ∧ Streak h cfg ps k ok healthy := by
  unfold Streak
  rw [List.length_append, List.length_singleton, Nat.add_le_add_iff_right]
  constructor
  · rintro ⟨hle, hall⟩
    have hlast := hall ps.length p (by omega) (by simp)
    rw [List.take_left] at hlast
    refine ⟨hlast.1, hlast.2, hle, fun i q hi hq => ?_⟩
    have hlt : i < ps.length := (List.getElem?_eq_some_iff.mp hq).1
    have hearlier := hall i q (by omega) (by rwa [List.getElem?_append_left hlt])
    rwa [List.take_append_of_le_length hlt.le] at hearlier
  · rintro ⟨hok, hhealthy, hle, hall⟩
    refine ⟨hle, fun i q hi hq => ?_⟩
    by_cases hlt : i < ps.length
    · rw [List.getElem?_append_left hlt] at hq
      rw [List.take_append_of_le_length hlt.le]
      exact hall i q (by omega) hq
    · have hbound := (List.getElem?_eq_some_iff.mp hq).1
      rw [List.length_append, List.length_singleton] at hbound
      obtain rfl : i = ps.length := by omega
      rw [List.getElem?_concat_length] at hq
      cases hq
      rw [List.take_left]
      exact ⟨hok, hhealthy⟩

theorem run_counters : (run h cfg ps).counters = (standing cfg (ps.map Probe.ok)).counters := by
  induction ps using List.reverseRecOn with
  | nil => rfl
  | append_singleton ps p ih =>
    rw [run_append, List.map_append]
    simp only [probe, ih]
    exact checked_counters p.ok

theorem standing_le_length (cfg : HealthCheckConfig) (probes : List Bool) :
    (standing cfg probes).failed ≤ probes.length ∧
      (standing cfg probes).succeeded ≤ probes.length := by
  induction probes using List.reverseRecOn with
  | nil => exact ⟨le_rfl, le_rfl⟩
  | append_singleton probes ok ih =>
    rw [standing_append, List.length_append, List.length_singleton]
    cases ok <;> simp [Standing.after, ih]

def failed (cfg : HealthCheckConfig) (ps : List Probe) : ℕ := (standing cfg (ps.map Probe.ok)).failed

def succeeded (cfg : HealthCheckConfig) (ps : List Probe) : ℕ :=
  (standing cfg (ps.map Probe.ok)).succeeded

@[simp] theorem failed_append : failed cfg (ps ++ [p]) = if p.ok then 0 else failed cfg ps + 1 := by
  cases hok : p.ok <;> simp [failed, Standing.after, hok]

@[simp] theorem succeeded_append : succeeded cfg (ps ++ [p]) = if p.ok then succeeded cfg ps + 1
    else 0 := by
  cases hok : p.ok <;> simp [succeeded, Standing.after, hok]

theorem getFailures_run (h : HealthChecker) (cfg : HealthCheckConfig) (hlen : ps.length < 2 ^ 31) :
    (run h cfg ps).counters.getFailures = failed cfg ps := by
  have hle := (standing_le_length cfg (ps.map Probe.ok)).1
  rw [List.length_map] at hle
  rw [run_counters]
  exact toInt_ofNat_of_lt (hle.trans_lt hlen)

theorem getSuccesses_run (h : HealthChecker) (cfg : HealthCheckConfig) (hlen : ps.length < 2 ^ 31) :
    (run h cfg ps).counters.getSuccesses = succeeded cfg ps := by
  have hle := (standing_le_length cfg (ps.map Probe.ok)).2
  rw [List.length_map] at hle
  rw [run_counters]
  exact toInt_ofNat_of_lt (hle.trans_lt hlen)

theorem length_lt_of_append (hlen : (ps ++ [p]).length < 2 ^ 31) : ps.length < 2 ^ 31 := by
  rw [List.length_append] at hlen
  omega

theorem healthy_success (hok : p.ok = true) (hlen : (ps ++ [p]).length < 2 ^ 31) :
    (run h cfg (ps ++ [p])).healthy = true ↔
      (run h cfg ps).healthy = true ∨ atLeastOne cfg.healthyThreshold ≤ succeeded cfg (ps ++ [p]) := by
  have hcount := getSuccesses_run h cfg hlen
  rw [run_append] at hcount ⊢
  simp only [probe, checked, hok, if_true, markHealthy] at hcount ⊢
  rw [← hcount]
  by_cases hhealthy : (run h cfg ps).healthy = true
  · simp [hhealthy]
  · rw [Bool.not_eq_true] at hhealthy
    split_ifs with hw
    · simp [hw.1]
    · simpa [hhealthy] using hw

theorem healthy_failure (hok : p.ok = false) (hlen : (ps ++ [p]).length < 2 ^ 31) :
    (run h cfg (ps ++ [p])).healthy = true ↔ (run h cfg ps).healthy = true ∧
      (h.inGrace cfg p.now ∨ (failed cfg (ps ++ [p]) : ℤ) < atLeastOne cfg.unhealthyThreshold) := by
  have hcount := getFailures_run h cfg hlen
  rw [run_append] at hcount ⊢
  simp only [probe, checked, hok, Bool.false_eq_true, if_false, markUnhealthy] at hcount ⊢
  split_ifs at hcount ⊢ with hgrace hw
  · simp [hgrace]
  · rw [← hcount]
    simp [hgrace, hw.1]
  · rw [← hcount]
    by_cases hhealthy : (run h cfg ps).healthy = true
    · simpa [hgrace, hhealthy] using hw
    · simp [hhealthy]

theorem streak_failed (hhealthy : (run h cfg ps).healthy = true) (hlen : ps.length < 2 ^ 31) :
    Streak h cfg ps k false true ↔ k ≤ failed cfg ps := by
  induction ps using List.reverseRecOn generalizing k with
  | nil => simp [Streak, failed, standing]
  | append_singleton ps p ih =>
    cases k with
    | zero => simp [streak_zero]
    | succ k =>
      rw [streak_append, failed_append]
      cases hok : p.ok with
      | true => simp
      | false =>
        obtain ⟨hbefore, -⟩ := (healthy_failure hok hlen).mp hhealthy
        simp [hbefore, ih hbefore (length_lt_of_append hlen)]

theorem streak_succeeded (hhealthy : (run h cfg ps).healthy = false) (hlen : ps.length < 2 ^ 31) :
    Streak h cfg ps k true false ↔ k ≤ succeeded cfg ps := by
  induction ps using List.reverseRecOn generalizing k with
  | nil => simp [Streak, succeeded, standing]
  | append_singleton ps p ih =>
    cases k with
    | zero => simp [streak_zero]
    | succ k =>
      rw [streak_append, succeeded_append]
      cases hok : p.ok with
      | false => simp
      | true =>
        have hbefore : (run h cfg ps).healthy = false := by
          by_contra hset
          rw [Bool.not_eq_false] at hset
          rw [(healthy_success hok hlen).mpr (.inl hset)] at hhealthy
          cases hhealthy
        simp [hbefore, ih hbefore (length_lt_of_append hlen)]

def count (threshold : ℤ) : ℕ := (atLeastOne threshold).toNat

theorem count_eq (threshold : ℤ) :
    ∃ k, count threshold = k + 1 ∧ atLeastOne threshold = (k + 1 : ℕ) := by
  have hone := one_le_atLeastOne threshold
  refine ⟨count threshold - 1, ?_, ?_⟩ <;> unfold count <;> omega

theorem rises_iff (hlen : (ps ++ [p]).length < 2 ^ 31) :
    (run h cfg ps).healthy = false ∧ (run h cfg (ps ++ [p])).healthy = true ↔
      Streak h cfg (ps ++ [p]) (count cfg.healthyThreshold) true false := by
  obtain ⟨k, hk, hk'⟩ := count_eq cfg.healthyThreshold
  have hshort := length_lt_of_append hlen
  rw [hk, streak_append]
  constructor
  · rintro ⟨hbefore, hafter⟩
    cases hok : p.ok with
    | false =>
      rw [((healthy_failure hok hlen).mp hafter).1] at hbefore
      cases hbefore
    | true =>
      rw [healthy_success hok hlen, hk', succeeded_append, hok, hbefore] at hafter
      refine ⟨rfl, hbefore, (streak_succeeded hbefore hshort).mpr ?_⟩
      simpa using hafter
  · rintro ⟨hok, hbefore, hstreak⟩
    have hle := (streak_succeeded hbefore hshort).mp hstreak
    refine ⟨hbefore, (healthy_success hok hlen).mpr (.inr ?_)⟩
    rw [hk', succeeded_append, hok]
    exact_mod_cast Nat.succ_le_succ hle

theorem falls_iff (hlen : (ps ++ [p]).length < 2 ^ 31) :
    (run h cfg ps).healthy = true ∧ (run h cfg (ps ++ [p])).healthy = false ↔
      ¬ h.inGrace cfg p.now ∧ Streak h cfg (ps ++ [p]) (count cfg.unhealthyThreshold) false true := by
  obtain ⟨k, hk, hk'⟩ := count_eq cfg.unhealthyThreshold
  have hshort := length_lt_of_append hlen
  rw [hk, streak_append, ← Bool.not_eq_true ((run h cfg (ps ++ [p])).healthy)]
  constructor
  · rintro ⟨hbefore, hafter⟩
    cases hok : p.ok with
    | true => exact (hafter ((healthy_success hok hlen).mpr (.inl hbefore))).elim
    | false =>
      rw [healthy_failure hok hlen, hk', failed_append, hok, hbefore] at hafter
      push Not at hafter
      obtain ⟨hgrace, hcount⟩ := hafter rfl
      refine ⟨hgrace, rfl, hbefore, (streak_failed hbefore hshort).mpr ?_⟩
      simpa using hcount
  · rintro ⟨hgrace, hok, hbefore, hstreak⟩
    have hle := (streak_failed hbefore hshort).mp hstreak
    refine ⟨hbefore, fun hafter => ?_⟩
    obtain ⟨-, hin | hlt⟩ := (healthy_failure hok hlen).mp hafter
    · exact hgrace hin
    · rw [hk', failed_append, hok] at hlt
      simp only [Bool.false_eq_true, if_false] at hlt
      omega

/-- The flag is set exactly by a probe with which the successes while it was cleared reach the
threshold, and cleared exactly by a probe after the grace period at which enough probes in a row
have failed. -/
theorem flag_changes_iff (h : HealthChecker) (cfg : HealthCheckConfig) (ps : List Probe) (p : Probe)
    (hlen : (ps ++ [p]).length < 2 ^ 31) :
    ((run h cfg ps).healthy = false ∧ (run h cfg (ps ++ [p])).healthy = true ↔
        Streak h cfg (ps ++ [p]) (count cfg.healthyThreshold) true false) ∧
      ¬ Streak h cfg (ps ++ [p]) (count cfg.healthyThreshold + 1) true false ∧
      ((run h cfg ps).healthy = true ∧ (run h cfg (ps ++ [p])).healthy = false ↔
        ¬ h.inGrace cfg p.now ∧ Streak h cfg (ps ++ [p]) (count cfg.unhealthyThreshold) false true) ∧
      (h.inGrace cfg p.now → (run h cfg ps).healthy = true →
        (run h cfg (ps ++ [p])).healthy = true) := by
  have hshort := length_lt_of_append hlen
  refine ⟨rises_iff hlen, fun hlong => ?_, falls_iff hlen, fun hgrace hbefore => ?_⟩
  · -- a longer streak would have set the flag one probe earlier
    obtain ⟨-, hcleared, hstreak⟩ := streak_append.mp hlong
    obtain ⟨k, hk, -⟩ := count_eq cfg.healthyThreshold
    cases ps using List.reverseRecOn with
    | nil =>
      rw [hk] at hstreak
      exact absurd hstreak.1 (Nat.not_succ_le_zero k)
    | append_singleton ps q =>
      rw [((rises_iff hshort).mpr hstreak).2] at hcleared
      cases hcleared
  · by_contra hafter
    rw [Bool.not_eq_true] at hafter
    exact ((falls_iff hlen).mp ⟨hbefore, hafter⟩).1 hgrace

def twoUp : HealthCheckConfig :=
  { healthyThreshold := 2, unhealthyThreshold := 0, startupGracePeriod := 10 }

/-- A failure in the grace period, one after it, and two successes. -/
theorem flag_changes_secondSuccess :
    (run { cfg := twoUp } twoUp [⟨false, 5⟩, ⟨false, 12⟩, ⟨true, 20⟩]).healthy = false ∧
      (run { cfg := twoUp } twoUp [⟨false, 5⟩]).healthy = true ∧
      Streak { cfg := twoUp } twoUp
        [⟨false, 5⟩, ⟨false, 12⟩, ⟨true, 20⟩, ⟨true, 30⟩] 2 true false := by
  refine ⟨by decide, by decide, ?_⟩
  exact (flag_changes_iff { cfg := twoUp } twoUp
    [⟨false, 5⟩, ⟨false, 12⟩, ⟨true, 20⟩] ⟨true, 30⟩ (by decide)).1.mp
    ⟨by decide, by decide⟩

end ReverseProxyLb.Health.Hysteresis

import ReverseProxyLb.Limiter.Gcra

/-! A refused call is told how long to wait, in whole seconds. The wait is exact as long as
it fits a duration together with the second that it is rounded by. -/
namespace ReverseProxyLb.Limiter
open Lib GcraLimiter

/-- The seconds that `retryAfterHeader` sends. -/
def retryAfterSeconds (retry floor : ℤ) : ℤ :=
  let secs :=
    if 0 < retry then
      let ceil := (int64 (retry + Time.second - 1)).tdiv Time.second
      if floor < ceil then ceil else floor
    else floor
  if secs < 0 then 0 else secs

def retryAfterHeader (retry floor : ℤ) : String := toString (retryAfterSeconds retry floor)

theorem int64_of_overflow {n : ℤ} (h₀ : Time.maxDuration < n) (h₁ : n < 2 ^ 64) :
    int64 n = n - 2 ^ 64 := by
  unfold Time.maxDuration at h₀
  rw [int64, Int.bmod_def, Int.emod_eq_of_lt (by omega) (by exact_mod_cast h₁)]
  norm_num
  omega

theorem le_retryAfterSeconds {retry : ℤ} (h₀ : 0 < retry)
    (h₁ : retry + Time.second - 1 ≤ Time.maxDuration) (floor : ℤ) :
    retry ≤ retryAfterSeconds retry floor * Time.second := by
  have hsum : int64 (retry + Time.second - 1) = retry + Time.second - 1 :=
    int64_of_bounds (by unfold Time.second; omega) h₁
  have hceil : retry ≤ (retry + Time.second - 1).tdiv Time.second * Time.second := by
    rw [Int.tdiv_eq_ediv_of_nonneg (by unfold Time.second; omega)]
    unfold Time.second
    omega
  unfold retryAfterSeconds
  rw [if_pos h₀, hsum]
  unfold Time.second at hceil ⊢
  dsimp only
  split_ifs <;> omega

theorem retryAfterSeconds_wraps {retry : ℤ} (h₀ : Time.maxDuration < retry + Time.second - 1)
    (h₁ : retry ≤ Time.maxDuration) : retryAfterSeconds retry 0 = 0 := by
  have hsum : int64 (retry + Time.second - 1) = retry + Time.second - 1 - 2 ^ 64 := by
    apply int64_of_overflow h₀
    unfold Time.maxDuration at h₁
    unfold Time.second
    omega
  have hneg : (retry + Time.second - 1 - 2 ^ 64).tdiv Time.second ≤ 0 := by
    unfold Time.maxDuration at h₁
    unfold Time.second
    rw [← neg_neg (retry + 1000000000 - 1 - 2 ^ 64), Int.neg_tdiv, Left.neg_nonpos_iff]
    exact Int.tdiv_nonneg (by omega) (by decide)
  unfold retryAfterSeconds
  rw [hsum]
  dsimp only
  rw [if_neg (not_lt.mpr hneg), ite_self]
  rfl

namespace GcraLimiter
variable {g : GcraLimiter}

theorem after_refused {calls : List ℤ} (h : ∀ r ∈ replies reserve g calls, r.1 = false) :
    g.after calls = g := by
  induction calls with
  | nil => rfl
  | cons now calls ih =>
    rw [replies_cons, List.forall_mem_cons] at h
    have hsame := reserve_refused h.1
    change (g.reserve now).2.after calls = g
    rw [hsame] at h ⊢
    exact ih h.2

theorem after_burst (calls : List ℤ) : (g.after calls).burst = g.burst := by
  induction calls generalizing g with
  | nil => rfl
  | cons now calls ih => exact ih.trans (reserve_burst now)

theorem reserve_wait (hb : 1 ≤ g.burst) (ht : 0 ≤ g.tolerance) {now : ℤ}
    (h : (g.reserve now).1.1 = false) :
    0 < g.tat - g.tolerance - now ∧ (g.reserve now).1.2 = Time.saturate (g.tat - g.tolerance - now) ∧
      ∀ t, (g.reserve t).1.1 = true ↔ g.tat - g.tolerance ≤ t := by
  have hmeter : (g.meter.reserve g.tat now).1.1 = false := by
    rw [(reserve_meter hb now).1, clip_fst] at h
    exact h
  have hlate : ¬ Meter.arrival (g.tat : WithBot ℤ) now - g.tolerance ≤ now := by
    intro hle
    rw [Meter.reserve_of_le hle] at hmeter
    cases hmeter
  have hwait : (g.meter.reserve g.tat now).1.2 = g.tat - g.tolerance - now := by
    rw [Meter.reserve_of_not_le hlate]
    rw [Meter.arrival_coe] at hlate ⊢
    change max g.tat now - g.tolerance - now = _
    omega
  obtain ⟨hpos, -, -⟩ := Meter.reserve_after_wait ht hmeter now
  refine ⟨hwait ▸ hpos, ?_, fun t => ?_⟩
  · rw [(reserve_meter hb now).1, clip, hwait]
  · obtain ⟨-, -, hadmits⟩ := Meter.reserve_after_wait ht hmeter t
    rw [(reserve_meter hb t).1, clip_fst, hadmits, hwait, add_sub_cancel]

/-- A call is admitted from the end of the wait on, unless another comes first, and the header
names no shorter wait. -/
structure ExactWait (g : GcraLimiter) (now : ℤ) : Prop where
  admitted : ∀ (between : List ℤ) (t : ℤ), now ≤ t → (∀ r ∈ replies reserve g between, r.1 = false) →
    (((g.after between).reserve t).1.1 = true ↔ now + (g.reserve now).1.2 ≤ t)
  header : ∀ floor, (g.reserve now).1.2 ≤ retryAfterSeconds (g.reserve now).1.2 floor * Time.second
  alone : ∀ floor, (g.reserve (now + retryAfterSeconds (g.reserve now).1.2 floor * Time.second)).1.1 =
    true

theorem reserve_wait_pos (hb : 1 ≤ g.burst) (ht : 0 ≤ g.tolerance) {now : ℤ}
    (h : (g.reserve now).1.1 = false) :
    0 < (g.reserve now).1.2 := by
  obtain ⟨hpos, hwait, -⟩ := reserve_wait hb ht h
  rw [hwait]
  unfold Time.saturate Time.minDuration Time.maxDuration
  omega

theorem exactWait_iff (hb : 1 ≤ g.burst) (ht : 0 ≤ g.tolerance) {now : ℤ}
    (h : (g.reserve now).1.1 = false) :
    g.ExactWait now ↔ g.tat - g.tolerance - now + Time.second - 1 ≤ Time.maxDuration := by
  obtain ⟨hpos, hwait, hadmits⟩ := reserve_wait hb ht h
  constructor
  · intro hexact
    by_contra hlong
    have hsaturated : (g.reserve now).1.2 ≤ Time.maxDuration ∧
        Time.maxDuration < (g.reserve now).1.2 + Time.second - 1 := by
      rw [hwait]
      unfold Time.saturate Time.minDuration Time.maxDuration Time.second at *
      omega
    -- the rounding wraps, and a floor of zero leaves a header of zero seconds
    have hheader := hexact.header 0
    rw [retryAfterSeconds_wraps hsaturated.2 hsaturated.1, zero_mul] at hheader
    exact absurd (reserve_wait_pos hb ht h) (not_lt.mpr hheader)
  · intro hshort
    have hsecond : (1 : ℤ) ≤ Time.second := by decide
    rw [Time.saturate_of_le hpos.le (by omega)] at hwait
    have hheader : ∀ floor,
        (g.reserve now).1.2 ≤ retryAfterSeconds (g.reserve now).1.2 floor * Time.second := by
      intro floor
      rw [hwait]
      exact le_retryAfterSeconds hpos hshort floor
    refine ⟨fun between t _ hrefused => ?_, hheader, fun floor => ?_⟩
    · rw [after_refused hrefused, hadmits, hwait, add_sub_cancel]
    · have hlong := hheader floor
      rw [hadmits]
      rw [hwait] at hlong ⊢
      omega

end GcraLimiter

/-- A refused call is told a positive wait and consumes nothing, and the wait is exact exactly if
it can be rounded up as a duration. -/
theorem refused_wait_exact_iff {rps : ℚ} {burst : ℤ} (hb : 1 ≤ burst)
    (h₀ : 0 ≤ (newGCRA rps burst).emission * (burst - 1))
    (h₁ : (newGCRA rps burst).emission * (burst - 1) ≤ Time.maxDuration) (calls : List ℤ) (now : ℤ) :
    let g := (newGCRA rps burst).after calls
    (g.reserve now).1.1 = false →
      0 < (g.reserve now).1.2 ∧ (g.reserve now).2 = g ∧
        (g.ExactWait now ↔ g.tat - g.tolerance - now + Time.second - 1 ≤ Time.maxDuration) := by
  intro g h
  have hburst : 1 ≤ g.burst := by
    rw [after_burst]
    exact hb
  have htolerance : 0 ≤ g.tolerance := by
    rw [after_config, newGCRA_tolerance hb h₀ h₁]
    exact h₀
  exact ⟨reserve_wait_pos hburst htolerance h, reserve_refused h, exactWait_iff hburst htolerance h⟩

/-- The third call of a burst of two is told to wait for a second. -/
theorem refused_wait_exact_third :
    (((newGCRA 1 2).after [7, 7]).reserve 7).1 = (false, 1000000000) ∧
      ((newGCRA 1 2).after [7, 7]).ExactWait 7 :=
  ⟨by decide +kernel, (refused_wait_exact_iff (by decide) (by decide +kernel) (by decide +kernel)
    [7, 7] 7
    (by decide +kernel)).2.2.mpr (by decide +kernel)⟩

/-- At a rate of one event in 292 years the rounding of the interval overflows, and after a clock
that goes back by two millennia the wait saturates. -/
theorem long_wait_not_exact :
    (let g := newGCRA (8388608000000001 / 77371252455336267181195264) 1
     g.emission = 2 ^ 63 - 1024 ∧ ((g.after [7]).reserve 7).1 = (false, 2 ^ 63 - 1024) ∧
       retryAfterHeader (2 ^ 63 - 1024) 1 = "1" ∧ ¬ (g.after [7]).ExactWait 7) ∧
    let g := (newGCRA 1 1).after [Time.unixEpoch]
    (g.reserve 0).1 = (false, Time.maxDuration) ∧ (g.reserve (0 + Time.maxDuration)).1.1 = false ∧
      ¬ g.ExactWait 0 := by
  refine ⟨⟨by decide +kernel, by decide +kernel, by decide +kernel, fun h => ?_⟩,
    by decide +kernel, by decide +kernel, fun h => ?_⟩
  · exact absurd (h.header 1) (by decide +kernel)
  · exact absurd (h.header 1) (by decide +kernel)

end ReverseProxyLb.Limiter

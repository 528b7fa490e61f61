import ReverseProxyLb.Proxy.Attempt

/-! The doubling of the ceiling is guarded by the sign of the shifted value, and a positive
value that overflows when it is doubled always becomes negative or zero. -/
namespace ReverseProxyLb.Proxy
open Lib

theorem double_cases {c : ℤ} (h₀ : 0 < c) (h₁ : c < Time.maxDuration) :
    (c * 2).bmod (2 ^ 64) = c * 2 ∧ c * 2 < Time.maxDuration ∨
      (c * 2).bmod (2 ^ 64) ≤ 0 ∧ 2 ^ 63 ≤ c * 2 := by
  unfold Time.maxDuration at h₁ ⊢
  rw [Int.bmod_def]
  omega

theorem backoffCeiling_bounds (n : ℕ) {c : ℤ} (h₀ : 0 < c) (h₁ : c < Time.maxDuration) :
    0 < backoffCeiling n c ∧ backoffCeiling n c < Time.maxDuration ∧
      backoffCeiling n c ≤ c * 2 ^ n := by
  induction n generalizing c with
  | zero => simp [backoffCeiling, h₀, h₁]
  | succ n ih =>
    unfold backoffCeiling
    dsimp only
    obtain ⟨heq, hlt⟩ | ⟨hneg, hle⟩ := double_cases h₀ h₁
    · rw [heq, if_neg (by omega)]
      obtain ⟨hpos, hroom, hbound⟩ := ih (by omega) hlt
      exact ⟨hpos, hroom, hbound.trans_eq (by ring)⟩
    · rw [if_pos hneg]
      refine ⟨by norm_num, by norm_num [Time.maxDuration], ?_⟩
      calc (2 : ℤ) ^ 62 ≤ c * 2 := by omega
        _ = c * 2 * 1 := (mul_one _).symm
        _ ≤ c * 2 * 2 ^ n := by
          gcongr
          exact one_le_pow₀ (by norm_num)
        _ = c * 2 ^ (n + 1) := by ring

/-- From the first retry on the backoff is one draw of `Int63n`, whose argument is positive and
has not overflowed, and it is within both bounds. -/
theorem calculateBackoff_safe (p : Settings) {attempt : ℕ} (h : 1 ≤ attempt) :
    0 < backoffCeiling (attempt - 1) Time.second ∧
      backoffCeiling (attempt - 1) Time.second ≤ Time.second * 2 ^ (attempt - 1) ∧
      ∃ ceiling, calculateBackoff p attempt = int63n (int64 (ceiling + 1)) ∧
        int64 (ceiling + 1) = ceiling + 1 ∧ 0 < int64 (ceiling + 1) ∧
        ∀ d, 0 ≤ d → d < int64 (ceiling + 1) →
          d ≤ Time.second * 2 ^ (attempt - 1) ∧
            (0 < p.retryConfig.maxBackoff → d ≤ p.retryConfig.maxBackoff) := by
  obtain ⟨hpos, hroom, hbound⟩ :=
    backoffCeiling_bounds (attempt - 1) (c := Time.second) (by decide) (by decide)
  refine ⟨hpos, hbound, ?_⟩
  generalize hc : backoffCeiling (attempt - 1) Time.second = c at *
  -- The ceiling after the configured bound.
  obtain ⟨m, hm, h₀, hle, hmax⟩ :
      ∃ m, (if 0 < p.retryConfig.maxBackoff ∧ p.retryConfig.maxBackoff < c then
      p.retryConfig.maxBackoff else c) = m ∧ 0 < m ∧ m ≤ c ∧
      (0 < p.retryConfig.maxBackoff → m ≤ p.retryConfig.maxBackoff) := by
    split_ifs with hcap
    · exact ⟨_, rfl, hcap.1, hcap.2.le, fun _ => le_rfl⟩
    · exact ⟨_, rfl, hpos, le_rfl, fun h => by omega⟩
  have hwrap : int64 (m + 1) = m + 1 := int64_of_bounds (by omega) (by omega)
  refine ⟨m, ?_, hwrap, by omega, fun d _ hd => ⟨by omega, fun h => ?_⟩⟩
  · simp only [calculateBackoff, hc, hm, hwrap]
    rw [if_neg (by omega), if_neg (by omega)]
  · have := hmax h
    omega

/-- The twelfth retry under a bound of half a minute. -/
theorem calculateBackoff_bounded :
    let p : Settings := { retryConfig := { maxBackoff := 30 * Time.second } }
    ∃ ceiling, calculateBackoff p 12 = int63n (int64 (ceiling + 1)) ∧ 0 < int64 (ceiling + 1) := by
  intro p
  obtain ⟨-, -, ceiling, heq, -, hpos, -⟩ := calculateBackoff_safe p (show 1 ≤ 12 by decide)
  exact ⟨ceiling, heq, hpos⟩

end ReverseProxyLb.Proxy

import Mathlib.Data.Int.Log
import ReverseProxyLb.Base.Time

/-! Arithmetic of the source's number types, for values whose rounding or overflow
decides what the code does. -/
namespace ReverseProxyLb

/-- The `float64` nearest to a positive rational in the normal range, ties to even. -/
def float64 (q : ℚ) : ℚ :=
  let ulp : ℚ := 2 ^ (Int.log 2 q - 52)
  let n := (q / ulp).floor
  let rest := q / ulp - n
  ulp * (if rest < 1 / 2 ∨ (rest = 1 / 2 ∧ n % 2 = 0) then n else n + 1)

theorem float64_of_dyadic {m : ℕ} (h₀ : 0 < m) (h₁ : m < 2 ^ 53) (e : ℤ) :
    float64 (m * 2 ^ e) = m * 2 ^ e := by
  have hq : (0 : ℚ) < m * 2 ^ e := by positivity
  have hlog : Int.log 2 ((m : ℚ) * 2 ^ e) ≤ e + 52 := by
    have hlt : (m : ℚ) * 2 ^ e < (2 : ℕ) ^ (e + 53) := by
      rw [Nat.cast_ofNat, zpow_add₀ (by norm_num), mul_comm]
      gcongr
      exact_mod_cast h₁
    have := (Int.lt_zpow_iff_log_lt (by norm_num) hq).mp hlt
    omega
  obtain ⟨k, hk⟩ := Int.eq_ofNat_of_zero_le (sub_nonneg.mpr hlog)
  have hunits : (m : ℚ) * 2 ^ e / 2 ^ (Int.log 2 ((m : ℚ) * 2 ^ e) - 52) = ((m * 2 ^ k : ℤ) : ℚ) := by
    rw [mul_div_assoc, ← zpow_sub₀ (by norm_num),
      show e - (Int.log 2 ((m : ℚ) * 2 ^ e) - 52) = (k : ℤ) by omega]
    push_cast
    rw [zpow_natCast]
  unfold float64
  dsimp only
  rw [hunits]
  rw [Rat.floor_intCast, sub_self, if_pos (.inl (by norm_num)), ← hunits,
    mul_div_cancel₀ _ (by positivity)]

theorem float64_dyadic (q : ℚ) : ∃ n k : ℤ, float64 q = n * 2 ^ k := by
  unfold float64
  dsimp only
  split_ifs
  · exact ⟨_, _, mul_comm _ _⟩
  · exact ⟨_ + 1, _, by push_cast; exact mul_comm _ _⟩

/-- `int64` arithmetic wraps around. -/
def int64 (n : ℤ) : ℤ := Int.bmod n (2 ^ 64)

theorem int64_of_bounds {n : ℤ} (h₀ : 0 ≤ n) (h₁ : n ≤ Time.maxDuration) : int64 n = n := by
  simp only [Time.maxDuration] at h₁
  exact Int.bmod_eq_of_le (by omega) (by omega)

theorem toInt_add_one {c : Int32} (h : c.toInt < 2 ^ 31 - 1) : (c + 1).toInt = c.toInt + 1 := by
  have := Int32.le_toInt c
  rw [Int32.toInt_add]
  change (c.toInt + 1).bmod (2 ^ 32) = _
  exact Int.bmod_eq_of_le (by omega) (by omega)

namespace Time

/-- `d.Seconds()` of a duration that is not negative. -/
def seconds (d : ℤ) : ℚ :=
  float64 (float64 (d.tdiv second) + float64 (float64 (d.tmod second) / 1000000000))

/-- `time.Duration(f)` truncates towards zero; outside the range of an `int64` it gives the amd64
value. -/
def ofFloat64 (f : ℚ) : ℤ :=
  let n := f.num.tdiv f.den
  if minDuration ≤ n ∧ n ≤ maxDuration then n else minDuration

theorem ofFloat64_le (f : ℚ) : ofFloat64 f ≤ maxDuration := by
  unfold ofFloat64
  dsimp only
  split_ifs with h
  · exact h.2
  · decide

theorem ofFloat64_intCast {n : ℤ} (h₀ : minDuration ≤ n) (h₁ : n ≤ maxDuration) : ofFloat64 n = n := by
  unfold ofFloat64
  dsimp only
  rw [Rat.num_intCast, Rat.den_intCast, Nat.cast_one, Int.tdiv_one, if_pos ⟨h₀, h₁⟩]

end Time
end ReverseProxyLb

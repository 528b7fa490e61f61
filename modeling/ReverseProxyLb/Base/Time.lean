import Mathlib.Tactic

/-! Instants and durations as the source uses them, in nanoseconds. An instant
counts from the zero `time.Time`, so `0` is the instant `IsZero` accepts. -/
namespace ReverseProxyLb

abbrev Clock := ℕ → ℤ

namespace Time

def maxDuration : ℤ := 2 ^ 63 - 1
def minDuration : ℤ := -2 ^ 63

/-- `t.Sub(u)`, which saturates at the bounds of an `int64`. -/
def sub (t u : ℤ) : ℤ := max minDuration (min (t - u) maxDuration)

def saturate (d : ℤ) : ℤ := max minDuration (min d maxDuration)

theorem saturate_of_le {d : ℤ} (h₀ : 0 ≤ d) (h₁ : d ≤ maxDuration) : saturate d = d := by
  unfold saturate minDuration
  omega

def isZero (t : ℤ) : Bool := t == 0

def second : ℤ := 1000000000

def unixEpoch : ℤ := 62135596800 * second

def sinceEpoch (t : ℤ) : ℤ := t - unixEpoch

/-- `t.Unix()`: the whole seconds since the epoch. -/
def unix (t : ℤ) : ℤ := sinceEpoch t / second

/-- `t.UnixNano()`, an `int64` that wraps outside the years 1678 to 2262. -/
def unixNano (t : ℤ) : ℤ := Int.bmod (sinceEpoch t) (2 ^ 64)

/-- The instants that `UnixNano` is defined for. -/
def Representable (t : ℤ) : Prop := minDuration ≤ sinceEpoch t ∧ sinceEpoch t ≤ maxDuration

instance (t : ℤ) : Decidable (Representable t) := inferInstanceAs (Decidable (_ ∧ _))

theorem Representable.unixNano {t : ℤ} (h : Representable t) : unixNano t = sinceEpoch t := by
  obtain ⟨hmin, hmax⟩ := h
  unfold minDuration at hmin
  unfold maxDuration at hmax
  apply Int.bmod_eq_of_le <;> omega

end Time
end ReverseProxyLb

import ReverseProxyLb.Limiter.RateLimiter

/-! A refused call takes nothing from the limiter that refuses it, but a request that a
later limiter refuses has been admitted by those before it. -/
namespace ReverseProxyLb.Limiter
open Lib RateLimiter

variable {P : RatePackage}

namespace RateLimiter

variable {r : RateLimiter P} {c : Call}

theorem allowPerKey_globalLimiter (limiter : AlgoLimiter P) :
    RateLimiter.allowPerKey { r with globalLimiter := limiter } c =
      ((r.allowPerKey c).1, { (r.allowPerKey c).2 with globalLimiter := limiter }) := by
  rw [allowPerKey_eq, allowPerKey_eq]
  have hpool : ∀ (pool : Option String) (m : KeyLimiters P),
      RateLimiter.setPoolAt { r with globalLimiter := limiter } pool m =
        { r.setPoolAt pool m with globalLimiter := limiter } := by
    intro pool m
    cases pool <;> rfl
  exact congrArg (Prod.mk _) (hpool _ _)

theorem allow_globalLimiter (r : RateLimiter P) (c : Call) :
    (r.allow c).2.globalLimiter = (r.passGates c).2.2 := by
  have hset (r : RateLimiter P) (pool : Option String) (m : KeyLimiters P) :
      (r.setPoolAt pool m).globalLimiter = r.globalLimiter := by cases pool <;> rfl
  exact allow_keeps hset r c

def SameBut (t : ℤ) (a b : RateLimiter .exact) : Prop :=
  ∃ l l' : TokenBucket, a.globalLimiter = .tokenBucket l ∧
    b = { a with globalLimiter := .tokenBucket l' } ∧
    TokenBucket.Alike t l l'

section Buckets
variable {t : ℤ} {a b : RateLimiter .exact}

theorem SameBut.later (h : SameBut t a b) {now : ℤ} (hle : t ≤ now) : SameBut now a b := by
  obtain ⟨l, l', hl, hb, halike⟩ := h
  exact ⟨l, l', hl, hb, halike.later hle⟩

theorem SameBut.passGates (h : SameBut t a b) (hle : t ≤ c.now) :
    (a.passGates c).1 = (b.passGates c).1 ∧ SameBut c.now (a.afterGates c) (b.afterGates c) := by
  obtain ⟨l, l', hl, rfl, halike⟩ := h
  obtain ⟨reply, x, x', hx, hx', hnext⟩ : ∃ (reply : Bool × ℤ) (x x' : TokenBucket),
      a.globalLimiter.reserve c.now = (reply, .tokenBucket x) ∧
      (AlgoLimiter.tokenBucket (P := .exact) l').reserve c.now = (reply, .tokenBucket x') ∧
        TokenBucket.Alike c.now x x' := by
    obtain ⟨hreply, hnext⟩ := halike.reserve hle
    refine ⟨_, _, _, ?_, Prod.ext hreply.symm rfl, hnext⟩
    rw [hl]
    rfl
  unfold RateLimiter.afterGates RateLimiter.passGates
  simp only [hx, hx']
  cases a.store with
  | none => exact ⟨rfl, x, x', rfl, rfl, hnext⟩
  | some store =>
    dsimp only
    split
    · exact ⟨rfl, x, x', rfl, rfl, hnext⟩
    · exact ⟨rfl, l, l', hl, rfl, halike.later hle⟩

theorem SameBut.allow (h : SameBut t a b) (hle : t ≤ c.now) :
    (a.allow c).1 = (b.allow c).1 ∧ SameBut c.now (a.allow c).2 (b.allow c).2 := by
  obtain ⟨hwait, hafter⟩ := h.passGates hle
  rw [allow_eq, allow_eq, hwait]
  cases (b.passGates c).1 with
  | some wait => exact ⟨rfl, hafter⟩
  | none =>
    obtain ⟨l, l', hl, hb, halike⟩ := hafter
    rw [Option.elim_none, Option.elim_none, hb,
      allowPerKey_globalLimiter (r := a.afterGates c) (.tokenBucket l')]
    refine ⟨rfl, l, l', ?_, rfl, halike⟩
    rw [allowPerKey_eq]
    cases (a.afterGates c).target c.rule <;> exact hl

theorem SameBut.turn (h : SameBut t a b) (x : Turn) (hle : t ≤ x.time) :
    (a.turn x).1 = (b.turn x).1 ∧ SameBut x.time (a.turn x).2 (b.turn x).2 := by
  cases x with
  | request c => exact ⟨congrArg some (h.allow hle).1, (h.allow hle).2⟩
  | tick now =>
    obtain ⟨l, l', hl, rfl, halike⟩ := h.later hle
    exact ⟨rfl, l, l', hl, rfl, halike⟩

end Buckets

section Meters
variable {a b : RateLimiter P}

def SameMetered (_ : Unit) (a b : RateLimiter P) : Prop := a = b ∧ ∃ g, a.globalLimiter = .gcra g

theorem SameMetered.turn {u : Unit} (h : SameMetered u a b) (x : Turn) :
    (a.turn x).1 = (b.turn x).1 ∧ SameMetered () (a.turn x).2 (b.turn x).2 := by
  obtain ⟨rfl, g, hg⟩ := h
  refine ⟨rfl, rfl, ?_⟩
  cases x with
  | tick now => exact ⟨g, hg⟩
  | request c =>
    change ∃ g, (a.allow c).2.globalLimiter = .gcra g
    rw [allow_globalLimiter]
    unfold RateLimiter.passGates
    rw [hg]
    cases a.store with
    | none => exact ⟨_, rfl⟩
    | some store =>
      dsimp only
      split
      · exact ⟨_, rfl⟩
      · exact ⟨g, rfl⟩

end Meters
end RateLimiter

end ReverseProxyLb.Limiter

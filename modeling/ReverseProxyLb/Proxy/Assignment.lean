import ReverseProxyLb.Proxy.Routing
import ReverseProxyLb.Balancer.Ramp

/-! `selectBackend` against the balancer of the request. Without sticky sessions it is a
call by key on every nesting, so the rejection loops of the slow starts are never entered.
-/
namespace ReverseProxyLb

def Picked.outcome : Picked → Lib.Outcome (Except String (Option Backend))
  | .backend b => .returned (.ok (some b))
  | .nil => .returned (.ok none)
  | .error msg => .returned (.error msg)
  | .panic => .panicked

theorem Picked.outcome_injective : Function.Injective Picked.outcome := by
  intro p q h
  cases p <;> cases q <;> simp_all [Picked.outcome]

def outcomeOf (p : Picked × World) : Lib.Outcome (Except String (Option Backend)) × World :=
  (p.1.outcome, p.2)

theorem outcomeOf_injective : Function.Injective outcomeOf := by
  intro p q h
  obtain ⟨hpick, hworld⟩ := Prod.ext_iff.mp h
  exact Prod.ext (Picked.outcome_injective hpick) hworld

end ReverseProxyLb

namespace ReverseProxyLb.Proxy
open Lib

/-- The operations of a selection, carried out by the balancer on its state; it asks for
nothing else. -/
def answerFrom (B : Balancer) : (o : FrontOp) → World → Outcome (FrontAns o) × World
  | .next _, w => outcomeOf (B.next w)
  | .nextForKey _ key, w => outcomeOf (B.select key w)
  | .getHealthy _, w => (.returned w.getHealthy, w)
  | .plain (.incrConn b), w => (.returned (), w.incrConn b)
  | _, w => (.panicked, w)

namespace Front
variable (F : Front) (r : Incoming)

def affinity : String := if F.sticky.enabled then F.stickyToken r else ""

def pinned (w : World) : Option Backend :=
  if F.affinity r = "" then none else w.getHealthy.find? fun b => backendToken b = F.affinity r

def selectionKey : String := if F.affinity r = "" then r.clientIP else F.affinity r

variable {F r} {B : Balancer} {g : Group}

theorem nextFrom_solo (hg : g.keyed = B.nextForKey.isSome) (key : String) (w : World) :
    (nextFrom g key).solo (answerFrom B) w = some (outcomeOf (B.select key w)) := by
  unfold nextFrom
  cases hf : B.nextForKey with
  | none =>
    rw [hg, hf, Balancer.select_of_none hf]
    exact Prog.solo_perform (answerFrom B) (.next g) w
  | some f =>
    rw [hg, hf]
    exact Prog.solo_perform (answerFrom B) (.nextForKey g key) w

theorem selectBackend_solo (hr : r.balancerCtx = some g) (hg : g.keyed = B.nextForKey.isSome)
    (w : World) :
    (F.selectBackend r).solo (answerFrom B) w =
      some (match F.pinned r w with
        | some b => (.returned (.ok (some b)), w.incrConn b)
        | none => outcomeOf (B.select (F.selectionKey r) w)) := by
  have hctx : F.balancerFor r = pure g := by
    unfold balancerFor
    rw [hr]
  unfold selectBackend
  rw [hctx]
  unfold pinned selectionKey affinity
  by_cases hsticky : F.sticky.enabled
  · by_cases htoken : F.stickyToken r = ""
    · simp only [hsticky, htoken, if_true]
      exact nextFrom_solo hg r.clientIP w
    · simp only [hsticky, htoken, if_true, if_false, ne_eq, not_false_eq_true]
      unfold backendForToken
      rw [hctx]
      change (match w.getHealthy.find? fun b => backendToken b = F.stickyToken r with
        | some b => (do
            (.perform (FrontOp.plain (.incrConn b)) : Serve Unit)
            pure (.ok (some b)) : Serve (Except String (Option Backend)))
        | none => nextFrom g (F.stickyToken r)).solo (answerFrom B) w = _
      cases w.getHealthy.find? fun b => backendToken b = F.stickyToken r with
      | some b => rfl
      | none => exact nextFrom_solo hg _ w
  · simp only [hsticky]
    exact nextFrom_solo hg r.clientIP w

/-- Without sticky sessions, a request over a base without keys gets the backend that `Next` would
give it if every healthy backend has ramped up, and otherwise not while the random numbers do not
repeat. -/
theorem selectBackend_ramps (hsticky : F.sticky.enabled = false) {n : Nesting}
    (hbase : n.algorithm.nextForKey = none) (hr : r.balancerCtx = some g)
    (hg : g.keyed = n.balancer.nextForKey.isSome) {w : World} (hne : w.getHealthy ≠ []) :
    ((∀ b ∈ (n.settled w).getHealthy, n.Ramped w b) →
      (F.selectBackend r).solo (answerFrom n.balancer) w = some (outcomeOf (n.balancer.next w))) ∧
    (Function.Injective w.draws →
      ((F.selectBackend r).solo (answerFrom n.balancer) w = some (outcomeOf (n.balancer.next w)) ↔
        ∀ b w', (F.selectBackend r).solo (answerFrom n.balancer) w =
          some (.returned (.ok (some b)), w') →
          n.Ramped w b)) := by
  have haffinity : F.affinity r = "" := by
    unfold affinity
    rw [hsticky]
    rfl
  have hsolo : (F.selectBackend r).solo (answerFrom n.balancer) w =
      some (outcomeOf (n.balancer.select r.clientIP w)) := by
    rw [selectBackend_solo hr hg]
    unfold pinned selectionKey
    rw [if_pos haffinity, if_pos haffinity]
  rw [hsolo]
  constructor
  · intro hall
    rw [Nesting.select_eq_next_of_ramped hbase hne hall]
  · intro hinj
    rw [Option.some.injEq, outcomeOf_injective.eq_iff, Nesting.select_eq_next_iff hbase hne hinj]
    constructor
    · intro hall b w' hout
      apply hall
      apply Picked.outcome_injective
      exact congrArg Prod.fst (Option.some.inj hout)
    · intro hall b hb
      apply hall b (n.balancer.select r.clientIP w).2
      rw [outcomeOf, hb]
      rfl

/-- Two backends, of which those that `seen` tells have been healthy for long. -/
def seenPair (seen : Backend → Bool) : World where
  backends := [{ addr := 0 }, { addr := 1 }]
  slow _ := { wasHealthy := fun b => if seen b then some true else none
              healthySince := fun b => if seen b then some 0 else none }
  draws i := i + 2 ^ 52
  clock _ := 100

def rampedTurns : Nesting := .slowStart 0 30 (.base .roundRobin)

def rampedGroup : Group := { id := 0, keyed := true }

def rampedFront : Front := { balancer := rampedGroup }

def pinnedGet : Incoming := { request := { method := "GET" }, balancerCtx := some rampedGroup }

theorem selectBackend_ramps_pair :
    (seenPair fun _ => true).getHealthy ≠ [] ∧
    (rampedFront.selectBackend pinnedGet).solo (answerFrom rampedTurns.balancer)
      (seenPair fun _ => true) =
      some (outcomeOf (rampedTurns.balancer.next (seenPair fun _ => true))) := by
  have hne : (seenPair fun _ => true).getHealthy ≠ [] := by decide
  refine ⟨hne, (selectBackend_ramps rfl rfl rfl rfl hne).1 ?_⟩
  intro b hb
  refine ⟨?_, trivial⟩
  have hb' : b ∈ [({ addr := 0 } : Backend), { addr := 1 }] := List.mem_of_mem_filter hb
  simp only [List.mem_cons, List.not_mem_nil, or_false] at hb'
  rcases hb' with rfl | rfl <;> decide +kernel

/-- The first backend has just become healthy: `Next` rejects it on this draw, and the
request gets it all the same. -/
theorem selectBackend_skips_ramp :
    let w := seenPair fun b => b.addr == 1
    SlowStart.factor 30 ((SlowStart.observeNow 0 w).slow 0) { addr := 0 } 100 = 1 / 100 ∧
    (rampedTurns.balancer.next w).1 = .backend { addr := 1 } ∧
    (rampedFront.selectBackend pinnedGet).solo (answerFrom rampedTurns.balancer) w =
      some (.returned (.ok (some { addr := 0 })), (rampedTurns.balancer.select "" w).2) := by
  refine ⟨by decide +kernel, by decide +kernel, ?_⟩
  rfl

end Front
end ReverseProxyLb.Proxy

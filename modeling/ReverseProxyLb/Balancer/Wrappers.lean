import ReverseProxyLb.Balancer.Algorithms
import ReverseProxyLb.Base.Number

/-! A `Balancer` is an interface value; methods that only some types have, found by type
assertion, are optional fields. A `Stack` is a nesting of wrappers around a base algorithm. -/
namespace ReverseProxyLb
open Lib

structure SubsetPicker where
  pickFrom : List Backend → Selection
  pickFromKey : List Backend → String → Selection

structure Balancer where
  next : Selection
  nextForKey : Option (String → Selection) := none
  subsetPicker : Option SubsetPicker := none

/-- The call of `selectBackend`: by key, if the balancer can do that. -/
def Balancer.select (B : Balancer) (key : String) : Selection := fun w =>
  match B.nextForKey with
  | some f => f key w
  | none => B.next w

theorem Balancer.select_of_none {B : Balancer} (h : B.nextForKey = none) (key : String) (w : World) :
    B.select key w = B.next w := by
  unfold Balancer.select
  rw [h]

theorem Balancer.select_of_some {B : Balancer} {f : String → Selection} (h : B.nextForKey = some f)
    (key : String) (w : World) : B.select key w = f key w := by
  unfold Balancer.select
  rw [h]

def statelessPick (candidates : List Backend) : Selection := fun w =>
  match candidates with
  | [] => (.error errNoHealthy, w)
  | best :: rest =>
    let scan := scanMin w.getActiveConns (some (best, w.getActiveConns best)) rest
    reserveSelected (scan.map Prod.fst) w

def hashPick (candidates : List Backend) (key : String) : Selection := fun w =>
  if candidates = [] then (.error errNoHealthy, w) else pickIndex candidates (hashKey key) w

def sameSet (a b : List Backend) : Bool := a.length == b.length && b.all (a.contains ·)

def selectFrom (inner : Balancer) (candidates : List Backend) : Selection := fun w =>
  if candidates = [] then (.error errNoHealthy, w)
  else if sameSet w.getHealthy candidates then inner.next w
  else match inner.subsetPicker with
    | some sp => sp.pickFrom candidates w
    | none => statelessPick candidates w

def keyedSelectFrom (inner : Balancer) (candidates : List Backend) (key : String) : Selection :=
  fun w =>
    if candidates = [] then (.error errNoHealthy, w)
    else if sameSet w.getHealthy candidates then
      match inner.nextForKey with
      | some f => f key w
      | none => inner.next w
    else match inner.subsetPicker, inner.nextForKey with
      | some sp, _ => sp.pickFromKey candidates key w
      | none, some _ => hashPick candidates key w
      | none, none => statelessPick candidates w

def narrowing (inner : Balancer) (eligibleFrom : List Backend → List Backend) : Balancer where
  next := fun w => selectFrom inner (eligibleFrom w.getHealthy) w
  nextForKey := some fun key w => keyedSelectFrom inner (eligibleFrom w.getHealthy) key w
  subsetPicker := some
    { pickFrom := fun candidates => selectFrom inner (eligibleFrom candidates)
      pickFromKey := fun candidates => keyedSelectFrom inner (eligibleFrom candidates) }

namespace PriorityTiers

def minTier (first : Backend) (pool : List Backend) : ℤ :=
  pool.foldl (fun m b => if b.tier < m then b.tier else m) first.tier

def eligibleFrom (pool : List Backend) : List Backend :=
  match pool with
  | [] => []
  | first :: _ => pool.filter fun b => b.tier == minTier first pool

end PriorityTiers

def newPriorityTiers (inner : Balancer) : Balancer := narrowing inner PriorityTiers.eligibleFrom

def ZoneAware.eligibleFrom (zone : String) (preferSameZone : Bool) (pool : List Backend) :
    List Backend :=
  if !preferSameZone || zone == "" then pool
  else
    let inZone := pool.filter fun b => b.zone == zone
    if inZone ≠ [] then inZone else pool

def newZoneAware (inner : Balancer) (localZone : String) (preferSameZone : Bool) : Balancer :=
  narrowing inner (ZoneAware.eligibleFrom localZone preferSameZone)

namespace SlowStart

def factor (window : ℤ) (st : SlowStartState) (b : Backend) (now : ℤ) : ℚ :=
  if window ≤ 0 then 1
  else match st.healthySince b with
    | none => 1
    | some since =>
      let elapsed := Time.sub now since
      if window ≤ elapsed then 1
      else if elapsed ≤ 0 then 1 / 100
      else
        let f : ℚ := elapsed / window
        if f < 1 / 100 then 1 / 100 else f

def observe (healthy : Backend → Bool) (now : ℤ) (st : SlowStartState) (b : Backend) :
    SlowStartState :=
  { wasHealthy := Function.update st.wasHealthy b (some (healthy b))
    healthySince := if healthy b ∧ st.wasHealthy b ≠ some true
      then Function.update st.healthySince b (some now) else st.healthySince }

def observeTransitions (addr : ℕ) (now : ℤ) (w : World) : World :=
  let st := w.backends.foldl (observe w.healthy now) (w.slow addr)
  { w with slow := Function.update w.slow addr st }

/-- The rejection loop with `attempts` rounds to go, and the backend it rejected last. -/
def rampedSelect (addr : ℕ) (window now : ℤ) (sel : Selection) : ℕ → Option Backend → Selection
  | 0, some last => reserve last
  | 0, none => fun w => (.error errNoHealthy, w)
  | attempts + 1, _ => fun w =>
    match sel w with
    | (.backend b, w) =>
      let f := factor window (w.slow addr) b now
      if 1 ≤ f then (.backend b, w)
      else
        let (r, w) := w.float64
        if r < f then (.backend b, w)
        else rampedSelect addr window now sel attempts (some b) (w.decrConn b)
    -- a nil backend has no ramp and is returned as it is
    | (r, w) => (r, w)

def attempts : ℕ := 8

def observing (addr : ℕ) (f : ℤ → Selection) : Selection := fun w =>
  let (now, w) := w.now
  f now (observeTransitions addr now w)

end SlowStart

open SlowStart in
def newSlowStart (addr : ℕ) (inner : Balancer) (window : ℤ) : Balancer where
  next := observing addr fun now => rampedSelect addr window now inner.next attempts none
  nextForKey := some fun key => observing addr fun _ w =>
    keyedSelectFrom inner w.getHealthy key w
  subsetPicker := some
    { pickFrom := fun candidates => observing addr fun now =>
        rampedSelect addr window now (selectFrom inner candidates) attempts none
      pickFromKey := fun candidates key => observing addr fun _ =>
        keyedSelectFrom inner candidates key }

/-- The parameters of an `OutlierDetection`; the constructor enables it. -/
structure OutlierConfig where
  errorRateThreshold : ℚ
  minRequests : ℤ
  baseEjection : ℤ
  maxEjectionPercent : ℤ

namespace OutlierDetection

def expired (od : OutlierConfig) (now : ℤ) (st : OutlierStat) : Bool :=
  st.ejected && decide (od.baseEjection ≤ Time.sub now st.ejectedAt)

def reinstateExpired (od : OutlierConfig) (now : ℤ) (w : World) : World :=
  { w with
    healthy := w.stats.foldl
      (fun healthy p => if expired od now p.2 then Function.update healthy p.1 true else healthy)
      w.healthy
    stats := w.stats.map fun p =>
      if expired od now p.2 then (p.1, { p.2 with ejected := false, success := 0, failure := 0 })
      else p }

theorem reinstateExpired_keys (od : OutlierConfig) (now : ℤ) (w : World) :
    (reinstateExpired od now w).stats.map Prod.fst = w.stats.map Prod.fst := by
  simp only [reinstateExpired, List.map_map]
  apply List.map_congr_left
  intro p _
  simp only [Function.comp_apply]
  split_ifs <;> rfl

def statFor (w : World) (b : Backend) : OutlierStat := (w.stats.lookup b).getD {}

def setStat (w : World) (b : Backend) (st : OutlierStat) : World :=
  { w with stats := if w.stats.any fun p => p.1 = b
      then w.stats.map fun p => if p.1 = b then (b, st) else p
      else w.stats ++ [(b, st)] }

def currentlyEjected (w : World) : ℤ := w.stats.countP fun p => p.2.ejected

/-- `float64(st.failure) / float64(total)`. -/
def errRate (failure total : ℤ) : ℚ := float64 (float64 failure / float64 total)

/-- Count an outcome, and eject the backend if its error rate is now too high. The code's `rate` is
`errRate`. -/
def observeOutcome (rate : ℤ → ℤ → ℚ) (od : OutlierConfig) (now : ℤ) (b : Backend) (ok : Bool)
    (w : World) : World :=
  let st := statFor w b
  let st := if ok then { st with success := st.success + 1 } else { st with failure := st.failure + 1 }
  let w := setStat w b st
  let total := st.success + st.failure
  if st.ejected ∨ total < od.minRequests then w
  else if rate st.failure total ≤ od.errorRateThreshold then w
  else
    let maxEject := (w.backends.length * od.maxEjectionPercent).tdiv 100
    let maxEject := if maxEject < 1 then 1 else maxEject
    if maxEject ≤ currentlyEjected w then w
    else
      let w := setStat w b { st with ejected := true, ejectedAt := now }
      { w with healthy := Function.update w.healthy b false }

def reinstating (od : OutlierConfig) (f : Selection) : Selection := fun w =>
  let (now, w) := w.now
  f (reinstateExpired od now w)

end OutlierDetection

open OutlierDetection in
def newOutlierDetection (inner : Balancer) (od : OutlierConfig) : Balancer where
  next := reinstating od inner.next
  nextForKey := some fun key => reinstating od fun w => keyedSelectFrom inner w.getHealthy key w
  subsetPicker := some
    { pickFrom := fun candidates => reinstating od (selectFrom inner candidates)
      pickFromKey := fun candidates key => reinstating od (keyedSelectFrom inner candidates key) }

/-- A nesting of the wrappers that narrow or ramp, around a base algorithm. -/
inductive Stack where
  | base (alg : Algorithm)
  | priorityTiers (inner : Stack)
  | zoneAware (localZone : String) (preferSameZone : Bool) (inner : Stack)
  | slowStart (addr : ℕ) (window : ℤ) (inner : Stack)

namespace Stack

def balancer : Stack → Balancer
  | base alg => { next := alg.next, nextForKey := alg.nextForKey }
  | priorityTiers inner => newPriorityTiers inner.balancer
  | zoneAware zone prefer inner => newZoneAware inner.balancer zone prefer
  | slowStart addr window inner => newSlowStart addr inner.balancer window

def eligibleFrom : Stack → List Backend → List Backend
  | base _, pool => pool
  | priorityTiers inner, pool => inner.eligibleFrom (PriorityTiers.eligibleFrom pool)
  | zoneAware zone prefer inner, pool => inner.eligibleFrom (ZoneAware.eligibleFrom zone prefer pool)
  | slowStart _ _ inner, pool => inner.eligibleFrom pool

end Stack

/-- A nesting as it is deployed: optionally under one outlier detection. -/
structure Deployment where
  outlier : Option OutlierConfig
  stack : Stack

namespace Deployment

def balancer (d : Deployment) : Balancer :=
  match d.outlier with
  | some od => newOutlierDetection d.stack.balancer od
  | none => d.stack.balancer

def reinstated (d : Deployment) (w : World) : World :=
  match d.outlier with
  | some od => OutlierDetection.reinstateExpired od (w.clock 0) w
  | none => w

theorem reinstated_backends (d : Deployment) (w : World) : (d.reinstated w).backends = w.backends := by
  unfold reinstated
  split <;> rfl

end Deployment
end ReverseProxyLb

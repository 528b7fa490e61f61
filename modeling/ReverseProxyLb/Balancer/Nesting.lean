import ReverseProxyLb.Balancer.Selection
import ReverseProxyLb.Balancer.Series

/-! Wrappers in any order and number. What no single step of a selection touches no
selection touches; a selection by key asks the base algorithm, or scans what the filters
left. -/
namespace ReverseProxyLb
open Lib World

namespace World

def statsAt (w : World) : ℕ → List (Backend × OutlierStat)
  | 0 => w.stats
  | n + 1 => w.nested n

def atStats (addr : ℕ) (f : World → World) (w : World) : World :=
  match addr with
  | 0 => f w
  | n + 1 =>
    let w' := f { w with stats := w.nested n }
    { w' with
      stats := w.stats
      nested := Function.update w.nested n w'.stats }

end World

namespace OutlierDetection

def reinstateNow (addr : ℕ) (od : OutlierConfig) (w : World) : World :=
  w.now.2.atStats addr (reinstateExpired od w.now.1)

def reinstatingAt (addr : ℕ) (od : OutlierConfig) (f : Selection) : Selection := fun w =>
  f (reinstateNow addr od w)

end OutlierDetection

def SlowStart.observeNow (addr : ℕ) (w : World) : World := observeTransitions addr w.now.1 w.now.2

open OutlierDetection in
def newOutlierDetectionAt (addr : ℕ) (inner : Balancer) (od : OutlierConfig) : Balancer where
  next := reinstatingAt addr od inner.next
  nextForKey := some fun key => reinstatingAt addr od fun w => keyedSelectFrom inner w.getHealthy key w
  subsetPicker := some
    { pickFrom := fun candidates => reinstatingAt addr od (selectFrom inner candidates)
      pickFromKey :=
        fun candidates key => reinstatingAt addr od (keyedSelectFrom inner candidates key) }

inductive Nesting where
  | base (alg : Algorithm)
  | priorityTiers (inner : Nesting)
  | zoneAware (localZone : String) (preferSameZone : Bool) (inner : Nesting)
  | slowStart (addr : ℕ) (window : ℤ) (inner : Nesting)
  | outlierDetection (addr : ℕ) (od : OutlierConfig) (inner : Nesting)

namespace Nesting

def balancer : Nesting → Balancer
  | base alg => { next := alg.next, nextForKey := alg.nextForKey }
  | priorityTiers inner => newPriorityTiers inner.balancer
  | zoneAware zone prefer inner => newZoneAware inner.balancer zone prefer
  | slowStart addr window inner => newSlowStart addr inner.balancer window
  | outlierDetection addr od inner => newOutlierDetectionAt addr inner.balancer od

def algorithm : Nesting → Algorithm
  | base alg => alg
  | priorityTiers inner | zoneAware _ _ inner | slowStart _ _ inner | outlierDetection _ _ inner =>
    inner.algorithm

def plain (n : Nesting) : Balancer := (base n.algorithm).balancer

/-- The state in which the base is asked: every wrapper on the way has observed or reinstated. -/
def settled : Nesting → World → World
  | base _, w => w
  | priorityTiers inner, w | zoneAware _ _ inner, w => inner.settled w
  | slowStart addr _ inner, w => inner.settled (SlowStart.observeNow addr w)
  | outlierDetection addr od inner, w => inner.settled (OutlierDetection.reinstateNow addr od w)

end Nesting

def Stack.nesting : Stack → Nesting
  | base alg => .base alg
  | priorityTiers inner => .priorityTiers inner.nesting
  | zoneAware zone prefer inner => .zoneAware zone prefer inner.nesting
  | slowStart addr window inner => .slowStart addr window inner.nesting

def Deployment.nesting (d : Deployment) : Nesting :=
  match d.outlier with
  | some od => .outlierDetection 0 od d.stack.nesting
  | none => d.stack.nesting

theorem Stack.nesting_balancer (st : Stack) : st.nesting.balancer = st.balancer := by
  induction st with
  | base alg => rfl
  | priorityTiers inner ih => exact congrArg newPriorityTiers ih
  | zoneAware zone prefer inner ih => exact congrArg (newZoneAware · zone prefer) ih
  | slowStart addr window inner ih => exact congrArg (newSlowStart addr · window) ih

theorem Deployment.nesting_balancer (d : Deployment) : d.nesting.balancer = d.balancer := by
  unfold Deployment.nesting Deployment.balancer
  cases d.outlier with
  | none => exact d.stack.nesting_balancer
  | some od =>
    change newOutlierDetectionAt 0 d.stack.nesting.balancer od = _
    rw [d.stack.nesting_balancer]
    rfl

theorem selectFrom_getHealthy (inner : Balancer) {w : World} (hne : w.getHealthy ≠ []) :
    selectFrom inner w.getHealthy w = inner.next w := by
  unfold selectFrom
  rw [if_neg hne, if_pos (sameSet_self _)]

theorem keyedSelectFrom_getHealthy (inner : Balancer) (key : String) {w : World}
    (hne : w.getHealthy ≠ []) :
    keyedSelectFrom inner w.getHealthy key w = inner.select key w := by
  unfold keyedSelectFrom
  rw [if_neg hne, if_pos (sameSet_self _)]
  rfl

theorem rampedSelect_of_ramped {addr : ℕ} {window now : ℤ} {sel : Selection} {w : World}
    (h : ∀ b, (sel w).1 = .backend b → 1 ≤ SlowStart.factor window ((sel w).2.slow addr) b now)
    (k : ℕ) (last : Option Backend) :
    SlowStart.rampedSelect addr window now sel (k + 1) last w = sel w := by
  unfold SlowStart.rampedSelect
  split
  · next b w' hb =>
    rw [hb] at h
    dsimp only
    rw [if_pos (h b rfl), hb]
  · next r w' hr hb => exact hb.symm

/-- A relation that the single steps of a selection respect. -/
structure Frame (R : World → World → Prop) : Prop where
  refl : ∀ w, R w w
  trans : ∀ w w' w'', R w w' → R w' w'' → R w w''
  incrConn : ∀ w b, R w (w.incrConn b)
  decrConn : ∀ w b, R w (w.decrConn b)
  draw : ∀ w, R w w.draw.2
  current : ∀ w i, R w { w with current := i }
  currentWeight : ∀ w c l, R w { w with currentWeight := c, weighed := l }
  ring : ∀ w r, R w { w with ring := r }

/-- Every selection of the balancer respects the relation. -/
structure Framed (R : World → World → Prop) (B : Balancer) : Prop where
  next : ∀ w, R w (B.next w).2
  nextForKey : ∀ f ∈ B.nextForKey, ∀ key w, R w (f key w).2
  pickFrom : ∀ sp ∈ B.subsetPicker, ∀ candidates w, R w (sp.pickFrom candidates w).2
  pickFromKey : ∀ sp ∈ B.subsetPicker, ∀ candidates key w, R w (sp.pickFromKey candidates key w).2

theorem Framed.select {R : World → World → Prop} {B : Balancer} (h : Framed R B) (key : String)
    (w : World) :
    R w (B.select key w).2 := by
  unfold Balancer.select
  split
  · next f hf => exact h.nextForKey f hf key w
  · exact h.next w

namespace Frame
variable {R : World → World → Prop} (hR : Frame R) {w : World}

theorem of_eq {α : Type} (x : World → α) (hconn : ∀ w conns, x { w with activeConns := conns } = x w)
    (hdraws : ∀ w draws, x { w with draws := draws } = x w)
    (hcurrent : ∀ w i, x { w with current := i } = x w)
    (hweights : ∀ w c l, x { w with currentWeight := c, weighed := l } = x w)
    (hring : ∀ w r, x { w with ring := r } = x w) : Frame fun w w' => x w' = x w where
  refl _ := rfl
  trans _ _ _ h h' := h'.trans h
  incrConn w _ := hconn w _
  decrConn w _ := hconn w _
  draw w := hdraws w _
  current := hcurrent
  currentWeight := hweights
  ring := hring

include hR

theorem reserveSelected (o : Option Backend) : R w (ReverseProxyLb.reserveSelected o w).2 := by
  cases o with
  | none => exact hR.refl w
  | some b => exact hR.incrConn w b

theorem pickIndex (l : List Backend) (i : UInt32) : R w (ReverseProxyLb.pickIndex l i w).2 := by
  unfold ReverseProxyLb.pickIndex
  by_cases h : UInt32.ofNat l.length = 0
  · rw [if_pos h]
    exact hR.refl w
  · rw [if_neg h]
    split
    · exact hR.incrConn w _
    · exact hR.refl w

theorem withHealthy {f : List Backend → Selection} (h : ∀ w, R w (f w.getHealthy w).2) (w : World) :
    R w (ReverseProxyLb.withHealthy f w).2 := by
  unfold ReverseProxyLb.withHealthy
  split_ifs
  · exact hR.refl w
  · exact h w

theorem weightedRoundRobin (w : World) : R w (ReverseProxyLb.weightedRoundRobin w).2 := by
  apply hR.withHealthy
  intro w
  dsimp only
  split_ifs
  · exact hR.reserveSelected _
  · exact hR.current w _
  · exact hR.trans _ _ _ (hR.current w _) (hR.reserveSelected _)

theorem swrr (w : World) : R w (ReverseProxyLb.swrr w).2 := by
  apply hR.withHealthy
  intro w
  dsimp only
  split
  · exact hR.refl w
  · exact hR.trans _ _ _ (hR.currentWeight w _ _) (hR.incrConn _ _)

theorem p2c (w : World) : R w (ReverseProxyLb.p2c w).2 := by
  apply hR.withHealthy
  intro w
  dsimp only
  by_cases hone : w.getHealthy.length = 1
  · rw [if_pos hone]
    exact hR.reserveSelected _
  · have hdraws : R w w.draw.2.draw.2 := hR.trans _ _ _ (hR.draw w) (hR.draw _)
    rw [if_neg hone]
    split
    · exact hR.trans _ _ _ hdraws (hR.incrConn _ _)
    · exact hdraws

theorem consistentHashForKey (c : ConsistentHash) (key : String) (w : World) :
    R w (ReverseProxyLb.consistentHashForKey c key w).2 := by
  apply hR.withHealthy
  intro w
  dsimp only
  by_cases hring : (currentRing c w.getHealthy w).ring = []
  · rw [if_pos hring]
    exact hR.ring w _
  · rw [if_neg hring]
    exact hR.trans _ _ _ (hR.ring w _) (hR.reserveSelected _)

theorem algorithm_next (alg : Algorithm) (w : World) : R w (alg.next w).2 := by
  cases alg with
  | roundRobin =>
    apply hR.withHealthy
    intro w
    exact hR.trans _ _ _ (hR.current w _) (hR.pickIndex _ _)
  | leastConnections => exact hR.withHealthy (fun w => hR.reserveSelected _) w
  | weightedRoundRobin => exact hR.weightedRoundRobin w
  | swrr => exact hR.swrr w
  | weightedLeastConn => exact hR.withHealthy (fun w => hR.reserveSelected _) w
  | weightedRandom =>
    apply hR.withHealthy
    intro w
    exact hR.trans _ _ _ (hR.draw w) (hR.reserveSelected _)
  | p2c => exact hR.p2c w
  | consistentHash c => exact hR.trans _ _ _ (hR.draw w) (hR.consistentHashForKey c _ _)
  | ewma => exact hR.withHealthy (fun w => hR.reserveSelected _) w
  | ipHash => exact hR.refl w

theorem algorithm_nextForKey (alg : Algorithm) : ∀ f ∈ alg.nextForKey, ∀ key w, R w (f key w).2 := by
  intro f hf key w
  cases alg with
  | consistentHash c =>
    obtain rfl : ReverseProxyLb.consistentHashForKey c = f := Option.some.inj hf
    exact hR.consistentHashForKey c key w
  | ipHash =>
    obtain rfl : nextForIP = f := Option.some.inj hf
    exact hR.withHealthy (fun w => hR.pickIndex _ _) w
  | _ => cases hf

theorem statelessPick (candidates : List Backend) (w : World) :
    R w (ReverseProxyLb.statelessPick candidates w).2 := by
  unfold ReverseProxyLb.statelessPick
  split
  · exact hR.refl w
  · exact hR.reserveSelected _

theorem hashPick (candidates : List Backend) (key : String) (w : World) :
    R w (ReverseProxyLb.hashPick candidates key w).2 := by
  unfold ReverseProxyLb.hashPick
  split_ifs
  · exact hR.refl w
  · exact hR.pickIndex _ _

variable {inner : Balancer} (hi : Framed R inner)
include hi

theorem selectFrom (candidates : List Backend) (w : World) :
    R w (ReverseProxyLb.selectFrom inner candidates w).2 := by
  unfold ReverseProxyLb.selectFrom
  split_ifs
  · exact hR.refl w
  · exact hi.next w
  · split
    · next sp hsp => exact hi.pickFrom sp hsp candidates w
    · exact hR.statelessPick candidates w

theorem keyedSelectFrom (candidates : List Backend) (key : String) (w : World) :
    R w (ReverseProxyLb.keyedSelectFrom inner candidates key w).2 := by
  unfold ReverseProxyLb.keyedSelectFrom
  split_ifs
  · exact hR.refl w
  · split
    · next f hf => exact hi.nextForKey f hf key w
    · exact hi.next w
  · split
    · next sp hsp => exact hi.pickFromKey sp hsp candidates key w
    · exact hR.hashPick candidates key w
    · exact hR.statelessPick candidates w

theorem narrowing (eligibleFrom : List Backend → List Backend) :
    Framed R (ReverseProxyLb.narrowing inner eligibleFrom) where
  next w := hR.selectFrom hi _ w
  nextForKey f hf key w := by
    cases hf
    exact hR.keyedSelectFrom hi _ key w
  pickFrom sp hsp candidates w := by
    cases hsp
    exact hR.selectFrom hi _ w
  pickFromKey sp hsp candidates key w := by
    cases hsp
    exact hR.keyedSelectFrom hi _ key w

section Ramped
variable {sel : Selection} (hsel : ∀ w, R w (sel w).2) (addr : ℕ) (window now : ℤ)
omit hi
include hsel

theorem rampedSelect (n : ℕ) (last : Option Backend) (w : World) :
    R w (SlowStart.rampedSelect addr window now sel n last w).2 := by
  induction n generalizing last w with
  | zero =>
    cases last with
    | none => exact hR.refl w
    | some b => exact hR.incrConn w b
  | succ n ih =>
    have hstep := hsel w
    unfold SlowStart.rampedSelect
    split
    · next b w₁ hb =>
      rw [hb] at hstep
      have hdraw : R w w₁.draw.2 := hR.trans _ _ _ hstep (hR.draw w₁)
      dsimp only
      split_ifs
      · exact hstep
      · exact hdraw
      · exact hR.trans _ _ _ (hR.trans _ _ _ hdraw (hR.decrConn _ b)) (ih _ _)
    · next hr => exact hr ▸ hstep

theorem rampedSelect_after_draw (n : ℕ) (last : Option Backend) {w : World} {b : Backend}
    (hb : (sel w).1 = .backend b) (hf : ¬ 1 ≤ SlowStart.factor window ((sel w).2.slow addr) b now) :
    R (sel w).2.draw.2 (SlowStart.rampedSelect addr window now sel (n + 1) last w).2 := by
  have hout : sel w = (.backend b, (sel w).2) := Prod.ext hb rfl
  unfold SlowStart.rampedSelect
  rw [hout]
  dsimp only
  rw [if_neg hf]
  split_ifs
  · exact hR.refl _
  · exact hR.trans _ _ _ (hR.decrConn _ b) (hR.rampedSelect hsel addr window now n _ _)

theorem rampedSelect_after (n : ℕ) (last : Option Backend) (w : World) :
    R (sel w).2 (SlowStart.rampedSelect addr window now sel (n + 1) last w).2 := by
  by_cases hramped : ∀ b, (sel w).1 = .backend b →
    1 ≤ SlowStart.factor window ((sel w).2.slow addr) b now
  · rw [rampedSelect_of_ramped hramped]
    exact hR.refl _
  · push Not at hramped
    obtain ⟨b, hb, hf⟩ := hramped
    exact hR.trans _ _ _
      (hR.draw _) (hR.rampedSelect_after_draw hsel addr window now n last hb (not_le.mpr hf))

end Ramped

theorem slowStart {addr : ℕ} (hobs : ∀ w, R w (SlowStart.observeNow addr w)) (window : ℤ) :
    Framed R (newSlowStart addr inner window) where
  next w := hR.trans _ _ _ (hobs w) (hR.rampedSelect hi.next addr window _ _ _ _)
  nextForKey f hf key w := by
    cases hf
    exact hR.trans _ _ _ (hobs w) (hR.keyedSelectFrom hi _ key _)
  pickFrom sp hsp candidates w := by
    cases hsp
    exact hR.trans _ _ _ (hobs w) (hR.rampedSelect (hR.selectFrom hi candidates) addr window _ _ _ _)
  pickFromKey sp hsp candidates key w := by
    cases hsp
    exact hR.trans _ _ _ (hobs w) (hR.keyedSelectFrom hi candidates key _)

theorem outlierDetection {addr : ℕ} {od : OutlierConfig}
    (hre : ∀ w, R w (OutlierDetection.reinstateNow addr od w)) :
    Framed R (newOutlierDetectionAt addr inner od) where
  next w := hR.trans _ _ _ (hre w) (hi.next _)
  nextForKey f hf key w := by
    cases hf
    exact hR.trans _ _ _ (hre w) (hR.keyedSelectFrom hi _ key _)
  pickFrom sp hsp candidates w := by
    cases hsp
    exact hR.trans _ _ _ (hre w) (hR.selectFrom hi candidates _)
  pickFromKey sp hsp candidates key w := by
    cases hsp
    exact hR.trans _ _ _ (hre w) (hR.keyedSelectFrom hi candidates key _)

end Frame

theorem frame_slow : Frame fun w w' => w'.slow = w.slow :=
  Frame.of_eq World.slow
    (fun _ _ => rfl) (fun _ _ => rfl) (fun _ _ => rfl) (fun _ _ _ => rfl) fun _ _ => rfl

def Nesting.Respects (R : World → World → Prop) : Nesting → Prop
  | base _ => True
  | priorityTiers inner | zoneAware _ _ inner => inner.Respects R
  | slowStart addr _ inner => (∀ w, R w (SlowStart.observeNow addr w)) ∧ inner.Respects R
  | outlierDetection addr od inner =>
    (∀ w, R w (OutlierDetection.reinstateNow addr od w)) ∧ inner.Respects R

theorem Nesting.respects {R : World → World → Prop}
    (hobs : ∀ addr w, R w (SlowStart.observeNow addr w))
    (hre : ∀ addr od w, R w (OutlierDetection.reinstateNow addr od w)) (n : Nesting) :
    n.Respects R := by
  induction n with
  | base alg => trivial
  | priorityTiers inner ih => exact ih
  | zoneAware zone prefer inner ih => exact ih
  | slowStart addr window inner ih => exact ⟨hobs addr, ih⟩
  | outlierDetection addr od inner ih => exact ⟨hre addr od, ih⟩

theorem Nesting.framed {R : World → World → Prop} (hR : Frame R) (n : Nesting) (h : n.Respects R) :
    Framed R n.balancer := by
  induction n with
  | base alg =>
    constructor
    · exact hR.algorithm_next alg
    · exact hR.algorithm_nextForKey alg
    · intro sp hsp
      cases hsp
    · intro sp hsp
      cases hsp
  | priorityTiers inner ih => exact hR.narrowing (ih h) _
  | zoneAware zone prefer inner ih => exact hR.narrowing (ih h) _
  | slowStart addr window inner ih => exact hR.slowStart (ih h.2) h.1 window
  | outlierDetection addr od inner ih => exact hR.outlierDetection (ih h.2) h.1

end ReverseProxyLb

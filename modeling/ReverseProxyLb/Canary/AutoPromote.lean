import ReverseProxyLb.Server.Reload

/-! The promoter keeps a weight of its own, which starts at zero, and hands it to the proxy when a
window allows a step. The server sets the proxy's weight too and does not tell the promoter. -/
namespace ReverseProxyLb.Canary
open Lib Server

structure AutoPromoteConfig where
  enabled : Bool := false
  stepPercent : Int64 := 0
  maxWeightPercent : Int64 := 0
  errorRateThreshold : ℚ := 0
  minRequests : Int64 := 0
  rollbackOnDegradation : Bool := false

def applyAutoPromoteDefaults (a : AutoPromoteConfig) : AutoPromoteConfig :=
  { a with
    stepPercent := if a.stepPercent ≤ 0 then 10 else a.stepPercent
    maxWeightPercent := if a.maxWeightPercent ≤ 0 then 100 else a.maxWeightPercent
    errorRateThreshold := if a.errorRateThreshold ≤ 0 then float64 (1 / 100) else a.errorRateThreshold
    minRequests := if a.minRequests ≤ 0 then 100 else a.minRequests }

structure AutoPromoter where
  cfg : AutoPromoteConfig
  currentWeight : Int64 := 0
  rollbackCount : ℕ := 0

namespace AutoPromoter

variable (a : AutoPromoter) (reqs errs : ℕ)

/-- `reqs < MinRequests` skips the window. -/
def Observed : Prop := a.cfg.minRequests.toInt ≤ reqs

instance : Decidable (a.Observed reqs) := inferInstanceAs (Decidable (_ ≤ _))

/-- `errorRate > ErrorRateThreshold`. Over no requests the rate is `NaN`, which exceeds
nothing, or infinite. -/
def Degraded : Prop :=
  if reqs = 0 then 0 < errs
  else a.cfg.errorRateThreshold < float64 (float64 errs / float64 reqs)

instance : Decidable (a.Degraded reqs errs) :=
  inferInstanceAs (Decidable (if reqs = 0 then _ else _))

def next : Int64 :=
  let next := a.currentWeight + a.cfg.stepPercent
  if a.cfg.maxWeightPercent < next then a.cfg.maxWeightPercent else next

/-- `step`, with the weight that is handed to `UpdateCanaryWeight`, if any. -/
def step : AutoPromoter × Option Int64 :=
  if ¬ a.Observed reqs then (a, none)
  else if a.Degraded reqs errs then
    if a.cfg.rollbackOnDegradation then
      ({ a with
          currentWeight := 0
          rollbackCount := a.rollbackCount + 1 }, some 0)
    else (a, none)
  else if a.next ≠ a.currentWeight then ({ a with currentWeight := a.next }, some a.next)
  else (a, none)

def RollsBack : Prop :=
  a.Observed reqs ∧ a.Degraded reqs errs ∧ a.cfg.rollbackOnDegradation

end AutoPromoter

/-- `Start` of the server creates the promoter if the loaded file asks for it. -/
def startAutoPromoter (cfg : LoadedConfig) (auto : AutoPromoteConfig) : Option AutoPromoter :=
  if cfg.canary.enabled ∧ auto.enabled then some { cfg := applyAutoPromoteDefaults auto } else none

def updateCanaryWeight (s : Live) (weightPercent : ℤ) : Live :=
  { s with canaryWeight := clampPercent weightPercent }

structure Rollout where
  live : Live
  promoter : AutoPromoter

inductive RolloutCall where
  /-- A tick of the promoter, with the counts of its window. -/
  | window (reqs errs : ℕ)
  | server (call : LiveCall)

namespace Rollout

def promote (s : Rollout) (reqs errs : ℕ) : Rollout where
  live := (s.promoter.step reqs errs).2.elim s.live fun pct => updateCanaryWeight s.live pct.toInt
  promoter := (s.promoter.step reqs errs).1

def step (s : Rollout) : RolloutCall → Option Rollout
  | .window reqs errs => some (s.promote reqs errs)
  | .server call => (s.live.step call).map fun live => { s with live := live }

end Rollout

/-- The promoter's weight is the proxy's, a window that is no rollback does not lower it below a
cap that it kept to, and a window with enough traffic and few errors raises it by one step, up to
the cap. -/
def Rollout.Follows (s : Rollout) : Prop :=
  s.promoter.currentWeight.toInt = s.live.canaryWeight ∧ ∀ reqs errs,
    (¬ s.promoter.RollsBack reqs errs → s.live.canaryWeight ≤ s.promoter.cfg.maxWeightPercent.toInt →
      s.live.canaryWeight ≤ (s.promote reqs errs).live.canaryWeight) ∧
    (s.promoter.Observed reqs → ¬ s.promoter.Degraded reqs errs →
      (s.promote reqs errs).live.canaryWeight =
        min (s.live.canaryWeight + s.promoter.cfg.stepPercent.toInt)
          s.promoter.cfg.maxWeightPercent.toInt)

/-- The reload changes `weight_percent` and nothing else of the canary that it compares. -/
def WeightOnly (old new : CanaryConfig) : Prop :=
  old.enabled = new.enabled ∧ old.algorithm = new.algorithm ∧
    backendsEqual old.backends new.backends ∧ old.weightPercent ≠ new.weightPercent

def InStep (s : Rollout) : RolloutCall → Prop
  | .server (.reload (some new)) => WeightOnly s.live.cfg.canary new.canary →
      clampPercent new.canary.weightPercent = s.promoter.currentWeight.toInt
  | _ => True

/-- The proxy counts a canary request when its roll succeeds, which it never does at weight zero. -/
def Counted (s : Rollout) : RolloutCall → Prop
  | .window reqs _ => s.live.canaryWeight = 0 → reqs = 0
  | .server _ => True

section Weight
variable {s s' : Live} {call : LiveCall}

theorem clampPercent_of_bounds {n : ℤ} (h₀ : 0 ≤ n) (h₁ : n ≤ 100) : clampPercent n = n := by
  unfold clampPercent
  omega

theorem clampPercent_le (n : ℤ) : clampPercent n ≤ 100 := by
  unfold clampPercent
  omega

theorem reloadCanaryWeight_of_weightOnly {canary : CanaryConfig} (h : WeightOnly s.cfg.canary canary) :
    s.reloadCanaryWeight canary = clampPercent canary.weightPercent := by
  have hne : ¬ canaryEqual s.cfg.canary canary := by
    simp [canaryEqual, h.2.2.2]
  unfold Live.reloadCanaryWeight
  rw [if_neg hne]
  exact if_pos h

theorem reloadCanaryWeight_of_not {canary : CanaryConfig} (h : ¬ WeightOnly s.cfg.canary canary) :
    s.reloadCanaryWeight canary = s.canaryWeight := by
  unfold Live.reloadCanaryWeight
  by_cases heq : canaryEqual s.cfg.canary canary
  · exact if_pos heq
  · rw [if_neg heq]
    exact if_neg h

theorem canaryWeight_step (h : s.step call = some s') :
    s'.canaryWeight = s.canaryWeight ∨ ∃ new, call = .reload (some new) ∧
      WeightOnly s.cfg.canary new.canary ∧
        s'.canaryWeight = clampPercent new.canary.weightPercent := by
  cases call with
  | reload loaded =>
    obtain rfl : s.reloadConfig loaded = s' := Option.some.inj h
    cases loaded with
    | none => exact .inl rfl
    | some new =>
      by_cases hw : WeightOnly s.cfg.canary new.canary
      · exact .inr ⟨new, rfl, hw, reloadCanaryWeight_of_weightOnly hw⟩
      · exact .inl (reloadCanaryWeight_of_not hw)
  | target i resolver =>
    obtain ⟨t, -, rfl⟩ := Option.map_eq_some_iff.mp h
    left
    unfold Live.syncTarget
    cases Discovery.resolve resolver t <;> rfl
  | endpoints subsets =>
    left
    change (if s.cfg.kubernetes.enabled then some (s.syncEndpoints subsets) else none) = some s' at h
    split_ifs at h
    rw [← Option.some.inj h]
    rfl
  | deleted =>
    left
    change (if s.cfg.kubernetes.enabled then some s.removeEndpoints else none) = some s' at h
    split_ifs at h
    rw [← Option.some.inj h]
    rfl

end Weight

section Step
variable {a : AutoPromoter} {s s' : Rollout} {reqs errs : ℕ}

theorem step_rollsBack (h : a.RollsBack reqs errs) :
    a.step reqs errs = ({ a with
      currentWeight := 0
      rollbackCount := a.rollbackCount + 1 }, some 0) := by
  unfold AutoPromoter.step
  rw [if_neg (not_not.mpr h.1), if_pos h.2.1, if_pos h.2.2]

theorem step_promotes (ho : a.Observed reqs) (hd : ¬ a.Degraded reqs errs) :
    a.step reqs errs =
      if a.next ≠ a.currentWeight then ({ a with currentWeight := a.next }, some a.next)
        else (a, none) := by
  unfold AutoPromoter.step
  rw [if_neg (not_not.mpr ho), if_neg hd]

theorem step_idle (hr : ¬ a.RollsBack reqs errs) (hp : a.Observed reqs → a.Degraded reqs errs) :
    a.step reqs errs = (a, none) := by
  unfold AutoPromoter.step
  by_cases ho : a.Observed reqs
  · rw [if_neg (not_not.mpr ho), if_pos (hp ho), if_neg fun hb => hr ⟨ho, hp ho, hb⟩]
  · rw [if_pos ho]

theorem cfg_step (a : AutoPromoter) (reqs errs : ℕ) : (a.step reqs errs).1.cfg = a.cfg := by
  unfold AutoPromoter.step
  split_ifs <;> rfl

theorem promote_next (heq : s.promoter.currentWeight.toInt = s.live.canaryWeight)
    (hle : 0 ≤ s.live.canaryWeight ∧ s.live.canaryWeight ≤ 100)
    (ho : s.promoter.Observed reqs) (hd : ¬ s.promoter.Degraded reqs errs) :
    (s.promote reqs errs).promoter.currentWeight = s.promoter.next ∧
      (s.promote reqs errs).live.canaryWeight = clampPercent s.promoter.next.toInt := by
  unfold Rollout.promote
  rw [step_promotes ho hd]
  by_cases hne : s.promoter.next ≠ s.promoter.currentWeight
  · rw [if_pos hne]
    exact ⟨rfl, rfl⟩
  · have hsame : s.promoter.next = s.promoter.currentWeight := not_not.mp hne
    rw [if_neg hne, hsame, heq, clampPercent_of_bounds hle.1 hle.2]
    exact ⟨rfl, rfl⟩

theorem next_toInt (a : AutoPromoter) :
    a.next.toInt = min ((a.currentWeight.toInt + a.cfg.stepPercent.toInt).bmod (2 ^ 64))
      a.cfg.maxWeightPercent.toInt := by
  unfold AutoPromoter.next
  rw [← Int64.toInt_add]
  by_cases h : a.cfg.maxWeightPercent < a.currentWeight + a.cfg.stepPercent
  · rw [if_pos h]
    rw [Int64.lt_iff_toInt_lt] at h
    exact (min_eq_right h.le).symm
  · rw [if_neg h]
    rw [Int64.lt_iff_toInt_lt, not_lt] at h
    exact (min_eq_left h).symm

end Step

section Runs
variable {cfg : LoadedConfig} {auto : AutoPromoteConfig} {a : AutoPromoter} {s s' : Rollout}

/-- What the defaults of the file guarantee. -/
structure Defaulted (c : AutoPromoteConfig) : Prop where
  step : 0 < c.stepPercent.toInt
  max : 0 < c.maxWeightPercent.toInt
  threshold : 0 < c.errorRateThreshold
  requests : 0 < c.minRequests.toInt

theorem defaulted (auto : AutoPromoteConfig) : Defaulted (applyAutoPromoteDefaults auto) := by
  have hpos : ∀ n d : Int64, 0 < d.toInt → 0 < (if n ≤ 0 then d else n).toInt := by
    intro n d hd
    by_cases hn : n ≤ 0
    · rwa [if_pos hn]
    · rw [if_neg hn]
      rw [Int64.le_iff_toInt_le, not_le] at hn
      exact hn
  refine ⟨hpos _ _ (by decide), hpos _ _ (by decide), ?_, hpos _ _ (by decide)⟩
  change 0 < if auto.errorRateThreshold ≤ 0 then float64 (1 / 100) else auto.errorRateThreshold
  by_cases ht : auto.errorRateThreshold ≤ 0
  · rw [if_pos ht]
    decide +kernel
  · rw [if_neg ht]
    exact not_le.mp ht

structure Kept (c : AutoPromoteConfig) (s : Rollout) : Prop where
  cfg : s.promoter.cfg = c
  weight : s.promoter.currentWeight.toInt = s.live.canaryWeight
  nonneg : 0 ≤ s.live.canaryWeight
  le_max : s.live.canaryWeight ≤ c.maxWeightPercent.toInt

variable {c : AutoPromoteConfig} {reqs errs : ℕ}

def Bounded (c : AutoPromoteConfig) : Prop :=
  c.maxWeightPercent.toInt ≤ 100 ∧ c.stepPercent.toInt + c.maxWeightPercent.toInt < 2 ^ 63

theorem Kept.next (h : Kept c s) (hc : Defaulted c) (hb : Bounded c) :
    s.promoter.next.toInt =
      min (s.live.canaryWeight + c.stepPercent.toInt) c.maxWeightPercent.toInt := by
  have := h.nonneg
  have := h.le_max
  have := hc.step
  have := hb.2
  rw [next_toInt, h.cfg, h.weight, Int.bmod_eq_of_le (by omega) (by omega)]

theorem Kept.promotes (h : Kept c s) (hc : Defaulted c) (hb : Bounded c)
    (ho : s.promoter.Observed reqs) (hd : ¬ s.promoter.Degraded reqs errs) :
    (s.promote reqs errs).promoter.currentWeight.toInt = (s.promote reqs errs).live.canaryWeight ∧
      (s.promote reqs errs).live.canaryWeight =
        min (s.live.canaryWeight + c.stepPercent.toInt) c.maxWeightPercent.toInt := by
  have h₀ := h.nonneg
  have h₁ := h.le_max
  have h₂ := hc.step
  have h₃ := hc.max
  have h₄ := hb.1
  have hnext := promote_next h.weight ⟨h₀, by omega⟩ ho hd
  have hval := h.next hc hb
  rw [hnext.1, hnext.2, hval]
  rw [clampPercent_of_bounds (by omega) (by omega)]
  exact ⟨rfl, rfl⟩

theorem Kept.promote (h : Kept c s) (hc : Defaulted c) (hb : Bounded c) :
    Kept c (s.promote reqs errs) := by
  have hcfg : (s.promote reqs errs).promoter.cfg = c := (cfg_step s.promoter reqs errs).trans h.cfg
  have h₀ := h.nonneg
  have h₂ := hc.step
  have h₃ := hc.max
  by_cases hr : s.promoter.RollsBack reqs errs
  · have hzero : (s.promote reqs errs).promoter.currentWeight = 0 ∧
        (s.promote reqs errs).live.canaryWeight = 0 := by
      unfold Rollout.promote
      rw [step_rollsBack hr]
      exact ⟨rfl, rfl⟩
    exact ⟨hcfg, by rw [hzero.1, hzero.2]; rfl, hzero.2.ge, hzero.2.trans_le h₃.le⟩
  · by_cases hp : s.promoter.Observed reqs ∧ ¬ s.promoter.Degraded reqs errs
    · obtain ⟨hsame, hval⟩ := h.promotes hc hb hp.1 hp.2
      exact ⟨hcfg, hsame, by omega, by omega⟩
    · have hidle := step_idle hr fun ho => not_not.mp fun hd => hp ⟨ho, hd⟩
      have hstep : s.promote reqs errs = s := by
        unfold Rollout.promote
        rw [hidle]
        rfl
      rw [hstep]
      exact h

theorem Kept.canaryWeight_server (h : Kept c s) {call : LiveCall} {live : Live}
    (hok : InStep s (.server call)) (hlive : s.live.step call = some live) :
    live.canaryWeight = s.live.canaryWeight := by
  rcases canaryWeight_step hlive with hsame | ⟨new, rfl, hw, hset⟩
  · exact hsame
  · rw [hset, hok hw, h.weight]

theorem Kept.step (h : Kept c s) (hc : Defaulted c) (hb : Bounded c) {call : RolloutCall}
    (hok : InStep s call) (hs : s.step call = some s') : Kept c s' := by
  cases call with
  | window reqs errs =>
    obtain rfl : s.promote reqs errs = s' := Option.some.inj hs
    exact h.promote hc hb
  | server call =>
    obtain ⟨live, hlive, rfl⟩ := Option.map_eq_some_iff.mp hs
    have hweight := h.canaryWeight_server hok hlive
    exact ⟨h.cfg, h.weight.trans hweight.symm, by rw [hweight]; exact h.nonneg,
      by rw [hweight]; exact h.le_max⟩

theorem Kept.follows (h : Kept c s) (hc : Defaulted c) (hb : Bounded c) : s.Follows := by
  refine ⟨h.weight, fun reqs errs => ⟨fun hr _ => ?_, fun ho hd => ?_⟩⟩
  · by_cases hp : s.promoter.Observed reqs ∧ ¬ s.promoter.Degraded reqs errs
    · have hval := (h.promotes hc hb hp.1 hp.2).2
      have := hc.step
      have := h.le_max
      omega
    · have hidle := step_idle hr fun ho => not_not.mp fun hd => hp ⟨ho, hd⟩
      unfold Rollout.promote
      rw [hidle]
      exact le_rfl
  · rw [h.cfg]
    exact (h.promotes hc hb ho hd).2

theorem kept_start (hw : (newServer cfg).canaryWeight = 0) (ha : startAutoPromoter cfg auto = some a) :
    Kept (applyAutoPromoteDefaults auto) ⟨newServer cfg, a⟩ := by
  unfold startAutoPromoter at ha
  split_ifs at ha
  rw [← Option.some.inj ha]
  exact ⟨rfl, hw.symm, hw.ge, by rw [hw]; exact (defaulted auto).max.le⟩

theorem Kept.starved_step (h : Kept c s) (hc : Defaulted c) (hzero : s.live.canaryWeight = 0)
    {call : RolloutCall} (hok : InStep s call ∧ Counted s call) (hs : s.step call = some s') :
    Kept c s' ∧ s'.live.canaryWeight = 0 := by
  cases call with
  | window reqs errs =>
    have hreqs : reqs = 0 := hok.2 hzero
    have hfew : ¬ s.promoter.Observed reqs := by
      have hpos := hc.requests
      rw [AutoPromoter.Observed, h.cfg, hreqs]
      exact not_le.mpr hpos
    have hidle : s.promoter.step reqs errs = (s.promoter, none) :=
      step_idle (fun hr => hfew hr.1) fun ho => absurd ho hfew
    obtain rfl : s.promote reqs errs = s' := Option.some.inj hs
    have hsame : s.promote reqs errs = s := by
      unfold Rollout.promote
      rw [hidle]
      rfl
    rw [hsame]
    exact ⟨h, hzero⟩
  | server call =>
    obtain ⟨live, hlive, rfl⟩ := Option.map_eq_some_iff.mp hs
    have hweight := h.canaryWeight_server hok.1 hlive
    exact ⟨⟨h.cfg, h.weight.trans hweight.symm, hweight ▸ h.nonneg, hweight ▸ h.le_max⟩,
      hweight.trans hzero⟩

def goodWindow (c : AutoPromoteConfig) : ℕ := c.minRequests.toInt.toNat

theorem goodWindow_promotes (hc : Defaulted c) (hcfg : a.cfg = c) :
    a.Observed (goodWindow c) ∧ ¬ a.Degraded (goodWindow c) 0 := by
  subst hcfg
  have hpos := hc.requests
  have hne : goodWindow a.cfg ≠ 0 := by
    unfold goodWindow
    omega
  refine ⟨Int.self_le_toNat _, ?_⟩
  have hzero : float64 0 = 0 := by decide +kernel
  unfold AutoPromoter.Degraded
  rw [if_neg hne, Nat.cast_zero, hzero, zero_div, hzero]
  exact not_lt.mpr hc.threshold.le

def climbed (s : Rollout) (k : ℕ) : Rollout :=
  (fun t : Rollout => t.promote (goodWindow t.promoter.cfg) 0)^[k] s

theorem climbed_succ (s : Rollout) (k : ℕ) :
    climbed s (k + 1) = (climbed s k).promote (goodWindow (climbed s k).promoter.cfg) 0 :=
  Function.iterate_succ_apply' ..

theorem cfg_climbed (s : Rollout) (k : ℕ) : (climbed s k).promoter.cfg = s.promoter.cfg := by
  induction k with
  | zero => rfl
  | succ k ih =>
    rw [climbed_succ]
    exact (cfg_step _ _ _).trans ih

theorem exec_climbed (s : Rollout) (k : ℕ) :
    exec Rollout.step s (List.replicate k (.window (goodWindow s.promoter.cfg) 0)) =
      some (climbed s k) := by
  induction k with
  | zero => rfl
  | succ k ih =>
    rw [List.replicate_succ', exec_append, ih, climbed_succ, cfg_climbed]
    rfl

theorem canaryWeight_climbed_le (h : s.live.canaryWeight ≤ 100) (k : ℕ) :
    (climbed s k).live.canaryWeight ≤ 100 := by
  induction k with
  | zero => exact h
  | succ k ih =>
    rw [climbed_succ]
    unfold Rollout.promote
    cases ((climbed s k).promoter.step _ _).2 with
    | none => exact ih
    | some pct => exact clampPercent_le _

theorem canaryWeight_climbed (hc : Defaulted s.promoter.cfg) (hw : s.live.canaryWeight = 0)
    (hall : ∀ k, (climbed s k).Follows) (k : ℕ) :
    (climbed s k).live.canaryWeight =
      min (k * s.promoter.cfg.stepPercent.toInt) s.promoter.cfg.maxWeightPercent.toInt := by
  have hstep := hc.step
  have hmax := hc.max
  induction k with
  | zero =>
    rw [Nat.cast_zero, zero_mul, min_eq_left hmax.le]
    exact hw
  | succ k ih =>
    have hgood := goodWindow_promotes (cfg_climbed s k ▸ hc) (rfl : (climbed s k).promoter.cfg = _)
    rw [climbed_succ, ((hall k).2 _ _).2 hgood.1 hgood.2, cfg_climbed, ih]
    push_cast
    rw [add_mul, one_mul]
    omega

theorem bounded_of_climbed (hc : Defaulted s.promoter.cfg) (hw : s.live.canaryWeight = 0)
    (hall : ∀ k, (climbed s k).Follows) : Bounded s.promoter.cfg := by
  have hstep := hc.step
  have hmax := hc.max
  set k := s.promoter.cfg.maxWeightPercent.toInt.toNat with hk
  have htop : (climbed s k).live.canaryWeight = s.promoter.cfg.maxWeightPercent.toInt := by
    rw [canaryWeight_climbed hc hw hall k, min_eq_right]
    have hcast : (k : ℤ) = s.promoter.cfg.maxWeightPercent.toInt := Int.toNat_of_nonneg hmax.le
    rw [hcast]
    exact le_mul_of_one_le_right hmax.le hstep
  have hcap : s.promoter.cfg.maxWeightPercent.toInt ≤ 100 := by
    rw [← htop]
    exact canaryWeight_climbed_le (by omega) k
  refine ⟨hcap, ?_⟩
  by_contra hover
  have hlt := Int64.toInt_lt s.promoter.cfg.stepPercent
  obtain ⟨hsame, hwin⟩ := hall k
  have hgood := goodWindow_promotes (cfg_climbed s k ▸ hc) (rfl : (climbed s k).promoter.cfg = _)
  have hspec := (hwin _ _).2 hgood.1 hgood.2
  rw [(promote_next hsame ⟨by omega, by omega⟩ hgood.1 hgood.2).2, next_toInt, hsame, htop,
    cfg_climbed] at hspec
  -- The sum has wrapped to a negative number, which the proxy clamps to zero.
  have hwrap : (s.promoter.cfg.maxWeightPercent.toInt + s.promoter.cfg.stepPercent.toInt).bmod
      (2 ^ 64) =
      s.promoter.cfg.maxWeightPercent.toInt + s.promoter.cfg.stepPercent.toInt - 2 ^ 64 := by
    rw [← Int.sub_bmod_right, Nat.cast_pow, Nat.cast_ofNat]
    exact Int.bmod_eq_of_le (by omega) (by omega)
  rw [hwrap] at hspec
  unfold clampPercent at hspec
  omega

theorem meets_of_follows {calls : List RolloutCall}
    (h : ∀ taken t, taken <+: calls → exec Rollout.step s taken = some t → t.Follows) :
    Meets Rollout.step InStep s calls := by
  induction calls generalizing s with
  | nil => trivial
  | cons call calls ih =>
    constructor
    · have hafter : ∀ t, s.step call = some t → t.Follows := by
        intro t ht
        apply h [call] t (List.prefix_append [call] calls)
        rw [exec_cons, ht]
        rfl
      match call, hafter with
      | .window _ _, _ => trivial
      | .server (.reload none), _ => trivial
      | .server (.reload (some new)), hafter =>
        intro hw
        rw [← reloadCanaryWeight_of_weightOnly hw]
        exact (hafter _ rfl).1.symm
      | .server (.target _ _), _ => trivial
      | .server (.endpoints _), _ => trivial
      | .server .deleted, _ => trivial
    · intro s' hs'
      apply ih
      intro taken t htaken ht
      apply h (call :: taken) t (List.cons_prefix_cons.mpr ⟨rfl, htaken⟩)
      rw [exec_cons, Option.mem_def.mp hs']
      exact ht

/-- While reloads keep to the promoter's weight, promotion moves from the live weight in every run
exactly if the canary starts without traffic, the cap is a percentage and the steps below it do
not overflow. And where the windows count what the proxy counts, such a run never leaves the
weight zero. -/
theorem promotion_follows_iff (cfg : LoadedConfig) (auto : AutoPromoteConfig) (a : AutoPromoter)
    (ha : startAutoPromoter cfg auto = some a) :
    ((∀ calls s, Meets Rollout.step InStep ⟨newServer cfg, a⟩ calls →
        exec Rollout.step ⟨newServer cfg, a⟩ calls = some s → s.Follows) ↔
      (newServer cfg).canaryWeight = 0 ∧ (applyAutoPromoteDefaults auto).maxWeightPercent.toInt ≤ 100 ∧
        (applyAutoPromoteDefaults auto).stepPercent.toInt +
          (applyAutoPromoteDefaults auto).maxWeightPercent.toInt < 2 ^ 63) ∧
      (∀ calls, (∀ taken s, taken <+: calls →
          exec Rollout.step ⟨newServer cfg, a⟩ taken = some s → s.Follows) →
        Meets Rollout.step InStep ⟨newServer cfg, a⟩ calls) ∧
      ((newServer cfg).canaryWeight = 0 → ∀ calls s,
        Meets Rollout.step (fun s call => InStep s call ∧ Counted s call) ⟨newServer cfg, a⟩ calls →
        exec Rollout.step ⟨newServer cfg, a⟩ calls = some s → s.live.canaryWeight = 0) := by
  refine ⟨⟨fun h => ?_, ?_⟩, fun calls h => meets_of_follows h, fun hw calls s hok hr => ?_⟩
  · obtain ⟨hcfg, hzero⟩ : a.cfg = applyAutoPromoteDefaults auto ∧ a.currentWeight = 0 := by
      unfold startAutoPromoter at ha
      split_ifs at ha
      rw [← Option.some.inj ha]
      exact ⟨rfl, rfl⟩
    have hw : (newServer cfg).canaryWeight = 0 := by
      rw [← (h [] _ trivial rfl).1, hzero]
      rfl
    have hall : ∀ k, (climbed ⟨newServer cfg, a⟩ k).Follows := by
      intro k
      refine h _ _ ?_ (exec_climbed _ k)
      induction k with
      | zero => trivial
      | succ k ih =>
        rw [List.replicate_succ', meets_append]
        exact ⟨ih, fun _ _ => ⟨trivial, fun _ _ => trivial⟩⟩
    have hc := defaulted auto
    rw [← hcfg] at hc ⊢
    exact ⟨hw, bounded_of_climbed (s := ⟨newServer cfg, a⟩) hc hw hall⟩
  · rintro ⟨hw, hb⟩ calls s hok hr
    have hc := defaulted auto
    have hkept := exec_invariant (fun s call s' hk hok hs => Kept.step hk hc hb hok hs) hok hr
      (kept_start hw ha)
    exact hkept.follows hc hb
  · have hstep : ∀ s call s', Kept (applyAutoPromoteDefaults auto) s ∧ s.live.canaryWeight = 0 →
        InStep s call ∧ Counted s call → s.step call = some s' →
        Kept (applyAutoPromoteDefaults auto) s' ∧ s'.live.canaryWeight = 0 :=
      fun s call s' hk hok hs => hk.1.starved_step (defaulted auto) hk.2 hok hs
    exact (exec_invariant hstep hok hr ⟨kept_start hw ha, hw⟩).2

end Runs

/-- A canary of one backend with the given share of the traffic. -/
def canaryAt (weightPercent : ℤ) : LoadedConfig where
  canary :=
    { enabled := true
      weightPercent := weightPercent
      backends := [{ url := "http://v2:8000" }] }

def plainPromoter : AutoPromoter where
  cfg := applyAutoPromoteDefaults { enabled := true }

/-- A reload to a negative weight, which is clamped, is in step with a promoter at zero. -/
def stillOff : List RolloutCall := [.window 0 0, .server (.reload (some (canaryAt (-5)))), .window 0 0]

/-- From weight zero promotion follows, but nothing is ever counted; from any other weight the first
window is not followed. -/
theorem promotion_follows_from_zero :
    startAutoPromoter (canaryAt 0) { enabled := true } = some plainPromoter ∧
      (∀ calls s, Meets Rollout.step InStep ⟨newServer (canaryAt 0), plainPromoter⟩ calls →
        exec Rollout.step ⟨newServer (canaryAt 0), plainPromoter⟩ calls = some s → s.Follows) ∧
      (∃ s, exec Rollout.step ⟨newServer (canaryAt 0), plainPromoter⟩ stillOff = some s ∧
        s.live.cfg.canary.weightPercent = -5 ∧ s.live.canaryWeight = 0) ∧
      ¬ ∀ calls s, Meets Rollout.step InStep ⟨newServer (canaryAt 5), plainPromoter⟩ calls →
        exec Rollout.step ⟨newServer (canaryAt 5), plainPromoter⟩ calls = some s → s.Follows := by
  obtain ⟨hiff, -, hstarved⟩ :=
    promotion_follows_iff (canaryAt 0) { enabled := true } plainPromoter rfl
  have hok : Meets Rollout.step (fun s call => InStep s call ∧ Counted s call)
      ⟨newServer (canaryAt 0), plainPromoter⟩ stillOff := by
    refine ⟨⟨trivial, fun _ => rfl⟩, fun s₁ h₁ =>
      ⟨⟨fun _ => ?_, trivial⟩, fun s₂ _ => ⟨⟨trivial, fun _ => rfl⟩, ?_⟩⟩⟩
    · cases h₁
      decide +kernel
    · exact fun _ _ => trivial
  obtain ⟨s, hs, hcfg⟩ :
      ∃ s, exec Rollout.step ⟨newServer (canaryAt 0), plainPromoter⟩ stillOff = some s ∧
      s.live.cfg.canary.weightPercent = -5 := ⟨_, rfl, rfl⟩
  refine ⟨rfl, hiff.mpr (by decide +kernel),
    ⟨s, hs, hcfg, hstarved (by decide +kernel) stillOff s hok hs⟩, ?_⟩
  intro h
  have hzero := ((promotion_follows_iff (canaryAt 5) { enabled := true } plainPromoter rfl).1.mp h).1
  revert hzero
  decide +kernel

/-- The canary starts at half of the traffic, and a window without errors takes it down to ten
percent. From ten percent the second such window undoes a reload to forty percent. -/
theorem promotion_forgets_weight :
    startAutoPromoter (canaryAt 50) { enabled := true } = some plainPromoter ∧
      (newServer (canaryAt 50)).canaryWeight = 50 ∧ plainPromoter.currentWeight = 0 ∧
      plainPromoter.Observed 100 ∧ ¬ plainPromoter.Degraded 100 0 ∧
      (Rollout.promote ⟨newServer (canaryAt 50), plainPromoter⟩ 100 0).live.canaryWeight = 10 ∧
      (exec Rollout.step ⟨newServer (canaryAt 10), plainPromoter⟩
        [.window 100 0, .server (.reload (some (canaryAt 40))), .window 100 0]).map
          (fun s => s.live.canaryWeight) = some 20 := by
  refine ⟨rfl, ?_⟩
  decide +kernel

end ReverseProxyLb.Canary

import ReverseProxyLb.Balancer.Nesting

/-! An outlier detection around any other wrappers, over runs of outcomes and selections. Beside
the state stand the outcomes since a backend's last reinstatement and the time of its last
ejection. -/
namespace ReverseProxyLb
open Lib World

namespace OutlierDetection

variable {od : OutlierConfig} {w : World} {b x : Backend} {st : OutlierStat}

def marked (w : World) (b : Backend) : Bool := (statFor w b).ejected

theorem lookup_map_value (f : Backend → OutlierStat → OutlierStat) (b : Backend)
    (l : List (Backend × OutlierStat)) :
    (l.map fun p => (p.1, f p.1 p.2)).lookup b = (l.lookup b).map (f b) := by
  induction l with
  | nil => rfl
  | cons p l ih =>
    obtain ⟨y, sty⟩ := p
    rw [List.map_cons, List.lookup_cons, List.lookup_cons, ih]
    cases hb : b == y with
    | true =>
      rw [beq_iff_eq.mp hb]
      rfl
    | false => rfl

theorem statFor_setStat (w : World) (b x : Backend) (st : OutlierStat) :
    statFor (setStat w x st) b = if b = x then st else statFor w b := by
  have hvalue : (fun p : Backend × OutlierStat => if p.1 = x then (x, st) else p) =
      fun p => (p.1, if p.1 = x then st else p.2) := by
    funext p
    split_ifs with hp
    · rw [hp]
    · rfl
  unfold statFor setStat
  dsimp only
  by_cases hany : (w.stats.any fun p => p.1 = x) = true
  · obtain ⟨p, hp, hpx⟩ := List.any_eq_true.mp hany
    rw [if_pos hany, hvalue, lookup_map_value fun y sty => if y = x then st else sty]
    by_cases hb : b = x
    · have hsome : w.stats.lookup b ≠ none := by
        intro hnone
        have := List.lookup_eq_none_iff.mp hnone p hp
        simp_all
      obtain ⟨sty, hsty⟩ := Option.ne_none_iff_exists'.mp hsome
      rw [hsty, if_pos hb]
      simp [hb]
    · rw [if_neg hb]
      cases w.stats.lookup b <;> simp [hb]
  · have hnone : w.stats.lookup x = none := by
      apply List.lookup_eq_none_iff.mpr
      intro p hp
      have hp' : p.1 ≠ x := by
        intro hpx
        exact hany (List.any_eq_true.mpr ⟨p, hp, by simpa using hpx⟩)
      exact bne_iff_ne.mpr hp'.symm
    rw [if_neg hany, List.lookup_append]
    by_cases hb : b = x
    · rw [hb, hnone, if_pos rfl]
      simp
    · have hsingle : [(x, st)].lookup b = none := by
        rw [List.lookup_cons, beq_eq_false_iff_ne.mpr hb]
        rfl
      rw [if_neg hb, hsingle, Option.or_none]

theorem statFor_reinstateExpired (od : OutlierConfig) (now : ℤ) (w : World) (b : Backend) :
    statFor (reinstateExpired od now w) b = if expired od now (statFor w b)
      then { statFor w b with ejected := false, success := 0, failure := 0 } else statFor w b := by
  have hvalue : (fun p : Backend × OutlierStat => if expired od now p.2
      then (p.1, { p.2 with ejected := false, success := 0, failure := 0 }) else p) =
      fun p => (p.1, if expired od now p.2
        then { p.2 with ejected := false, success := 0, failure := 0 } else p.2) := by
    funext p
    split_ifs <;> rfl
  unfold reinstateExpired
  dsimp only
  rw [hvalue, statFor, lookup_map_value fun _ st => if expired od now st
    then { st with ejected := false, success := 0, failure := 0 } else st]
  unfold statFor
  cases w.stats.lookup b with
  | none => rfl
  | some st => rfl

theorem card_le_currentlyEjected {E : Finset Backend} (h : ∀ b ∈ E, marked w b) :
    (E.card : ℤ) ≤ currentlyEjected w := by
  have hsub : E ⊆ ((w.stats.filter fun p => p.2.ejected).map Prod.fst).toFinset := by
    intro b hb
    have hmark := h b hb
    unfold marked statFor at hmark
    cases hl : w.stats.lookup b with
    | none =>
      rw [hl] at hmark
      cases hmark
    | some st =>
      rw [hl] at hmark
      obtain ⟨l₁, l₂, hs, -⟩ := List.lookup_eq_some_iff.mp hl
      apply List.mem_toFinset.mpr
      apply List.mem_map.mpr
      refine ⟨(b, st), List.mem_filter.mpr ⟨?_, hmark⟩, rfl⟩
      rw [hs]
      simp
  have hcard := (Finset.card_le_card hsub).trans (List.toFinset_card_le _)
  rw [List.length_map, ← List.countP_eq_length_filter] at hcard
  unfold currentlyEjected
  exact_mod_cast hcard

def counted (ok : Bool) (st : OutlierStat) : OutlierStat :=
  if ok then { st with success := st.success + 1 } else { st with failure := st.failure + 1 }

def maxEject (od : OutlierConfig) (fleet : List Backend) : ℤ :=
  max 1 ⌊(fleet.length * od.maxEjectionPercent : ℚ) / 100⌋

theorem counted_ejected (ok : Bool) (st : OutlierStat) :
    (counted ok st).ejected = st.ejected ∧ (counted ok st).ejectedAt = st.ejectedAt := by
  cases ok <;> exact ⟨rfl, rfl⟩

theorem maxEject_eq (od : OutlierConfig) (fleet : List Backend) :
    maxEject od fleet = if (fleet.length * od.maxEjectionPercent).tdiv 100 < 1 then 1
      else (fleet.length * od.maxEjectionPercent).tdiv 100 := by
  unfold maxEject
  have hfloor : ⌊(fleet.length * od.maxEjectionPercent : ℚ) / 100⌋ =
      (fleet.length * od.maxEjectionPercent : ℤ) / 100 := by
    have := Rat.floor_intCast_div_natCast (fleet.length * od.maxEjectionPercent) 100
    push_cast at this
    exact this
  rw [hfloor]
  generalize (fleet.length * od.maxEjectionPercent : ℤ) = m
  rcases le_or_gt 0 m with hm | hm
  · rw [Int.tdiv_eq_ediv_of_nonneg hm]
    split_ifs <;> omega
  · have htdiv : m.tdiv 100 = -(-m / 100) := by
      rw [← Int.tdiv_eq_ediv_of_nonneg (by omega), Int.neg_tdiv, neg_neg]
    rw [if_pos (by omega)]
    omega

theorem observeOutcome_eq (rate : ℤ → ℤ → ℚ) (od : OutlierConfig) (now : ℤ) (b : Backend) (ok : Bool)
    (w : World) :
    let st := counted ok (statFor w b)
    observeOutcome rate od now b ok w =
      if st.ejected ∨ st.success + st.failure < od.minRequests then setStat w b st
      else if rate st.failure (st.success + st.failure) ≤ od.errorRateThreshold then setStat w b st
      else if maxEject od w.backends ≤ currentlyEjected (setStat w b st) then setStat w b st
      else { setStat (setStat w b st) b { st with ejected := true, ejectedAt := now } with
        healthy := Function.update w.healthy b false } := by
  intro st
  rw [maxEject_eq]
  rfl

theorem observeOutcome_cases (rate : ℤ → ℤ → ℚ) (od : OutlierConfig) (now : ℤ) (b : Backend)
    (ok : Bool) (w : World) :
    let st := counted ok (statFor w b)
    (observeOutcome rate od now b ok w).stats = (setStat w b st).stats ∨
      (st.ejected = false ∧ od.minRequests ≤ st.success + st.failure ∧
        od.errorRateThreshold < rate st.failure (st.success + st.failure) ∧
        currentlyEjected (setStat w b st) < maxEject od w.backends ∧
        (observeOutcome rate od now b ok w).stats =
          (setStat (setStat w b st) b { st with ejected := true, ejectedAt := now }).stats) := by
  intro st
  rw [observeOutcome_eq]
  by_cases hearly : st.ejected ∨ st.success + st.failure < od.minRequests
  · rw [if_pos hearly]
    exact .inl rfl
  rw [if_neg hearly]
  by_cases hrate : rate st.failure (st.success + st.failure) ≤ od.errorRateThreshold
  · rw [if_pos hrate]
    exact .inl rfl
  rw [if_neg hrate]
  by_cases hfull : maxEject od w.backends ≤ currentlyEjected (setStat w b st)
  · rw [if_pos hfull]
    exact .inl rfl
  rw [if_neg hfull]
  push Not at hearly
  exact .inr ⟨by simpa using hearly.1, hearly.2, not_le.mp hrate, not_le.mp hfull, rfl⟩

theorem observeOutcome_backends (rate : ℤ → ℤ → ℚ) (od : OutlierConfig) (now : ℤ) (b : Backend)
    (ok : Bool) (w : World) :
    (observeOutcome rate od now b ok w).backends = w.backends := by
  unfold observeOutcome
  dsimp only
  split_ifs <;> rfl

end OutlierDetection

/-- The methods by which an outlier detection is asked for a backend. -/
inductive Method where
  | next
  | nextForKey (key : String)
  | pickFrom (candidates : List Backend)
  | pickFromKey (candidates : List Backend) (key : String)

inductive Watching where
  | observe (now : ℤ) (b : Backend) (ok : Bool)
  | select (clock : Clock) (m : Method)

namespace Watching

def time : Watching → ℤ
  | observe now _ _ => now
  | select clock _ => clock 0

def outcomes : Watching → Backend → ℕ
  | observe _ x _, b => if x = b then 1 else 0
  | select _ _, _ => 0

def failures : Watching → Backend → ℕ
  | observe _ x ok, b => if x = b ∧ ok = false then 1 else 0
  | select _ _, _ => 0

end Watching

/-- The methods of an outlier detection around `inner`. -/
def Method.call (inner : Balancer) (od : OutlierConfig) : Method → Selection
  | next => (newOutlierDetection inner od).next
  | nextForKey key => (newOutlierDetection inner od).select key
  | pickFrom candidates => OutlierDetection.reinstating od (selectFrom inner candidates)
  | pickFromKey candidates key =>
    OutlierDetection.reinstating od (keyedSelectFrom inner candidates key)

/-- The state, with what has happened to each backend. -/
structure Watched where
  now : ℤ
  world : World
  /-- The outcomes and the failures since its last reinstatement. -/
  outcomes : Backend → ℕ := fun _ => 0
  failures : Backend → ℕ := fun _ => 0
  /-- When it was last ejected. -/
  lastEjected : Backend → Option ℤ := fun _ => none

section Runs
variable (rate : ℤ → ℤ → ℚ) (inner : Nesting) (od : OutlierConfig)

def Watching.apply (w : World) : Watching → World
  | observe now b ok => OutlierDetection.observeOutcome rate od now b ok w
  | select clock m => (m.call inner.balancer od { w with clock := clock }).2

open OutlierDetection in
/-- A mark that goes is a reinstatement, one that comes is an ejection. The clock does not go
back. -/
def Watched.step (s : Watched) (m : Watching) : Option Watched :=
  if m.time < s.now then none
  else
    let w := m.apply rate inner od s.world
    let reinstated := fun b => marked s.world b && !marked w b
    some
      { now := m.time
        world := w
        outcomes := fun b => if reinstated b then 0 else s.outcomes b + m.outcomes b
        failures := fun b => if reinstated b then 0 else s.failures b + m.failures b
        lastEjected :=
          fun b => if !marked s.world b && marked w b then some m.time else s.lastEjected b }

end Runs

def Nesting.detections : Nesting → List ℕ
  | base _ => []
  | priorityTiers inner | zoneAware _ _ inner | slowStart _ _ inner => inner.detections
  | outlierDetection addr _ inner => addr :: inner.detections

def fleetAndStats (w : World) : List Backend × List (Backend × OutlierStat) := (w.backends, w.stats)

theorem frame_fleetAndStats : Frame fun w w' => fleetAndStats w' = fleetAndStats w :=
  Frame.of_eq fleetAndStats
    (fun _ _ => rfl) (fun _ _ => rfl) (fun _ _ => rfl) (fun _ _ _ => rfl) fun _ _ => rfl

theorem Nesting.respects_fleetAndStats {n : Nesting} (h : 0 ∉ n.detections) :
    n.Respects fun w w' => fleetAndStats w' = fleetAndStats w := by
  induction n with
  | base alg => trivial
  | priorityTiers inner ih => exact ih h
  | zoneAware zone prefer inner ih => exact ih h
  | slowStart addr window inner ih => exact ⟨fun _ => rfl, ih h⟩
  | outlierDetection addr od inner ih =>
    have haddr : addr ≠ 0 := fun h0 => h (h0 ▸ List.mem_cons_self ..)
    obtain ⟨m, rfl⟩ := Nat.exists_eq_succ_of_ne_zero haddr
    exact ⟨fun _ => rfl, ih fun hmem => h (List.mem_cons_of_mem _ hmem)⟩

section Steps
variable {rate : ℤ → ℤ → ℚ} {inner : Nesting} {od : OutlierConfig} {w : World}

theorem Method.call_fleetAndStats (od : OutlierConfig) (h : 0 ∉ inner.detections) (m : Method)
    (w : World) :
    fleetAndStats (m.call inner.balancer od w).2 =
      fleetAndStats (OutlierDetection.reinstateExpired od (w.clock 0) w) := by
  have hframe := inner.framed frame_fleetAndStats (Nesting.respects_fleetAndStats h)
  cases m with
  | next => exact hframe.next _
  | nextForKey key => exact frame_fleetAndStats.keyedSelectFrom hframe _ key _
  | pickFrom candidates => exact frame_fleetAndStats.selectFrom hframe candidates _
  | pickFromKey candidates key => exact frame_fleetAndStats.keyedSelectFrom hframe candidates key _

open OutlierDetection

theorem statFor_congr {w' : World} (h : w'.stats = w.stats) (b : Backend) :
    statFor w' b = statFor w b := by
  unfold statFor
  rw [h]

theorem statFor_select (rate : ℤ → ℤ → ℚ) (od : OutlierConfig) (h : 0 ∉ inner.detections)
    (clock : Clock) (m : Method) (w : World) (b : Backend) :
    statFor ((Watching.select clock m).apply rate inner od w) b =
      if expired od (clock 0) (statFor w b)
      then { statFor w b with ejected := false, success := 0, failure := 0 } else statFor w b := by
  have hcall := m.call_fleetAndStats od h { w with clock := clock }
  rw [← statFor_reinstateExpired]
  exact statFor_congr (congrArg Prod.snd hcall) b

theorem expired_iff (hbase : od.baseEjection ≤ Time.maxDuration) {now : ℤ} {st : OutlierStat}
    (hpast : st.ejectedAt ≤ now) :
    expired od now st = true ↔ st.ejected = true ∧ st.ejectedAt ≤ now - od.baseEjection := by
  have hsub : od.baseEjection ≤ Time.sub now st.ejectedAt ↔ st.ejectedAt ≤ now - od.baseEjection := by
    unfold Time.sub
    unfold Time.maxDuration at *
    unfold Time.minDuration
    omega
  unfold expired
  rw [Bool.and_eq_true, decide_eq_true_iff, hsub]

end Steps

open OutlierDetection in
structure Watched.Sound (od : OutlierConfig) (fleet : List Backend) (s : Watched) : Prop where
  backends : s.world.backends = fleet
  outcomes : ∀ b, (statFor s.world b).success + (statFor s.world b).failure = s.outcomes b
  failures : ∀ b, (statFor s.world b).failure = s.failures b
  last : ∀ b, marked s.world b → s.lastEjected b = some (statFor s.world b).ejectedAt
  past : ∀ b e, s.lastEjected b = some e → e ≤ s.now ∧ (s.now < e + od.baseEjection → marked s.world b)
  cap : ∀ E : Finset Backend, (∀ b ∈ E, marked s.world b) → (E.card : ℤ) ≤ maxEject od fleet

section Invariant
open OutlierDetection
variable {rate : ℤ → ℤ → ℚ} {inner : Nesting} {od : OutlierConfig} {fleet : List Backend}
  {s s' : Watched}

theorem Watched.Sound.ejectedAt (h : Watched.Sound od fleet s) {b : Backend} {e : ℤ}
    (hm : marked s.world b) (he : s.lastEjected b = some e) : (statFor s.world b).ejectedAt = e :=
  Option.some.inj ((h.last b hm).symm.trans he)

theorem Watched.Sound.marked_select (rate : ℤ → ℤ → ℚ) (h : Watched.Sound od fleet s)
    (hbase : od.baseEjection ≤ Time.maxDuration) (hinner : 0 ∉ inner.detections) {clock : Clock}
    (hnow : s.now ≤ clock 0) (m : Method) (b : Backend) :
    marked ((Watching.select clock m).apply rate inner od s.world) b = true ↔
      ∃ e, s.lastEjected b = some e ∧ clock 0 - od.baseEjection < e := by
  unfold marked
  rw [statFor_select rate od hinner]
  constructor
  · intro hmark
    by_cases hexp : expired od (clock 0) (statFor s.world b) = true
    · rw [if_pos hexp] at hmark
      cases hmark
    · rw [if_neg hexp] at hmark
      have hlast := h.last b hmark
      refine ⟨_, hlast, ?_⟩
      rw [expired_iff hbase ((h.past b _ hlast).1.trans hnow)] at hexp
      by_contra hle
      exact hexp ⟨hmark, not_lt.mp hle⟩
  · rintro ⟨e, he, hlate⟩
    have hmark : marked s.world b := (h.past b e he).2 (by omega)
    have hat := h.ejectedAt hmark he
    rw [if_neg]
    · exact hmark
    · rw [expired_iff hbase (by rw [hat]; exact (h.past b e he).1.trans hnow), hat]
      omega

theorem Watched.step_eq_some {m : Watching} (hs : s.step rate inner od m = some s') :
    s.now ≤ m.time ∧ s'.now = m.time ∧ s'.world = m.apply rate inner od s.world ∧
    (∀ b, s'.outcomes b = if marked s.world b && !marked s'.world b then 0
      else s.outcomes b + m.outcomes b) ∧
    (∀ b, s'.failures b = if marked s.world b && !marked s'.world b then 0
      else s.failures b + m.failures b) ∧
    ∀ b, s'.lastEjected b = if !marked s.world b && marked s'.world b then some m.time
      else s.lastEjected b := by
  unfold Watched.step at hs
  by_cases hback : m.time < s.now
  · rw [if_pos hback] at hs
    cases hs
  · rw [if_neg hback] at hs
    cases hs
    exact ⟨not_lt.mp hback, rfl, rfl, fun _ => rfl, fun _ => rfl, fun _ => rfl⟩

theorem Watched.Sound.select (h : Watched.Sound od fleet s)
    (hbase : od.baseEjection ≤ Time.maxDuration) (hinner : 0 ∉ inner.detections) {clock : Clock}
    {m : Method} (hs : s.step rate inner od (.select clock m) = some s') :
    Watched.Sound od fleet s' := by
  obtain ⟨hnow, hnow', hworld, houtcomes, hfailures, hlast⟩ := Watched.step_eq_some hs
  have hstat (b : Backend) := statFor_select rate od hinner clock m s.world b
  have hmark (b : Backend) := h.marked_select rate hbase hinner hnow m b
  rw [← hworld] at hstat hmark
  have hover (b : Backend) : (marked s.world b && !marked s'.world b) =
      expired od (clock 0) (statFor s.world b) := by
    unfold marked
    rw [hstat]
    by_cases hexp : expired od (clock 0) (statFor s.world b) = true
    · have hejected : (statFor s.world b).ejected = true := (Bool.and_eq_true_iff.mp hexp).1
      rw [if_pos hexp, hexp, hejected]
      rfl
    · rw [if_neg hexp, Bool.and_not_self]
      exact (Bool.eq_false_of_not_eq_true hexp).symm
  have hkept (b : Backend) (hb : marked s'.world b) :
      statFor s'.world b = statFor s.world b ∧ marked s.world b := by
    unfold marked at hb ⊢
    rw [hstat] at hb ⊢
    split_ifs at hb with hexp
    rw [if_neg hexp]
    exact ⟨rfl, hb⟩
  have hsame (b : Backend) : s'.lastEjected b = s.lastEjected b := by
    rw [hlast, if_neg]
    intro hnew
    obtain ⟨hold, hb⟩ := Bool.and_eq_true_iff.mp hnew
    rw [(hkept b hb).2] at hold
    cases hold
  constructor
  · rw [hworld, ← h.backends]
    exact congrArg Prod.fst (m.call_fleetAndStats od hinner { s.world with clock := clock })
  · intro b
    rw [houtcomes, hover, hstat]
    split_ifs
    · rfl
    · exact h.outcomes b
  · intro b
    rw [hfailures, hover, hstat]
    split_ifs
    · rfl
    · exact h.failures b
  · intro b hb
    rw [hsame, (hkept b hb).1]
    exact h.last b (hkept b hb).2
  · intro b e he
    rw [hsame] at he
    rw [hnow', hmark]
    refine ⟨(h.past b e he).1.trans hnow, fun hlt => ⟨e, he, ?_⟩⟩
    change clock 0 < e + od.baseEjection at hlt
    omega
  · intro E hE
    exact h.cap E fun b hb => (hkept b (hE b hb)).2

theorem statFor_observeOutcome_other (now : ℤ) (ok : Bool) (w : World) {b x : Backend} (hb : b ≠ x) :
    statFor (observeOutcome rate od now x ok w) b = statFor w b := by
  rcases observeOutcome_cases rate od now x ok w with hst | ⟨-, -, -, -, hst⟩
  · rw [statFor_congr hst, statFor_setStat, if_neg hb]
  · rw [statFor_congr hst, statFor_setStat, if_neg hb, statFor_setStat, if_neg hb]

structure Ejects (rate : ℤ → ℤ → ℚ) (od : OutlierConfig) (now : ℤ) (x : Backend) (ok : Bool)
    (w : World) : Prop where
  unmarked : marked w x = false
  enough : od.minRequests ≤ (counted ok (statFor w x)).success + (counted ok (statFor w x)).failure
  high : od.errorRateThreshold < rate (counted ok (statFor w x)).failure
    ((counted ok (statFor w x)).success + (counted ok (statFor w x)).failure)
  room : currentlyEjected (setStat w x (counted ok (statFor w x))) < maxEject od w.backends
  stat : statFor (observeOutcome rate od now x ok w) x =
    { counted ok (statFor w x) with ejected := true, ejectedAt := now }

theorem statFor_observeOutcome_self (rate : ℤ → ℤ → ℚ) (od : OutlierConfig) (now : ℤ) (x : Backend)
    (ok : Bool) (w : World) :
    statFor (observeOutcome rate od now x ok w) x = counted ok (statFor w x) ∨
      Ejects rate od now x ok w := by
  rcases observeOutcome_cases rate od now x ok w with hst | ⟨hej, hmin, hrate, hroom, hst⟩
  · left
    rw [statFor_congr hst, statFor_setStat, if_pos rfl]
  · right
    rw [(counted_ejected ok _).1] at hej
    refine ⟨hej, hmin, hrate, hroom, ?_⟩
    rw [statFor_congr hst, statFor_setStat, if_pos rfl]

theorem counted_sum (ok : Bool) (st : OutlierStat) :
    (counted ok st).success + (counted ok st).failure = st.success + st.failure + 1 ∧
      (counted ok st).failure = st.failure + if ok = false then 1 else 0 := by
  cases ok
  · refine ⟨?_, rfl⟩
    change st.success + (st.failure + 1) = st.success + st.failure + 1
    omega
  · refine ⟨?_, (add_zero _).symm⟩
    change st.success + 1 + st.failure = st.success + st.failure + 1
    omega

theorem marked_observeOutcome (rate : ℤ → ℤ → ℚ) (od : OutlierConfig) (now : ℤ) (x : Backend)
    (ok : Bool) (w : World) (b : Backend) :
    (marked w b = true → marked (observeOutcome rate od now x ok w) b = true ∧
      (statFor (observeOutcome rate od now x ok w) b).ejectedAt = (statFor w b).ejectedAt) ∧
    (marked w b = false → marked (observeOutcome rate od now x ok w) b = true → b = x ∧
      Ejects rate od now x ok w) := by
  unfold marked
  by_cases hb : b = x
  · subst hb
    rcases statFor_observeOutcome_self rate od now b ok w with hst | hej
    · rw [hst, (counted_ejected ok _).1, (counted_ejected ok _).2]
      refine ⟨fun h => ⟨h, rfl⟩, fun h h' => ?_⟩
      rw [h] at h'
      cases h'
    · refine ⟨fun h => ?_, fun _ _ => ⟨rfl, hej⟩⟩
      have hunmarked := hej.unmarked
      unfold marked at hunmarked
      rw [h] at hunmarked
      cases hunmarked
  · rw [statFor_observeOutcome_other now ok w hb]
    refine ⟨fun h => ⟨h, rfl⟩, fun h h' => ?_⟩
    rw [h] at h'
    cases h'

theorem observeOutcome_counts (rate : ℤ → ℤ → ℚ) (od : OutlierConfig) (now : ℤ) (x : Backend)
    (ok : Bool) (w : World) (b : Backend) :
    (statFor (observeOutcome rate od now x ok w) b).success +
      (statFor (observeOutcome rate od now x ok w) b).failure =
      (statFor w b).success + (statFor w b).failure + (Watching.observe now x ok).outcomes b ∧
    (statFor (observeOutcome rate od now x ok w) b).failure =
      (statFor w b).failure + (Watching.observe now x ok).failures b := by
  by_cases hb : b = x
  · subst hb
    have hcounted : (statFor (observeOutcome rate od now b ok w) b).success =
        (counted ok (statFor w b)).success ∧
        (statFor (observeOutcome rate od now b ok w) b).failure =
          (counted ok (statFor w b)).failure := by
      rcases statFor_observeOutcome_self rate od now b ok w with hst | hej
      · rw [hst]
        exact ⟨rfl, rfl⟩
      · rw [hej.stat]
        exact ⟨rfl, rfl⟩
    rw [hcounted.1, hcounted.2, (counted_sum ok _).1, (counted_sum ok _).2]
    simp [Watching.outcomes, Watching.failures]
  · rw [statFor_observeOutcome_other now ok w hb]
    simp [Watching.outcomes, Watching.failures, Ne.symm hb]

theorem observeOutcome_cap {now : ℤ} {x : Backend} {ok : Bool} {w : World} {E : Finset Backend}
    (hcap : ∀ E : Finset Backend, (∀ b ∈ E, marked w b) → (E.card : ℤ) ≤ maxEject od w.backends)
    (hE : ∀ b ∈ E, marked (observeOutcome rate od now x ok w) b) :
    (E.card : ℤ) ≤ maxEject od w.backends := by
  by_cases hall : ∀ b ∈ E, marked w b
  · exact hcap E hall
  · push Not at hall
    obtain ⟨b, hb, hold⟩ := hall
    obtain ⟨rfl, hej⟩ :=
      (marked_observeOutcome rate od now x ok w b).2 (Bool.eq_false_of_not_eq_true hold) (hE b hb)
    -- all but the new one were counted when it was let in
    have hothers : ∀ y ∈ E.erase b, marked (setStat w b (counted ok (statFor w b))) y := by
      intro y hy
      obtain ⟨hyb, hyE⟩ := Finset.mem_erase.mp hy
      have hmarked := hE y hyE
      unfold marked at hmarked ⊢
      rw [statFor_observeOutcome_other now ok w hyb] at hmarked
      rw [statFor_setStat, if_neg hyb]
      exact hmarked
    have hroom := (card_le_currentlyEjected hothers).trans_lt hej.room
    have hcard := Finset.card_erase_add_one hb
    omega

theorem Watched.Sound.observe (h : Watched.Sound od fleet s) {now : ℤ} {x : Backend} {ok : Bool}
    (hs : s.step rate inner od (.observe now x ok) = some s') : Watched.Sound od fleet s' := by
  obtain ⟨hnow, hnow', hworld, houtcomes, hfailures, hlast⟩ := Watched.step_eq_some hs
  change s'.world = observeOutcome rate od now x ok s.world at hworld
  have hmark (b : Backend) := marked_observeOutcome rate od now x ok s.world b
  have hcount (b : Backend) := observeOutcome_counts rate od now x ok s.world b
  rw [← hworld] at hmark hcount
  have hover (b : Backend) : (marked s.world b && !marked s'.world b) = false := by
    cases hb : marked s.world b with
    | false => rfl
    | true => rw [((hmark b).1 hb).1]; rfl
  constructor
  · rw [hworld, observeOutcome_backends, h.backends]
  · intro b
    rw [(hcount b).1, h.outcomes, houtcomes, hover]
    exact (Nat.cast_add _ _).symm
  · intro b
    rw [(hcount b).2, h.failures, hfailures, hover]
    exact (Nat.cast_add _ _).symm
  · intro b hb
    rw [hlast, hb]
    cases hold : marked s.world b with
    | true =>
      rw [((hmark b).1 hold).2]
      exact h.last b hold
    | false =>
      obtain ⟨rfl, hej⟩ := (hmark b).2 hold hb
      rw [hworld, hej.stat]
      rfl
  · intro b e he
    rw [hlast] at he
    rw [hnow']
    by_cases hnew : (!marked s.world b && marked s'.world b) = true
    · rw [if_pos hnew] at he
      cases he
      exact ⟨le_rfl, fun _ => (Bool.and_eq_true_iff.mp hnew).2⟩
    · rw [if_neg hnew] at he
      obtain ⟨hle, hwithin⟩ := h.past b e he
      refine ⟨hle.trans hnow, fun hlt => ((hmark b).1 (hwithin ?_)).1⟩
      omega
  · intro E hE
    rw [hworld] at hE
    rw [← h.backends]
    apply observeOutcome_cap _ hE
    rw [h.backends]
    exact h.cap

theorem Watched.Sound.step (h : Watched.Sound od fleet s) (hbase : od.baseEjection ≤ Time.maxDuration)
    (hinner : 0 ∉ inner.detections) {m : Watching} (hs : s.step rate inner od m = some s') :
    Watched.Sound od fleet s' := by
  cases m with
  | observe now x ok => exact h.observe hs
  | select clock m => exact h.select hbase hinner hs

theorem Watched.Sound.start {w : World} (hw : w.stats = []) (now : ℤ) :
    Watched.Sound od w.backends { now := now, world := w } := by
  have hstat (b : Backend) : statFor w b = {} := by
    unfold statFor
    rw [hw]
    rfl
  have hmark (b : Backend) : marked w b = false := by
    unfold marked
    rw [hstat]
  constructor
  · rfl
  · intro b
    rw [hstat]
    rfl
  · intro b
    rw [hstat]
    rfl
  · intro b hb
    rw [hmark] at hb
    cases hb
  · intro b e he
    cases he
  · intro E hE
    have hempty : E = ∅ := by
      apply Finset.eq_empty_of_forall_notMem
      intro b hb
      have := hE b hb
      rw [hmark] at this
      cases this
    rw [hempty]
    exact (zero_le_one).trans (le_max_left _ _)

/-- Over every run from an empty map, and for every way to compute the error rate: the marked
backends never exceed the cap; a mark comes only with an outcome that the counts justify; and
after a selection exactly those are marked that were ejected less than the window ago. -/
theorem ejection_cap_and_timing (hbase : od.baseEjection ≤ Time.maxDuration)
    (hinner : 0 ∉ inner.detections) {w : World} (hw : w.stats = []) {start : ℤ} {ms : List Watching}
    (hrun : exec (Watched.step rate inner od) { now := start, world := w } ms = some s) :
    (∀ E : Finset Backend, (∀ b ∈ E, marked s.world b) →
      (E.card : ℤ) ≤ max 1 ⌊(w.backends.length * od.maxEjectionPercent : ℚ) / 100⌋) ∧
    ∀ m s', s.step rate inner od m = some s' →
      (∀ b, marked s.world b = false → marked s'.world b = true →
        (∃ now ok, m = .observe now b ok) ∧ od.minRequests ≤ s'.outcomes b ∧
          od.errorRateThreshold < rate (s'.failures b) (s'.outcomes b)) ∧
      ∀ clock method, m = .select clock method → ∀ b, marked s'.world b = true ↔
        ∃ e, s.lastEjected b = some e ∧ clock 0 - od.baseEjection < e := by
  have hsound : Watched.Sound od w.backends s :=
    exec_keeps (fun _ _ _ h hs => h.step hbase hinner hs) hrun (Watched.Sound.start hw start)
  refine ⟨hsound.cap, fun m s' hs => ⟨fun b hold hnew => ?_, ?_⟩⟩
  · have hsound' := hsound.step hbase hinner hs
    obtain ⟨hnow, -, hworld, -, -, -⟩ := Watched.step_eq_some hs
    cases m with
    | select clock method =>
      rw [hworld, hsound.marked_select rate hbase hinner hnow] at hnew
      obtain ⟨e, he, hlate⟩ := hnew
      change s.now ≤ clock 0 at hnow
      have hmarked := (hsound.past b e he).2 (by omega)
      rw [hmarked] at hold
      cases hold
    | observe now x ok =>
      change s'.world = observeOutcome rate od now x ok s.world at hworld
      rw [hworld] at hnew
      obtain ⟨rfl, hej⟩ := (marked_observeOutcome rate od now x ok s.world b).2 hold hnew
      have houtcomes := hsound'.outcomes b
      have hfailures := hsound'.failures b
      rw [hworld, hej.stat] at houtcomes hfailures
      have henough := hej.enough
      have hrate := hej.high
      rw [houtcomes] at henough hrate
      rw [hfailures] at hrate
      exact ⟨⟨now, ok, rfl⟩, henough, hrate⟩
  · rintro clock method rfl b
    obtain ⟨hnow, -, hworld, -, -, -⟩ := Watched.step_eq_some hs
    rw [hworld]
    exact hsound.marked_select rate hbase hinner hnow method b

/-- Three backends, of which at most one may be ejected. -/
def watchedThree : World where
  backends := [{ addr := 0 }, { addr := 1 }, { addr := 2 }]

def strict : OutlierConfig where
  errorRateThreshold := 1 / 2
  minRequests := 2
  baseEjection := 10
  maxEjectionPercent := 50

def twoFail : List Watching :=
  [.observe 0 { addr := 0 } false, .observe 1 { addr := 0 } false, .observe 2 { addr := 1 } false,
    .observe 3 { addr := 1 } false, .select (fun _ => 10) .next]

def exactRate (failure total : ℤ) : ℚ := failure / total

/-- Two backends fail, and there is room to eject one of them, until a selection after its time. -/
theorem ejection_cap_and_timing_three :
    ∃ s, exec (Watched.step exactRate (.base .roundRobin) strict) { now := 0, world := watchedThree }
      twoFail = some s ∧
      marked s.world { addr := 0 } = true ∧ marked s.world { addr := 1 } = false ∧
      s.lastEjected { addr := 0 } = some 1 ∧
      ∀ s', s.step exactRate (.base .roundRobin) strict (.select (fun _ => 11) (.nextForKey "k")) =
        some s' →
        marked s'.world { addr := 0 } = false := by
  have hreach :
      (exec (Watched.step exactRate (.base .roundRobin) strict) { now := 0, world := watchedThree }
      twoFail).any
      (fun s => marked s.world { addr := 0 } && !marked s.world { addr := 1 } &&
        s.lastEjected { addr := 0 } == some 1) = true := by
    decide +kernel
  obtain ⟨s, hs, hfacts⟩ := (Option.any_eq_true _ _).mp hreach
  simp only [Bool.and_eq_true, beq_iff_eq, Bool.not_eq_eq_eq_not, Bool.not_true] at hfacts
  obtain ⟨⟨hzero, hone⟩, hlast⟩ := hfacts
  refine ⟨s, hs, hzero, hone, hlast, fun s' hs' => ?_⟩
  have htiming :=
    ((ejection_cap_and_timing (by decide) (by decide) rfl hs).2 _ s' hs').2 _ _ rfl { addr := 0 }
  apply Bool.eq_false_of_not_eq_true
  rw [htiming, hlast]
  rintro ⟨e, he, hlate⟩
  cases he
  exact absurd hlate (by decide)

end Invariant
end ReverseProxyLb

import ReverseProxyLb.Balancer.Series
import ReverseProxyLb.Lib.Greedy

/-! `LeastConnections` and `WeightedLeastConn` choose and reserve under one lock. From zero
connections, calls without releases give out units greedily, as long as the 32-bit counters
hold them. -/
namespace ReverseProxyLb
open Lib

def leastConnectionsLocked (healthy : List Backend) : Selection := fun w =>
  reserveSelected (healthy.foldl (leastRound w) (none, 2 ^ 63 - 1)).1 w

def weightedLeastConnLocked (healthy : List Backend) : Selection := fun w =>
  let score := fun b => (w.getActiveConns b : ℚ) / (effectiveWeight w b : ℚ)
  reserveSelected ((scanMin score none healthy).map Prod.fst) w

theorem leastConnections_eq : leastConnections = withHealthy leastConnectionsLocked := rfl

def PicksLeast (sel : Selection) (weight : World → Backend → ℤ) : Prop :=
  ∀ w : World, w.getHealthy ≠ [] → ∃ a ∈ w.getHealthy, sel w = reserve a w ∧
    ∀ b ∈ w.getHealthy, (w.getActiveConns a : ℚ) / weight w a ≤ w.getActiveConns b / weight w b

theorem weightedLeastConn_picksLeast : PicksLeast weightedLeastConn effectiveWeight := by
  intro w hne
  obtain ⟨q, hq, hm⟩ := scanMin_none
    (fun b => (w.getActiveConns b : ℚ) / (effectiveWeight w b : ℚ)) hne
  obtain ⟨hscore, hleast⟩ := scanMin_none_least _ hq
  refine ⟨q.1, hm, ?_, ?_⟩
  · rw [weightedLeastConn, withHealthy, if_neg hne]
    dsimp only
    rw [hq]
    rfl
  · intro b hb
    rw [← hscore]
    exact hleast b hb

theorem leastConnections_picksLeast : PicksLeast leastConnections fun _ _ => 1 := by
  intro w hne
  obtain ⟨q, hq, hfold⟩ := leastRound_scan (w := w) hne
  obtain ⟨q', hq', hm⟩ := scanMin_none w.getActiveConns hne
  obtain rfl : q = q' := Option.some.inj (hq.symm.trans hq')
  obtain ⟨hscore, hleast⟩ := scanMin_none_least _ hq
  refine ⟨q.1, hm, ?_, ?_⟩
  · rw [leastConnections, withHealthy, if_neg hne, hfold]
    rfl
  · intro b hb
    have := hleast b hb
    rw [hscore] at this
    simp only [Int.cast_one, div_one]
    exact_mod_cast this

variable {sel : Selection} {weight : World → Backend → ℤ} {w : World}

theorem PicksLeast.call (hsel : PicksLeast sel weight) {s : Series} (hne : s.world.getHealthy ≠ []) :
    ∃ a ∈ s.world.getHealthy, (s.step sel .next).world = s.world.incrConn a ∧
      (∀ b, (s.step sel .next).served b = s.served b + if b = a then 1 else 0) ∧
      ∀ b ∈ s.world.getHealthy, (s.world.getActiveConns a : ℚ) / weight s.world a ≤
        s.world.getActiveConns b / weight s.world b := by
  obtain ⟨a, ha, hpick, hleast⟩ := hsel s.world hne
  refine ⟨a, ha, ?_, ?_, hleast⟩
  · rw [Series.step, hpick]
    rfl
  · intro b
    apply Series.served_next_of
    rw [hpick]
    rfl

theorem PicksLeast.series (hsel : PicksLeast sel weight) (hne : w.getHealthy ≠ [])
    (hweight : ∀ w', SameFleet w w' → weight w' = weight w) (hpos : ∀ b, 0 < weight w b)
    (hzero : ∀ b ∈ w.getHealthy, w.activeConns b = 0) (k : ℕ) :
    let t := Series.run sel { world := w } (List.replicate k .next)
    SameFleet w t.world ∧ (∀ b ∈ w.getHealthy, t.world.activeConns b = Int32.ofNat (t.served b)) ∧
      ((∀ b ∈ w.getHealthy, t.served b < 2 ^ 31) →
        Levelled w.getHealthy (fun b => weight w b) t.served) := by
  induction k with
  | zero =>
    refine ⟨.refl w, hzero, ?_⟩
    intro _
    exact levelled_zero _ _
  | succ k ih =>
    intro t
    obtain ⟨hsame, hconns, hlevel⟩ := ih
    set s := Series.run sel { world := w } (List.replicate k .next) with hs
    have ht : t = s.step sel .next := by
      rw [hs, ← Series.run_concat, ← List.replicate_succ']
    have hhealthy := hsame.getHealthy
    obtain ⟨a, ha, hworld, hserved, hleast⟩ := hsel.call (s := s) (by rwa [hhealthy])
    rw [hhealthy] at ha hleast
    rw [← ht] at hworld hserved
    refine ⟨?_, ?_, ?_⟩
    · rw [hworld]
      exact hsame.trans ⟨rfl, rfl, rfl⟩
    · intro b hb
      rw [hworld, hserved]
      by_cases hba : b = a
      · subst hba
        simp [hconns b hb, Int32.ofNat_add]
      · simp [World.activeConns_incrConn_of_ne hba, hconns b hb, hba]
    · intro hlt
      have hbefore : ∀ b ∈ w.getHealthy, s.served b < 2 ^ 31 := by
        intro b hb
        have := hlt b hb
        rw [hserved] at this
        omega
      have hcount : ∀ b ∈ w.getHealthy, s.world.getActiveConns b = s.served b := by
        intro b hb
        rw [World.getActiveConns, hconns b hb, Int32.toInt_ofNat_of_lt (hbefore b hb)]
      apply (hlevel hbefore).give _ _ hserved
      · intro b _
        exact_mod_cast hpos b
      · intro b hb
        have := hleast b hb
        rw [hcount a ha, hcount b hb, hweight _ hsame] at this
        exact_mod_cast this

theorem PicksLeast.sameFleet (hsel : PicksLeast sel weight) (hne : w.getHealthy ≠ []) :
    SameFleet w (sel w).2 := by
  obtain ⟨a, -, hpick, -⟩ := hsel w hne
  rw [hpick]
  exact ⟨rfl, rfl, rfl⟩

def LevelLoads (healthy : List Backend) (weight : Backend → ℤ) (w : World) : Prop :=
  ∀ i ∈ healthy, ∀ j ∈ healthy,
    (1 ≤ w.getActiveConns i →
      ((w.getActiveConns i : ℚ) - 1) / weight i ≤ w.getActiveConns j / weight j) ∧
    |(w.getActiveConns i : ℚ) / weight i - w.getActiveConns j / weight j| ≤
      1 / min (weight i : ℚ) (weight j)

theorem PicksLeast.concurrent {body : List Backend → Selection}
    (hsel : PicksLeast (withHealthy body) weight) (hne : w.getHealthy ≠ [])
    (hweight : ∀ w', SameFleet w w' → weight w' = weight w) (hpos : ∀ b, 0 < weight w b)
    (hzero : ∀ b ∈ w.getHealthy, w.activeConns b = 0)
    {ms : List (Crowd.Move Unit Unit Empty)} {t : Crowd Series LockedCall}
    (hr : exec (Crowd.step (lockedRules body)) ⟨{ world := w }, []⟩ ms = some t)
    (hlt : ∀ b ∈ w.getHealthy, t.shared.served b < 2 ^ 31) :
    LevelLoads w.getHealthy (weight w) t.shared.world := by
  have hkeep : ∀ w', SameFleet w w' → SameFleet w' (withHealthy body w').2 := by
    intro w' hsame
    apply hsel.sameFleet
    rwa [hsame.getHealthy]
  obtain ⟨k, hk⟩ := concurrent_is_series hne hkeep hr
  obtain ⟨-, hconns, hlevel⟩ := hsel.series hne hweight hpos hzero k
  rw [← hk] at hconns hlevel
  have hcount : ∀ b ∈ w.getHealthy, t.shared.world.getActiveConns b = t.shared.served b := by
    intro b hb
    rw [World.getActiveConns, hconns b hb, Int32.toInt_ofNat_of_lt (hlt b hb)]
  have hlevel := hlevel hlt
  have hposQ : ∀ b ∈ w.getHealthy, (0 : ℚ) < weight w b := fun b _ => by exact_mod_cast hpos b
  intro i hi j hj
  rw [hcount i hi, hcount j hj, Int.cast_natCast, Int.cast_natCast]
  constructor
  · intro hone
    exact hlevel i hi j hj (by exact_mod_cast hone)
  · exact hlevel.near hposQ hi hj

/-- From zero connections, after calls in any concurrent order and without releases, the loads are
level, as long as no backend has been given `2 ^ 31` connections. -/
theorem least_loaded_levels (w : World) (hzero : ∀ b ∈ w.getHealthy, w.activeConns b = 0)
    (ms : List (Crowd.Move Unit Unit Empty)) (t : Crowd Series LockedCall)
    (hlt : ∀ b ∈ w.getHealthy, t.shared.served b < 2 ^ 31) :
    (exec (Crowd.step (lockedRules leastConnectionsLocked)) ⟨{ world := w }, []⟩ ms = some t →
      LevelLoads w.getHealthy (fun _ => 1) t.shared.world) ∧
    (exec (Crowd.step (lockedRules weightedLeastConnLocked)) ⟨{ world := w }, []⟩ ms = some t →
      LevelLoads w.getHealthy (effectiveWeight w) t.shared.world) := by
  rcases eq_or_ne w.getHealthy [] with hnil | hne
  · simp [LevelLoads, hnil]
  constructor
  · intro hr
    exact PicksLeast.concurrent leastConnections_picksLeast hne (fun _ _ => rfl) (fun _ => one_pos)
      hzero hr hlt
  · intro hr
    exact PicksLeast.concurrent weightedLeastConn_picksLeast hne
      (fun _ hsame => funext hsame.effectiveWeight) (effectiveWeight_pos w) hzero hr hlt

def twinA : Backend := { addr := 0 }
def twinB : Backend := { addr := 1 }

theorem twinA_ne : twinA ≠ twinB := by decide

def twins : World where
  backends := [twinA, twinB]

theorem leastConnections_twins {w : World} (h : w.getHealthy = [twinA, twinB]) :
    leastConnections w =
      reserve (if w.getActiveConns twinB < w.getActiveConns twinA then twinB else twinA) w := by
  obtain ⟨q, hq, hfold⟩ := leastRound_scan (w := w) (l := [twinA, twinB]) (by simp)
  rw [leastConnections, withHealthy, h, if_neg (by simp), hfold]
  simp only [scanMin, List.foldl_cons, List.foldl_nil, better] at hq
  split_ifs at hq ⊢ <;> rw [← Option.some.inj hq] <;> rfl

/-- The state after `m` connections each. -/
structure Even (m : ℕ) (w : World) : Prop where
  same : SameFleet twins w
  a : w.activeConns twinA = Int32.ofNat m
  b : w.activeConns twinB = Int32.ofNat m

variable {m : ℕ}

theorem Even.takes_a (h : Even m w) : leastConnections w = reserve twinA w := by
  have hnot : ¬ w.getActiveConns twinB < w.getActiveConns twinA := by
    rw [World.getActiveConns, World.getActiveConns, h.a, h.b]
    exact lt_irrefl _
  rw [leastConnections_twins h.same.getHealthy, if_neg hnot]

theorem Even.takes_b (h : Even m w) (hm : m + 1 < 2 ^ 31) :
    leastConnections (w.incrConn twinA) = reserve twinB (w.incrConn twinA) := by
  have hlt : (w.incrConn twinA).getActiveConns twinB < (w.incrConn twinA).getActiveConns twinA := by
    have ha : (w.incrConn twinA).activeConns twinA = Int32.ofNat (m + 1) := by
      simp [h.a, Int32.ofNat_add]
    have hb : (w.incrConn twinA).activeConns twinB = Int32.ofNat m := by
      rw [World.activeConns_incrConn_of_ne twinA_ne.symm, h.b]
    rw [World.getActiveConns, World.getActiveConns, ha, hb, Int32.toInt_ofNat_of_lt hm,
      Int32.toInt_ofNat_of_lt (by omega)]
    omega
  have hsame : SameFleet twins (w.incrConn twinA) := h.same.trans ⟨rfl, rfl, rfl⟩
  rw [leastConnections_twins hsame.getHealthy, if_pos hlt]

theorem twins_in_pairs (hm : m < 2 ^ 31) :
    Even m (Series.run leastConnections { world := twins } (List.replicate (2 * m) .next)).world := by
  induction m with
  | zero => exact ⟨.refl _, rfl, rfl⟩
  | succ m ih =>
    have heven := ih (by omega)
    rw [show 2 * (m + 1) = 2 * m + 1 + 1 by omega, List.replicate_succ', Series.run_concat,
      List.replicate_succ', Series.run_concat]
    generalize Series.run leastConnections { world := twins } (List.replicate (2 * m) .next) =
      s at heven
    have hone : (s.step leastConnections .next).world = s.world.incrConn twinA := by
      rw [Series.step, heven.takes_a]
      rfl
    have htwo : ((s.step leastConnections .next).step leastConnections .next).world =
        (s.world.incrConn twinA).incrConn twinB := by
      rw [Series.step, hone, heven.takes_b hm]
      rfl
    rw [htwo]
    refine ⟨heven.same.trans ⟨rfl, rfl, rfl⟩, ?_, ?_⟩
    · rw [World.activeConns_incrConn_of_ne twinA_ne]
      simp [heven.a, Int32.ofNat_add]
    · simp [World.activeConns_incrConn_of_ne twinA_ne.symm, heven.b, Int32.ofNat_add]

/-- The next call wraps the first counter to `-2 ^ 31`, far below the other. -/
theorem least_loaded_wraps :
    ∃ ms t, (∀ b ∈ twins.getHealthy, twins.activeConns b = 0) ∧ twins.getHealthy.Nodup ∧
      exec (Crowd.step (lockedRules leastConnectionsLocked)) ⟨{ world := twins }, []⟩ ms = some t ∧
      t.shared.world.getActiveConns twinA = -2 ^ 31 ∧
      t.shared.world.getActiveConns twinB = 2 ^ 31 - 1 ∧
      ¬ LevelLoads twins.getHealthy (fun _ => 1) t.shared.world := by
  have hne : twins.getHealthy ≠ [] := by decide
  have hkeep : ∀ w', SameFleet twins w' → SameFleet w' (withHealthy leastConnectionsLocked w').2 := by
    intro w' hsame
    apply leastConnections_picksLeast.sameFleet
    rwa [hsame.getHealthy]
  obtain ⟨t, ht, -, -, hshared⟩ := series_is_concurrent hne hkeep (2 * (2 ^ 31 - 1) + 1)
  have heven := twins_in_pairs (m := 2 ^ 31 - 1) (by norm_num)
  have hworld : t.shared.world =
      (Series.run leastConnections
        { world := twins } (List.replicate (2 * (2 ^ 31 - 1)) .next)).world.incrConn
        twinA := by
    rw [hshared, ← leastConnections_eq, List.replicate_succ', Series.run_concat, Series.step,
      heven.takes_a]
    rfl
  have hA : t.shared.world.getActiveConns twinA = -2 ^ 31 := by
    rw [World.getActiveConns, hworld, World.activeConns_incrConn_self, heven.a]
    decide
  have hB : t.shared.world.getActiveConns twinB = 2 ^ 31 - 1 := by
    rw [World.getActiveConns, hworld, World.activeConns_incrConn_of_ne twinA_ne.symm, heven.b]
    decide
  refine ⟨_, t, fun _ _ => rfl, by decide, ht, hA, hB, ?_⟩
  intro hlevel
  have := (hlevel twinB (by decide) twinA (by decide)).1 (by rw [hB]; norm_num)
  rw [hA, hB] at this
  norm_num at this

def unequal : World where
  backends := [twinA, twinB]
  weight := fun b => if b = twinB then 3 else 1

/-- Five calls that overtake each other between taking the list and the lock. -/
def interleaved : List (Crowd.Move Unit Unit Empty) :=
  [.enter (), .enter (), .act 0 (), .enter (), .act 1 (), .act 1 (), .act 0 (), .act 2 (), .enter (),
    .enter (),
    .act 3 (), .act 4 (), .act 4 (), .act 2 (), .act 3 ()]

theorem least_loaded_levels_interleaved :
    ∃ t t', exec (Crowd.step (lockedRules leastConnectionsLocked)) ⟨{ world := unequal }, []⟩
      interleaved = some t ∧
      unequal.getHealthy.map t.shared.world.getActiveConns = [3, 2] ∧
      LevelLoads unequal.getHealthy (fun _ => 1) t.shared.world ∧
      exec (Crowd.step (lockedRules weightedLeastConnLocked)) ⟨{ world := unequal }, []⟩ interleaved =
        some t' ∧
      unequal.getHealthy.map t'.shared.world.getActiveConns = [2, 3] ∧
      LevelLoads unequal.getHealthy (effectiveWeight unequal) t'.shared.world := by
  have hzero : ∀ b ∈ unequal.getHealthy, unequal.activeConns b = 0 := fun _ _ => rfl
  have hfew : ∀ {served : Backend → ℕ} {m n : ℕ}, unequal.getHealthy.map served = [m, n] → m < 2 ^ 31 →
      n < 2 ^ 31 →
      ∀ b ∈ unequal.getHealthy, served b < 2 ^ 31 := by
    intro served m n h hm hn b hb
    have hmem : served b ∈ [m, n] := h ▸ List.mem_map_of_mem hb
    rcases List.mem_cons.mp hmem with heq | hmem
    · rwa [heq]
    · rwa [List.mem_singleton.mp hmem]
  have hplain :
      (exec (Crowd.step (lockedRules leastConnectionsLocked)) ⟨{ world := unequal }, []⟩
      interleaved).map
      (fun t => (unequal.getHealthy.map t.shared.world.getActiveConns,
        unequal.getHealthy.map t.shared.served)) =
        some ([3, 2], [3, 2]) := by decide +kernel
  have hweighted :
      (exec (Crowd.step (lockedRules weightedLeastConnLocked)) ⟨{ world := unequal }, []⟩
      interleaved).map
      (fun t => (unequal.getHealthy.map t.shared.world.getActiveConns,
        unequal.getHealthy.map t.shared.served)) =
        some ([2, 3], [2, 3]) := by decide +kernel
  obtain ⟨t, ht, hout⟩ := Option.map_eq_some_iff.mp hplain
  obtain ⟨t', ht', hout'⟩ := Option.map_eq_some_iff.mp hweighted
  obtain ⟨hconns, hserved⟩ := Prod.mk.inj hout
  obtain ⟨hconns', hserved'⟩ := Prod.mk.inj hout'
  have hlt := hfew hserved (by norm_num) (by norm_num)
  have hlt' := hfew hserved' (by norm_num) (by norm_num)
  exact ⟨t, t', ht, hconns, (least_loaded_levels unequal hzero _ t hlt).1 ht, ht', hconns',
    (least_loaded_levels unequal hzero _ t' hlt').2 ht'⟩

end ReverseProxyLb

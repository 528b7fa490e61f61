import ReverseProxyLb.Balancer.Nesting

/-! If every filter lets the whole healthy set pass, every ramp is over and no ejection expires, a
nesting selects as its base algorithm does and leaves it as it would be. -/
namespace ReverseProxyLb
open Lib World

def World.aside (w : World) (slow : ℕ → SlowStartState) (clock : Clock) : World :=
  { w with slow := slow, clock := clock }

def asideResult (slow : ℕ → SlowStartState) (clock : Clock) (p : Picked × World) : Picked × World :=
  (p.1, p.2.aside slow clock)

def Oblivious (sel : Selection) : Prop :=
  ∀ w slow clock, sel (w.aside slow clock) = asideResult slow clock (sel w)

section Oblivious
variable (w : World) (slow : ℕ → SlowStartState) (clock : Clock)

theorem weightedScan_aside (sequence current : UInt32) (l : List Backend) :
    weightedScan (w.aside slow clock) sequence current l = weightedScan w sequence current l := by
  induction l generalizing current with
  | nil => rfl
  | cons b rest ih =>
    simp only [weightedScan, ih]
    rfl

theorem randomScan_aside (r : ℤ) (l : List Backend) :
    randomScan (w.aside slow clock) r l = randomScan w r l := by
  induction l generalizing r with
  | nil => rfl
  | cons b rest ih =>
    simp only [randomScan, ih]
    rfl

theorem ringWalk_aside (healthy : List Backend) (capacity : ℤ) (fallback : Option Backend)
    (seen : List Backend) (points : List (Option Backend)) :
    ringWalk (w.aside slow clock) healthy capacity fallback seen points =
      ringWalk w healthy capacity fallback seen points := by
  induction points generalizing fallback seen with
  | nil => rfl
  | cons p rest ih =>
    cases p with
    | none =>
      simp only [ringWalk, ih]
    | some b =>
      simp only [ringWalk, ih]
      rfl

theorem ite_aside {c : Prop} [Decidable c] {p q p' q' : Picked × World}
    (hp : p' = asideResult slow clock p) (hq : q' = asideResult slow clock q) :
    (if c then p' else q') = asideResult slow clock (if c then p else q) := by
  split_ifs
  · exact hp
  · exact hq

end Oblivious

namespace Oblivious

theorem reserveSelected (o : Option Backend) : Oblivious (ReverseProxyLb.reserveSelected o) := by
  intro w slow clock
  cases o <;> rfl

theorem pickIndex (l : List Backend) (i : UInt32) : Oblivious (ReverseProxyLb.pickIndex l i) := by
  intro w slow clock
  apply ite_aside
  · rfl
  · cases l[(i % UInt32.ofNat l.length).toNat]? <;> rfl

theorem withHealthy {f : List Backend → Selection} (h : ∀ healthy, Oblivious (f healthy)) :
    Oblivious (ReverseProxyLb.withHealthy f) := by
  intro w slow clock
  apply ite_aside
  · rfl
  · exact h _ w slow clock

theorem weightedRoundRobin : Oblivious ReverseProxyLb.weightedRoundRobin := by
  apply withHealthy
  intro healthy w slow clock
  apply ite_aside
  · exact reserveSelected _ w slow clock
  apply ite_aside
  · rfl
  · change ReverseProxyLb.reserveSelected
      (weightedScan (World.aside { w with current := w.current + 1 } slow clock)
      _ 0 healthy <|> _) (World.aside { w with current := w.current + 1 } slow clock) = _
    rw [weightedScan_aside]
    exact reserveSelected _ _ slow clock

theorem swrr : Oblivious ReverseProxyLb.swrr := by
  apply withHealthy
  intro healthy w slow clock
  have hround : smoothRound (w.aside slow clock) = smoothRound w := rfl
  dsimp only
  rw [hround]
  split
  · next hbest =>
    have hbest :
        ((healthy.foldl (smoothRound w) { current := w.currentWeight }).best <|> healthy.head?) =
        none := hbest
    rw [hbest]
    rfl
  · next best hbest =>
    have hbest :
        ((healthy.foldl (smoothRound w) { current := w.currentWeight }).best <|> healthy.head?) =
        some best :=
      hbest
    rw [hbest]
    rfl

theorem weightedRandom : Oblivious ReverseProxyLb.weightedRandom := by
  apply withHealthy
  intro healthy w slow clock
  change ReverseProxyLb.reserveSelected (randomScan (w.draw.2.aside slow clock) _ healthy <|> _)
    (w.draw.2.aside slow clock) = _
  rw [randomScan_aside]
  exact reserveSelected _ _ slow clock

theorem p2c : Oblivious ReverseProxyLb.p2c := by
  apply withHealthy
  intro healthy w slow clock
  apply ite_aside
  · exact reserveSelected _ w slow clock
  · have hintn (w : World) (n : ℕ) :
        (w.aside slow clock).intn n = ((w.intn n).1, (w.intn n).2.aside slow clock) := rfl
    simp only [hintn]
    generalize w.intn healthy.length = d
    generalize d.2.intn (healthy.length - 1) = e
    cases healthy[d.1]? <;> cases healthy[if d.1 ≤ e.1 then e.1 + 1 else e.1]? <;> rfl

theorem consistentHashForKey (c : ConsistentHash) (key : String) :
    Oblivious (ReverseProxyLb.consistentHashForKey c key) := by
  apply withHealthy
  intro healthy w slow clock
  apply ite_aside
  · rfl
  · change ReverseProxyLb.reserveSelected (ringWalk
      (World.aside { w with ring := currentRing c healthy w } slow clock) healthy _ none [] _ <|> _)
      (World.aside { w with ring := currentRing c healthy w } slow clock) = _
    rw [ringWalk_aside]
    exact reserveSelected _ _ slow clock

theorem next (alg : Algorithm) : Oblivious alg.next := by
  cases alg with
  | roundRobin =>
    change Oblivious ReverseProxyLb.roundRobin
    apply withHealthy
    intro healthy w slow clock
    exact pickIndex healthy w.current { w with current := w.current + 1 } slow clock
  | leastConnections =>
    change Oblivious ReverseProxyLb.leastConnections
    apply withHealthy
    intro healthy w slow clock
    exact reserveSelected _ w slow clock
  | weightedRoundRobin => exact weightedRoundRobin
  | swrr => exact swrr
  | weightedLeastConn =>
    change Oblivious ReverseProxyLb.weightedLeastConn
    apply withHealthy
    intro healthy w slow clock
    exact reserveSelected _ w slow clock
  | weightedRandom => exact weightedRandom
  | p2c => exact p2c
  | consistentHash c => exact fun w slow clock => consistentHashForKey c _ w.draw.2 slow clock
  | ewma =>
    change Oblivious ReverseProxyLb.ewma
    apply withHealthy
    intro healthy w slow clock
    exact reserveSelected _ w slow clock
  | ipHash => exact fun w slow clock => rfl

theorem nextForKey (alg : Algorithm) : ∀ f ∈ alg.nextForKey, ∀ key, Oblivious (f key) := by
  intro f hf key
  cases alg with
  | consistentHash c =>
    obtain rfl : ReverseProxyLb.consistentHashForKey c = f := Option.some.inj hf
    exact consistentHashForKey c key
  | ipHash =>
    obtain rfl : nextForIP = f := Option.some.inj hf
    exact withHealthy fun healthy => pickIndex healthy _
  | _ => cases hf

end Oblivious

theorem Oblivious.select (n : Nesting) (key : String) : Oblivious (n.plain.select key) := by
  intro w slow clock
  cases h : n.algorithm.nextForKey with
  | none =>
    rw [Balancer.select_of_none (B := n.plain) h, Balancer.select_of_none (B := n.plain) h]
    exact Oblivious.next n.algorithm w slow clock
  | some f =>
    rw [Balancer.select_of_some (B := n.plain) h, Balancer.select_of_some (B := n.plain) h]
    exact Oblivious.nextForKey n.algorithm f h key w slow clock

namespace Nesting

def Quiet : Nesting → World → Prop
  | base _, _ => True
  | priorityTiers inner, w =>
    (∀ a ∈ w.getHealthy, ∀ b ∈ w.getHealthy, a.tier = b.tier) ∧ inner.Quiet w
  | zoneAware zone prefer inner, w =>
    (prefer = false ∨ zone = "" ∨ (∀ b ∈ w.getHealthy, b.zone = zone) ∨
      ∀ b ∈ w.getHealthy, b.zone ≠ zone) ∧ inner.Quiet w
  | slowStart addr window inner, w =>
    (0 < window → (∀ b ∈ w.getHealthy, (w.slow addr).wasHealthy b = some true) ∧
      ∀ b since, (w.slow addr).healthySince b = some since →
        ∀ k, window ≤ Time.sub (w.clock k) since) ∧ inner.Quiet w
  | outlierDetection addr od inner, w =>
    (∀ p ∈ w.statsAt addr, ∀ k, OutlierDetection.expired od (w.clock k) p.2 = false) ∧ inner.Quiet w

end Nesting

theorem foldl_observe_of_seen (healthy : Backend → Bool) (now : ℤ) {seen : List Backend}
    {st : SlowStartState} (hst : ∀ b ∈ seen, st.wasHealthy b = some true)
    (hseen : ∀ b ∈ seen, healthy b) (l : List Backend) (hl : ∀ b ∈ l, healthy b → b ∈ seen) :
    (∀ b ∈ seen, (l.foldl (SlowStart.observe healthy now) st).wasHealthy b = some true) ∧
      (l.foldl (SlowStart.observe healthy now) st).healthySince = st.healthySince := by
  induction l generalizing st with
  | nil => exact ⟨hst, rfl⟩
  | cons a l ih =>
    have hsince : (SlowStart.observe healthy now st a).healthySince = st.healthySince := by
      apply if_neg
      rintro ⟨ha, hnew⟩
      exact hnew (hst a (hl a (List.mem_cons_self ..) ha))
    have hst' : ∀ b ∈ seen, (SlowStart.observe healthy now st a).wasHealthy b = some true := by
      intro b hb
      change Function.update st.wasHealthy a (some (healthy a)) b = some true
      by_cases hba : b = a
      · rw [← hba, Function.update_self, hseen b hb]
      · rw [Function.update_of_ne hba, hst b hb]
    rw [List.foldl_cons, ← hsince]
    exact ih hst' fun b hb => hl b (List.mem_cons_of_mem a hb)

/-- The clock has moved on and the slow starts have noted nothing new. -/
structure Later (w w' : World) : Prop where
  backends : w'.backends = w.backends
  healthy : w'.healthy = w.healthy
  stats : w'.statsAt = w.statsAt
  clock : ∃ k, w'.clock = fun i => w.clock (i + k)
  slow : ∀ addr, (∀ b ∈ w.getHealthy, (w.slow addr).wasHealthy b = some true) →
    (∀ b ∈ w.getHealthy, (w'.slow addr).wasHealthy b = some true) ∧
      (w'.slow addr).healthySince = (w.slow addr).healthySince

namespace Later
variable {w w' w'' : World}

theorem getHealthy (h : Later w w') : w'.getHealthy = w.getHealthy := by
  rw [World.getHealthy, World.getHealthy, h.backends, h.healthy]

theorem refl (w : World) : Later w w := ⟨rfl, rfl, rfl, ⟨0, rfl⟩, fun _ h => ⟨h, rfl⟩⟩

theorem trans (h : Later w w') (h' : Later w' w'') : Later w w'' where
  backends := h'.backends.trans h.backends
  healthy := h'.healthy.trans h.healthy
  stats := h'.stats.trans h.stats
  clock := by
    obtain ⟨k, hk⟩ := h.clock
    obtain ⟨k', hk'⟩ := h'.clock
    refine ⟨k' + k, ?_⟩
    funext i
    simp only [hk', hk, Nat.add_assoc]
  slow addr hall := by
    obtain ⟨hall', hsince⟩ := h.slow addr hall
    rw [← h.getHealthy] at hall'
    obtain ⟨hall'', hsince'⟩ := h'.slow addr hall'
    rw [h.getHealthy] at hall''
    exact ⟨hall'', hsince'.trans hsince⟩

theorem now (w : World) : Later w w.now.2 where
  backends := rfl
  healthy := rfl
  stats := by
    funext n
    cases n <;> rfl
  clock := ⟨1, rfl⟩
  slow _ h := ⟨h, rfl⟩

theorem observeNow (addr : ℕ) (w : World) : Later w (SlowStart.observeNow addr w) where
  backends := rfl
  healthy := rfl
  stats := by
    funext n
    cases n <;> rfl
  clock := ⟨1, rfl⟩
  slow other hall := by
    by_cases ho : other = addr
    · subst ho
      have hslow : (SlowStart.observeNow other w).slow other =
          w.backends.foldl (SlowStart.observe w.healthy w.now.1) (w.slow other) :=
        Function.update_self ..
      rw [hslow]
      apply foldl_observe_of_seen w.healthy w.now.1 hall
      · intro b hb
        exact (List.mem_filter.mp hb).2
      · intro b hb hh
        exact List.mem_filter.mpr ⟨hb, hh⟩
    · have hslow : (SlowStart.observeNow addr w).slow other = w.slow other :=
        Function.update_of_ne ho ..
      rw [hslow]
      exact ⟨hall, rfl⟩

end Later

theorem Nesting.Quiet.later {n : Nesting} {w w' : World} (h : n.Quiet w) (hl : Later w w') :
    n.Quiet w' := by
  obtain ⟨k, hclock⟩ := hl.clock
  induction n with
  | base alg => trivial
  | priorityTiers inner ih =>
    unfold Nesting.Quiet at h ⊢
    rw [hl.getHealthy]
    exact ⟨h.1, ih h.2⟩
  | zoneAware zone prefer inner ih =>
    unfold Nesting.Quiet at h ⊢
    rw [hl.getHealthy]
    exact ⟨h.1, ih h.2⟩
  | slowStart addr window inner ih =>
    refine ⟨fun hwindow => ?_, ih h.2⟩
    obtain ⟨hall, helapsed⟩ := h.1 hwindow
    obtain ⟨hall', hsince⟩ := hl.slow addr hall
    rw [hl.getHealthy, hsince, hclock]
    exact ⟨hall', fun b since hb i => helapsed b since hb (i + k)⟩
  | outlierDetection addr od inner ih =>
    refine ⟨fun p hp i => ?_, ih h.2⟩
    rw [hl.stats] at hp
    rw [hclock]
    exact h.1 p hp (i + k)

theorem reinstateExpired_of_none {od : OutlierConfig} {now : ℤ} {w : World}
    (h : ∀ p ∈ w.stats, OutlierDetection.expired od now p.2 = false) :
    OutlierDetection.reinstateExpired od now w = w := by
  have hhealthy (l : List (Backend × OutlierStat))
      (hl : ∀ p ∈ l, OutlierDetection.expired od now p.2 = false)
      (healthy : Backend → Bool) : l.foldl (fun healthy p => if OutlierDetection.expired od now p.2
        then Function.update healthy p.1 true else healthy) healthy = healthy := by
    induction l with
    | nil => rfl
    | cons p l ih =>
      rw [List.foldl_cons, hl p (List.mem_cons_self ..)]
      exact ih fun q hq => hl q (List.mem_cons_of_mem p hq)
  have hstats : (w.stats.map fun p => if OutlierDetection.expired od now p.2
      then (p.1, { p.2 with ejected := false, success := 0, failure := 0 }) else p) = w.stats := by
    conv_rhs => rw [← List.map_id w.stats]
    apply List.map_congr_left
    intro p hp
    rw [h p hp]
    rfl
  unfold OutlierDetection.reinstateExpired
  rw [hhealthy w.stats h, hstats]

theorem reinstateNow_of_none {addr : ℕ} {od : OutlierConfig} {w : World}
    (h : ∀ p ∈ w.statsAt addr, OutlierDetection.expired od (w.clock 0) p.2 = false) :
    OutlierDetection.reinstateNow addr od w = w.now.2 := by
  cases addr with
  | zero => exact reinstateExpired_of_none h
  | succ m =>
    have hre := reinstateExpired_of_none (w := { w.now.2 with stats := w.nested m }) h
    unfold OutlierDetection.reinstateNow World.atStats
    change (let w' :=
        OutlierDetection.reinstateExpired od (w.clock 0) { w.now.2 with stats := w.nested m }
      { w' with
        stats := w.stats
        nested := Function.update w.nested m w'.stats }) = _
    rw [hre]
    simp [World.now]

namespace Nesting

theorem Quiet.settled {n : Nesting} {w : World} (h : n.Quiet w) :
    Later w (n.settled w) ∧ n.settled w = w.aside (n.settled w).slow (n.settled w).clock := by
  induction n generalizing w with
  | base alg => exact ⟨Later.refl w, rfl⟩
  | priorityTiers inner ih => exact ih h.2
  | zoneAware zone prefer inner ih => exact ih h.2
  | slowStart addr window inner ih =>
    have hl := Later.observeNow addr w
    obtain ⟨hlater, haside⟩ := ih (h.2.later hl)
    exact ⟨hl.trans hlater, haside⟩
  | outlierDetection addr od inner ih =>
    have hl := Later.now w
    have hre : OutlierDetection.reinstateNow addr od w = w.now.2 :=
      reinstateNow_of_none fun p hp => h.1 p hp 0
    have hsettled : (outlierDetection addr od inner).settled w = inner.settled w.now.2 :=
      congrArg inner.settled hre
    obtain ⟨hlater, haside⟩ := ih (h.2.later hl)
    rw [hsettled]
    exact ⟨hl.trans hlater, haside⟩

end Nesting

theorem PriorityTiers.eligibleFrom_of_same {pool : List Backend}
    (h : ∀ a ∈ pool, ∀ b ∈ pool, a.tier = b.tier) : PriorityTiers.eligibleFrom pool = pool := by
  cases pool with
  | nil => rfl
  | cons first rest =>
    apply List.filter_eq_self.mpr
    intro b hb
    have hmem := PriorityTiers.mem_eligibleFrom.mpr ⟨hb, fun b' hb' => (h b hb b' hb').le⟩
    exact (List.mem_filter.mp hmem).2

theorem ZoneAware.eligibleFrom_of_same {zone : String} {prefer : Bool} {pool : List Backend}
    (h : prefer = false ∨ zone = "" ∨ (∀ b ∈ pool, b.zone = zone) ∨ ∀ b ∈ pool, b.zone ≠ zone) :
    ZoneAware.eligibleFrom zone prefer pool = pool := by
  unfold ZoneAware.eligibleFrom
  rcases h with h | h | h | h
  · simp [h]
  · simp [h]
  · have hall : (pool.filter fun b => b.zone == zone) = pool :=
      List.filter_eq_self.mpr fun b hb => by simpa using h b hb
    simp [hall]
  · have hnone : (pool.filter fun b => b.zone == zone) = [] :=
      List.filter_eq_nil_iff.mpr fun b hb => by simpa using h b hb
    simp [hnone]

theorem factor_of_elapsed {window now : ℤ} {st : SlowStartState} {b : Backend}
    (h : 0 < window → ∀ since, st.healthySince b = some since → window ≤ Time.sub now since) :
    SlowStart.factor window st b now = 1 := by
  unfold SlowStart.factor
  by_cases hwindow : window ≤ 0
  · rw [if_pos hwindow]
  · rw [if_neg hwindow]
    cases hsince : st.healthySince b with
    | none => rfl
    | some since => exact if_pos (h (not_le.mp hwindow) since hsince)

namespace Nesting

theorem Quiet.next {n : Nesting} {w : World} (h : n.Quiet w) (hne : w.getHealthy ≠ []) :
    n.balancer.next w = n.algorithm.next (n.settled w) := by
  induction n generalizing w with
  | base alg => rfl
  | priorityTiers inner ih =>
    change selectFrom inner.balancer (PriorityTiers.eligibleFrom w.getHealthy) w = _
    rw [PriorityTiers.eligibleFrom_of_same h.1, selectFrom_getHealthy _ hne]
    exact ih h.2 hne
  | zoneAware zone prefer inner ih =>
    change selectFrom inner.balancer (ZoneAware.eligibleFrom zone prefer w.getHealthy) w = _
    rw [ZoneAware.eligibleFrom_of_same h.1, selectFrom_getHealthy _ hne]
    exact ih h.2 hne
  | slowStart addr window inner ih =>
    have hq := h.2.later (Later.observeNow addr w)
    have hinner := ih hq hne
    have hslow :=
      frame_slow.algorithm_next inner.algorithm (inner.settled (SlowStart.observeNow addr w))
    rw [← hinner] at hslow
    change SlowStart.rampedSelect addr window w.now.1 inner.balancer.next (7 + 1) none
      (SlowStart.observeNow addr w) = _
    rw [rampedSelect_of_ramped]
    · exact hinner
    · intro b hb
      rw [hslow, factor_of_elapsed]
      intro hwindow since hsince
      obtain ⟨hall, helapsed⟩ := h.1 hwindow
      have hsame := (h.settled.1.slow addr hall).2
      exact helapsed b since (hsame ▸ hsince) 0
  | outlierDetection addr od inner ih =>
    have hre : OutlierDetection.reinstateNow addr od w = w.now.2 :=
      reinstateNow_of_none fun p hp => h.1 p hp 0
    change inner.balancer.next (OutlierDetection.reinstateNow addr od w) =
      inner.algorithm.next (inner.settled (OutlierDetection.reinstateNow addr od w))
    rw [hre]
    exact ih (h.2.later (Later.now w)) hne

theorem Quiet.select
    {n : Nesting} {w : World} (h : n.Quiet w) (hne : w.getHealthy ≠ []) (key : String) :
    n.balancer.select key w = n.plain.select key (n.settled w) := by
  induction n generalizing w with
  | base alg => rfl
  | priorityTiers inner ih =>
    change keyedSelectFrom inner.balancer (PriorityTiers.eligibleFrom w.getHealthy) key w = _
    rw [PriorityTiers.eligibleFrom_of_same h.1, keyedSelectFrom_getHealthy _ _ hne]
    exact ih h.2 hne
  | zoneAware zone prefer inner ih =>
    change keyedSelectFrom inner.balancer (ZoneAware.eligibleFrom zone prefer w.getHealthy) key w = _
    rw [ZoneAware.eligibleFrom_of_same h.1, keyedSelectFrom_getHealthy _ _ hne]
    exact ih h.2 hne
  | slowStart addr window inner ih =>
    have hne' : (SlowStart.observeNow addr w).getHealthy ≠ [] := hne
    change keyedSelectFrom inner.balancer (SlowStart.observeNow addr w).getHealthy key
      (SlowStart.observeNow addr w) = _
    rw [keyedSelectFrom_getHealthy _ _ hne']
    exact ih (h.2.later (Later.observeNow addr w)) hne'
  | outlierDetection addr od inner ih =>
    have hre : OutlierDetection.reinstateNow addr od w = w.now.2 :=
      reinstateNow_of_none fun p hp => h.1 p hp 0
    have hne' : w.now.2.getHealthy ≠ [] := hne
    change keyedSelectFrom inner.balancer (OutlierDetection.reinstateNow addr od w).getHealthy key
      (OutlierDetection.reinstateNow addr od w) =
        inner.plain.select key (inner.settled (OutlierDetection.reinstateNow addr od w))
    rw [hre, keyedSelectFrom_getHealthy _ _ hne']
    exact ih (h.2.later (Later.now w)) hne'

end Nesting

/-- A call of one of the two methods, or the end of a connection. -/
inductive BalancerUse where
  | next
  | nextForKey (key : String)
  | done (b : Backend)

namespace Series

def use (B : Balancer) (s : Series) : BalancerUse → Series
  | .next => s.step B.next .next
  | .nextForKey key => s.step (B.select key) .next
  | .done b => s.step B.next (.done b)

def uses (B : Balancer) (s : Series) (us : List BalancerUse) : Series := us.foldl (use B) s

end Series

theorem Later.of_eq {w w' : World} (hb : w'.backends = w.backends) (hh : w'.healthy = w.healthy)
    (hst : w'.stats = w.stats) (hn : w'.nested = w.nested) (hsl : w'.slow = w.slow)
    (hc : w'.clock = w.clock) : Later w w' where
  backends := hb
  healthy := hh
  stats := by
    funext n
    cases n with
    | zero => exact hst
    | succ m => exact congrFun hn m
  clock := ⟨0, hc⟩
  slow addr h := by
    rw [hsl]
    exact ⟨h, rfl⟩

theorem frame_later : Frame Later where
  refl := Later.refl
  trans _ _ _ := Later.trans
  incrConn _ _ := .of_eq rfl rfl rfl rfl rfl rfl
  decrConn _ _ := .of_eq rfl rfl rfl rfl rfl rfl
  draw _ := .of_eq rfl rfl rfl rfl rfl rfl
  current _ _ := .of_eq rfl rfl rfl rfl rfl rfl
  currentWeight _ _ _ := .of_eq rfl rfl rfl rfl rfl rfl
  ring _ _ := .of_eq rfl rfl rfl rfl rfl rfl

theorem plain_later (n : Nesting) : Framed Later n.plain :=
  (Nesting.base n.algorithm).framed frame_later trivial

/-- A series through the nesting beside the same series of calls to the base. -/
structure Beside (n : Nesting) (s t : Series) : Prop where
  picks : s.picks = t.picks
  world : ∃ slow clock, s.world = t.world.aside slow clock
  quiet : n.Quiet s.world
  nonempty : s.world.getHealthy ≠ []

namespace Beside
variable {n : Nesting} {s t : Series}

theorem call {sel direct : Selection} (h : Beside n s t)
    (heq : sel s.world = direct (n.settled s.world)) (hobl : Oblivious direct)
    (hlater : ∀ w, Later w (direct w).2) :
    Beside n (s.step sel .next) (t.step direct .next) := by
  obtain ⟨hl, haside⟩ := h.quiet.settled
  obtain ⟨slow, clock, hw⟩ := h.world
  have hsel : sel s.world =
      asideResult (n.settled s.world).slow (n.settled s.world).clock (direct t.world) := by
    rw [heq, haside, ← hobl t.world]
    congr 1
    rw [hw]
    rfl
  have hlast : Later s.world (sel s.world).2 := by
    rw [heq]
    exact hl.trans (hlater _)
  constructor
  · change s.picks ++ [(sel s.world).1] = t.picks ++ [(direct t.world).1]
    rw [h.picks, hsel]
    rfl
  · refine ⟨(n.settled s.world).slow, (n.settled s.world).clock, ?_⟩
    exact congrArg Prod.snd hsel
  · exact h.quiet.later hlast
  · change (sel s.world).2.getHealthy ≠ []
    rw [hlast.getHealthy]
    exact h.nonempty

theorem use (h : Beside n s t) (u : BalancerUse) :
    Beside n (s.use n.balancer u) (t.use n.plain u) := by
  cases u with
  | next =>
    exact h.call (h.quiet.next h.nonempty) (Oblivious.next _) (plain_later n).next
  | nextForKey key =>
    exact h.call (h.quiet.select h.nonempty key) (Oblivious.select n key) ((plain_later n).select key)
  | done b =>
    obtain ⟨slow, clock, hw⟩ := h.world
    have hl : Later s.world (s.world.decrConn b) := frame_later.decrConn _ _
    constructor
    · exact h.picks
    · refine ⟨slow, clock, ?_⟩
      change s.world.decrConn b = (t.world.decrConn b).aside slow clock
      rw [hw]
      rfl
    · exact h.quiet.later hl
    · exact h.nonempty

theorem uses (h : Beside n s t) (us : List BalancerUse) :
    Beside n (s.uses n.balancer us) (t.uses n.plain us) := by
  induction us generalizing s t with
  | nil => exact h
  | cons u us ih => exact ih (h.use u)

end Beside

def Alike (w w' : World) : Prop :=
  ∃ slow clock draws, w' = { w with slow := slow, clock := clock, draws := draws }

namespace Alike
variable {w w' w'' : World}

theorem refl (w : World) : Alike w w := ⟨_, _, _, rfl⟩

theorem symm (h : Alike w w') : Alike w' w := by
  obtain ⟨slow, clock, draws, rfl⟩ := h
  exact ⟨w.slow, w.clock, w.draws, rfl⟩

theorem trans (h : Alike w w') (h' : Alike w' w'') : Alike w w'' := by
  obtain ⟨slow, clock, draws, rfl⟩ := h
  obtain ⟨slow', clock', draws', rfl⟩ := h'
  exact ⟨slow', clock', draws', rfl⟩

theorem decrConn (h : Alike w w') (b : Backend) : Alike (w.decrConn b) (w'.decrConn b) := by
  obtain ⟨slow, clock, draws, rfl⟩ := h
  exact ⟨slow, clock, draws, rfl⟩

end Alike

/-- The call ends with an error and leaves everything else. -/
structure Refused (w : World) (r : Picked × World) : Prop where
  error : ∃ msg, r.1 = .error msg
  alike : Alike w r.2
  later : Later w r.2

namespace Refused
variable {w w' : World} {r : Picked × World}

theorem of_eq {msg : String} (h : r = (.error msg, w)) : Refused w r := by
  rw [h]
  exact ⟨⟨msg, rfl⟩, Alike.refl w, Later.refl w⟩

theorem after (h : Refused w' r) (ha : Alike w w') (hl : Later w w') : Refused w r :=
  ⟨h.error, ha.trans h.alike, hl.trans h.later⟩

theorem algorithm_next (alg : Algorithm) (hnone : w.getHealthy = []) : Refused w (alg.next w) := by
  cases alg with
  | consistentHash c =>
    have hdrawn : Refused w.draw.2 ((Algorithm.consistentHash c).next w) := of_eq (if_pos hnone)
    exact hdrawn.after ⟨_, _, _, rfl⟩ (frame_later.draw w)
  | ipHash => exact of_eq rfl
  | _ => exact of_eq (if_pos hnone)

theorem algorithm_nextForKey (alg : Algorithm) (hnone : w.getHealthy = []) :
    ∀ f ∈ alg.nextForKey, ∀ key, Refused w (f key w) := by
  intro f hf key
  cases alg with
  | consistentHash c =>
    obtain rfl : consistentHashForKey c = f := Option.some.inj hf
    exact of_eq (if_pos hnone)
  | ipHash =>
    obtain rfl : nextForIP = f := Option.some.inj hf
    exact of_eq (if_pos hnone)
  | _ => cases hf

theorem plain_select (n : Nesting) (key : String) (hnone : w.getHealthy = []) :
    Refused w (n.plain.select key w) := by
  cases hf : n.algorithm.nextForKey with
  | none =>
    rw [Balancer.select_of_none (B := n.plain) hf]
    exact algorithm_next n.algorithm hnone
  | some f =>
    rw [Balancer.select_of_some (B := n.plain) hf]
    exact algorithm_nextForKey n.algorithm hnone f hf key

theorem rampedSelect {addr : ℕ} {window now : ℤ} {sel : Selection} (h : Refused w (sel w)) (k : ℕ)
    (last : Option Backend) :
    Refused w (SlowStart.rampedSelect addr window now sel (k + 1) last w) := by
  obtain ⟨msg, hmsg⟩ := h.error
  rw [rampedSelect_of_ramped]
  · exact h
  · intro b hb
    rw [hmsg] at hb
    cases hb

end Refused

theorem Nesting.Quiet.refused {n : Nesting} {w : World} (h : n.Quiet w) (hnone : w.getHealthy = [])
    (key : String) : Refused w (n.balancer.next w) ∧ Refused w (n.balancer.select key w) := by
  induction n generalizing w with
  | base alg => exact ⟨Refused.algorithm_next alg hnone, Refused.plain_select (base alg) key hnone⟩
  | priorityTiers inner ih =>
    have hel : PriorityTiers.eligibleFrom w.getHealthy = [] := by rw [hnone]; rfl
    exact ⟨.of_eq (if_pos hel), .of_eq (if_pos hel)⟩
  | zoneAware zone prefer inner ih =>
    have hel : ZoneAware.eligibleFrom zone prefer w.getHealthy = [] :=
      List.sublist_nil.mp (hnone ▸ ZoneAware.eligibleFrom_sublist zone prefer w.getHealthy)
    exact ⟨.of_eq (if_pos hel), .of_eq (if_pos hel)⟩
  | slowStart addr window inner ih =>
    have hl := Later.observeNow addr w
    have ha : Alike w (SlowStart.observeNow addr w) := ⟨_, _, _, rfl⟩
    have hkey : Refused
        (SlowStart.observeNow addr w) ((slowStart addr window inner).balancer.select key w) :=
      .of_eq (if_pos hnone)
    exact ⟨((ih (h.2.later hl) hnone).1.rampedSelect 7 none).after ha hl, hkey.after ha hl⟩
  | outlierDetection addr od inner ih =>
    have hl := Later.now w
    have ha : Alike w w.now.2 := ⟨_, _, _, rfl⟩
    have hre : OutlierDetection.reinstateNow addr od w = w.now.2 :=
      reinstateNow_of_none fun p hp => h.1 p hp 0
    have hnext : (outlierDetection addr od inner).balancer.next w = inner.balancer.next w.now.2 :=
      congrArg inner.balancer.next hre
    have hselect : (outlierDetection addr od inner).balancer.select key w =
        keyedSelectFrom inner.balancer w.now.2.getHealthy key w.now.2 :=
      congrArg (fun w : World => keyedSelectFrom inner.balancer w.getHealthy key w) hre
    have hkey : Refused w.now.2 (keyedSelectFrom inner.balancer w.now.2.getHealthy key w.now.2) :=
      .of_eq (if_pos hnone)
    rw [hnext, hselect]
    exact ⟨(ih (h.2.later hl) hnone).1.after ha hl, hkey.after ha hl⟩

/-- Two series in which every call was refused. -/
structure BothRefused (n : Nesting) (s t : Series) : Prop where
  length : s.picks.length = t.picks.length
  errors : ∀ p ∈ s.picks ++ t.picks, ∃ msg, p = .error msg
  alike : Alike t.world s.world
  quiet : n.Quiet s.world
  none : s.world.getHealthy = [] ∧ t.world.getHealthy = []

namespace BothRefused
variable {n : Nesting} {s t : Series}

theorem call {sel direct : Selection} (h : BothRefused n s t) (hs : Refused s.world (sel s.world))
    (ht : Refused t.world (direct t.world)) :
    BothRefused n (s.step sel .next) (t.step direct .next) where
  length := by simp [Series.step, h.length]
  errors p hp := by
    simp only [Series.step, List.mem_append, List.mem_singleton] at hp
    rcases hp with (hp | rfl) | hp | rfl
    · exact h.errors p (List.mem_append_left _ hp)
    · exact hs.error
    · exact h.errors p (List.mem_append_right _ hp)
    · exact ht.error
  alike := (ht.alike.symm.trans h.alike).trans hs.alike
  quiet := h.quiet.later hs.later
  none := ⟨hs.later.getHealthy.trans h.none.1, ht.later.getHealthy.trans h.none.2⟩

theorem use (h : BothRefused n s t) (u : BalancerUse) :
    BothRefused n (s.use n.balancer u) (t.use n.plain u) := by
  cases u with
  | next => exact h.call (h.quiet.refused h.none.1 "").1 (Refused.algorithm_next n.algorithm h.none.2)
  | nextForKey key =>
    exact h.call (h.quiet.refused h.none.1 key).2 (Refused.plain_select n key h.none.2)
  | done b =>
    exact ⟨h.length, h.errors, h.alike.decrConn b, h.quiet.later (frame_later.decrConn _ _), h.none⟩

theorem uses (h : BothRefused n s t) (us : List BalancerUse) :
    BothRefused n (s.uses n.balancer us) (t.uses n.plain us) := by
  induction us generalizing s t with
  | nil => exact h
  | cons u us ih => exact ih (h.use u)

end BothRefused

/-- With a healthy backend, a series of calls returns what the base algorithm returns and leaves
its state as the base would. Without one, both series get errors only. -/
theorem quiet_nesting_transparent (n : Nesting) (w : World) (h : n.Quiet w) (us : List BalancerUse) :
    let through := Series.uses n.balancer { world := w } us
    let direct := Series.uses n.plain { world := w } us
    (w.getHealthy ≠ [] → through.picks = direct.picks ∧
      ∃ slow clock, through.world = direct.world.aside slow clock) ∧
    (w.getHealthy = [] → through.picks.length = direct.picks.length ∧
      (∀ p ∈ through.picks ++ direct.picks, ∃ msg, p = .error msg) ∧
        Alike direct.world through.world) := by
  intro through direct
  constructor
  · intro hne
    have hstart : Beside n { world := w } { world := w } := ⟨rfl, ⟨w.slow, w.clock, rfl⟩, h, hne⟩
    exact ⟨(hstart.uses us).picks, (hstart.uses us).world⟩
  · intro hnone
    have hstart : BothRefused n { world := w } { world := w } :=
      ⟨rfl, fun _ hp => absurd hp List.not_mem_nil, Alike.refl w, h, hnone, hnone⟩
    exact ⟨(hstart.uses us).length, (hstart.uses us).errors, (hstart.uses us).alike⟩

def calmPair : World where
  backends := [{ addr := 0 }, { addr := 1 }]
  slow _ := { wasHealthy := fun _ => some true, healthySince := fun _ => some 0 }
  stats := [({ addr := 1 }, { success := 3 })]
  clock _ := 100

def fourfold : Nesting :=
  .outlierDetection 0
    { errorRateThreshold := 1 / 2, minRequests := 5, baseEjection := 10, maxEjectionPercent := 50 }
    (.slowStart 0 30 (.zoneAware "eu" true (.priorityTiers (.base .roundRobin))))

theorem fourfold_quiet : fourfold.Quiet calmPair := by
  refine ⟨?_, ?_, ?_, ?_, trivial⟩
  · intro p hp k
    rw [List.mem_singleton.mp hp]
    rfl
  · intro _
    refine ⟨fun b _ => rfl, fun b since hb k => ?_⟩
    rw [← Option.some.inj hb]
    change (30 : ℤ) ≤ Time.sub 100 0
    decide
  · right; right; right
    decide
  · decide

theorem quiet_nesting_transparent_fourfold :
    fourfold.Quiet calmPair ∧
    (Series.uses fourfold.balancer { world := calmPair } [.next, .nextForKey "k", .next]).picks =
      [.backend { addr := 0 }, .backend { addr := 1 }, .backend { addr := 0 }] :=
  ⟨fourfold_quiet, ((quiet_nesting_transparent fourfold calmPair fourfold_quiet
    [.next, .nextForKey "k", .next]).1 (by decide)).1.trans (by decide)⟩

/-- Without a healthy backend the filter answers at once, where the hash would draw a key first. -/
theorem tiers_spare_draw :
    let n : Nesting := .priorityTiers (.base (.consistentHash (newConsistentHash 100 (5 / 4))))
    let w : World := { draws := id }
    n.Quiet w ∧ (Series.uses n.balancer { world := w } [.next]).world.draws 0 = 0 ∧
      (Series.uses n.plain { world := w } [.next]).world.draws 0 = 1 := by
  refine ⟨⟨?_, trivial⟩, rfl, rfl⟩
  intro a ha
  cases ha

end ReverseProxyLb

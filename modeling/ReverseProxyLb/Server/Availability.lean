import ReverseProxyLb.Balancer.RingMembers
import ReverseProxyLb.Server.Setup

/-! Every base algorithm but one returns a backend as long as one is healthy, and every
selection by key does; a wrapper passes both on. -/
namespace ReverseProxyLb
open Lib World

/-- The fields that no selection touches. -/
structure Steady (w w' : World) : Prop where
  healthy : w'.healthy = w.healthy
  backends : w'.backends = w.backends
  weight : w'.weight = w.weight

variable {w w' w'' : World}

theorem Steady.trans (h : Steady w w') (h' : Steady w' w'') : Steady w w'' :=
  ⟨h'.healthy.trans h.healthy, h'.backends.trans h.backends, h'.weight.trans h.weight⟩

theorem Steady.getHealthy (h : Steady w w') : w'.getHealthy = w.getHealthy := by
  rw [World.getHealthy, World.getHealthy, h.healthy, h.backends]

/-- A backend is healthy, the members can be counted in 32 bits, and their weights sum to less
than `2 ^ 31`. -/
structure Ready (w : World) : Prop where
  healthy : w.getHealthy ≠ []
  few : w.backends.length < 2 ^ 32
  nonneg : ∀ b ∈ w.backends, 0 ≤ w.getWeight b
  light : (w.backends.map w.getWeight).sum < 2 ^ 31

theorem Ready.steady (h : Ready w) (hs : Steady w w') : Ready w' := by
  have hw : w'.getWeight = w.getWeight := by
    funext b
    rw [World.getWeight, World.getWeight, hs.weight]
  refine ⟨?_, ?_, ?_, ?_⟩
  · rw [hs.getHealthy]
    exact h.healthy
  · rw [hs.backends]
    exact h.few
  · rw [hs.backends, hw]
    exact h.nonneg
  · rw [hs.backends, hw]
    exact h.light

/-- The selection returns a backend and leaves the rest as it is. -/
structure Serves (w : World) (out : Picked × World) : Prop where
  returns : Returns out
  steady : Steady w out.2

def Available (s : Selection) : Prop := ∀ w, Ready w → Serves w (s w)

theorem Serves.after {out : Picked × World} (h : Serves w' out) (hs : Steady w w') : Serves w out :=
  ⟨h.returns, hs.trans h.steady⟩

theorem serves_reserve (b : Backend) : Serves w (reserve b w) := ⟨⟨b, rfl⟩, rfl, rfl, rfl⟩

theorem serves_reserveSelected {o : Option Backend} (h : ∃ b, o = some b) :
    Serves w (reserveSelected o w) := by
  obtain ⟨b, rfl⟩ := h
  exact serves_reserve b

theorem orElse_some {o d : Option Backend} (hd : ∃ b, d = some b) : ∃ b, (o <|> d) = some b := by
  cases o with
  | none => exact hd
  | some b => exact ⟨b, rfl⟩

theorem exists_head {l : List Backend} (h : l ≠ []) : ∃ b, l.head? = some b := by
  obtain ⟨b, _, hb⟩ := head_mem h
  exact ⟨b, hb⟩

theorem serves_pickIndex {l : List Backend} (i : UInt32) (hne : l ≠ []) (hlt : l.length < 2 ^ 32) :
    Serves w (pickIndex l i w) := by
  obtain ⟨b, -, hpick⟩ := pickIndex_eq_reserve i hne hlt
  rw [hpick]
  exact serves_reserve b

theorem Ready.getHealthy_length (h : Ready w) : w.getHealthy.length < 2 ^ 32 :=
  lt_of_le_of_lt (List.length_filter_le ..) h.few

theorem available_withHealthy {f : List Backend → Selection}
    (h : ∀ w, Ready w → Serves w (f w.getHealthy w)) : Available (withHealthy f) := by
  intro w hw
  unfold withHealthy
  rw [if_neg hw.healthy]
  exact h w hw

theorem roundRobin_available : Available roundRobin := by
  apply available_withHealthy
  intro w hw
  exact (serves_pickIndex _ hw.healthy hw.getHealthy_length).after ⟨rfl, rfl, rfl⟩

theorem leastConnections_available : Available leastConnections := by
  apply available_withHealthy
  intro w hw
  obtain ⟨q, _, hfold⟩ := leastRound_scan hw.healthy
  apply serves_reserveSelected
  rw [hfold]
  exact ⟨q.1, rfl⟩

theorem Ready.totalWeight (h : Ready w) :
    let total := (w.getHealthy.map fun b => if 0 < w.getWeight b then w.getWeight b else 0).sum
    0 ≤ total ∧ total < 2 ^ 31 := by
  intro total
  have hmap : (w.backends.map fun b => if 0 < w.getWeight b then w.getWeight b else 0) =
      w.backends.map w.getWeight := by
    apply List.map_congr_left
    intro b hb
    have := h.nonneg b hb
    split_ifs <;> omega
  have hsub : (w.getHealthy.map fun b => if 0 < w.getWeight b then w.getWeight b else 0).Sublist
      (w.backends.map fun b => if 0 < w.getWeight b then w.getWeight b else 0) :=
    List.filter_sublist.map _
  have hnonneg : ∀ x ∈ w.backends.map fun b => if 0 < w.getWeight b then w.getWeight b else 0,
      0 ≤ x := by
    intro x hx
    obtain ⟨b, _, rfl⟩ := List.mem_map.mp hx
    split_ifs <;> omega
  have hle := hsub.sum_le_sum hnonneg
  rw [hmap] at hle
  refine ⟨List.sum_nonneg fun x hx => hnonneg x (hsub.subset hx), ?_⟩
  exact lt_of_le_of_lt hle h.light

theorem weightedRoundRobin_available : Available weightedRoundRobin := by
  apply available_withHealthy
  intro w hw
  obtain ⟨hnonneg, hlt⟩ := hw.totalWeight
  dsimp only
  split_ifs with hzero hmod
  · exact serves_reserveSelected (exists_head hw.healthy)
  · have hnat := congrArg UInt32.toNat hmod
    rw [UInt32.toNat_ofNat_of_lt' (by rw [UInt32.size]; omega)] at hnat
    change _ = 0 at hnat
    omega
  · exact (serves_reserveSelected (orElse_some (exists_head hw.healthy))).after ⟨rfl, rfl, rfl⟩

theorem swrr_available : Available swrr := by
  apply available_withHealthy
  intro w hw
  dsimp only
  obtain ⟨best, hbest⟩ := orElse_some (o := (w.getHealthy.foldl (smoothRound w)
    { current := w.currentWeight }).best) (exists_head hw.healthy)
  rw [hbest]
  exact (serves_reserve best).after ⟨rfl, rfl, rfl⟩

theorem scanMin_available {β : Type} [LT β] [DecidableLT β] (score : World → Backend → β) :
    Available (withHealthy fun healthy w =>
      reserveSelected ((scanMin (score w) none healthy).map Prod.fst) w) := by
  apply available_withHealthy
  intro w hw
  obtain ⟨q, hq, _⟩ := scanMin_none (score w) hw.healthy
  apply serves_reserveSelected
  exact ⟨q.1, by rw [hq]; rfl⟩

theorem weightedRandom_available : Available weightedRandom := by
  apply available_withHealthy
  intro w hw
  exact (serves_reserveSelected (orElse_some
    ⟨_, List.getLast?_eq_some_getLast hw.healthy⟩)).after ⟨rfl, rfl, rfl⟩

theorem p2c_available : Available p2c := by
  apply available_withHealthy
  intro w hw
  have hpos : 0 < w.getHealthy.length := List.length_pos_of_ne_nil hw.healthy
  dsimp only
  by_cases hone : w.getHealthy.length = 1
  · rw [if_pos hone]
    exact serves_reserveSelected (exists_head hw.healthy)
  · rw [if_neg hone]
    have hi : (w.intn w.getHealthy.length).1 < w.getHealthy.length := Nat.mod_lt _ hpos
    have hj : ((w.intn w.getHealthy.length).2.intn (w.getHealthy.length - 1)).1 <
        w.getHealthy.length - 1 := Nat.mod_lt _ (by omega)
    split
    · exact (serves_reserve _).after ⟨rfl, rfl, rfl⟩
    · next hnone =>
      exact (hnone _ _ (List.getElem?_eq_getElem hi)
        (List.getElem?_eq_getElem (by split_ifs <;> omega))).elim

theorem currentRing_ne_nil (c : ConsistentHash) {healthy : List Backend} (hne : healthy ≠ [])
    (w : World) : (currentRing c healthy w).ring ≠ [] := by
  unfold currentRing
  dsimp only
  split_ifs with h
  · obtain ⟨b, hb⟩ := List.exists_mem_of_ne_nil _ hne
    have hpos : 0 < c.replicas.toNat := by have := c.replicas_pos; omega
    have hnode : (hashKey (b.url ++ "#" ++ toString 0), b) ∈ virtualNodes c healthy :=
      List.mem_flatMap.mpr ⟨b, hb, List.mem_map.mpr ⟨0, List.mem_range.mpr hpos, rfl⟩⟩
    intro hnil
    have hkey := placeNode_foldl_keys (virtualNodes c healthy) [] _ hnode
    have hmem : hashKey (b.url ++ "#" ++ toString 0) ∈
        (rebuildLocked c healthy (membershipSignature healthy)).ring := by
      simpa [rebuildLocked] using hkey
    rw [hnil] at hmem
    cases hmem
  · exact (not_or.mp h).2

theorem consistentHashForKey_available (c : ConsistentHash) (key : String) :
    Available (consistentHashForKey c key) := by
  rw [consistentHashForKey_eq]
  apply available_withHealthy
  intro w hw
  unfold lockedForKey
  dsimp only
  rw [if_neg (currentRing_ne_nil c hw.healthy w)]
  exact (serves_reserveSelected (orElse_some (exists_head hw.healthy))).after ⟨rfl, rfl, rfl⟩

theorem consistentHash_available (c : ConsistentHash) : Available (consistentHash c) := by
  intro w hw
  have hs : Steady w w.draw.2 := ⟨rfl, rfl, rfl⟩
  exact (consistentHashForKey_available c _ w.draw.2 (hw.steady hs)).after hs

theorem nextForIP_available (ip : String) : Available (nextForIP ip) := by
  apply available_withHealthy
  intro w hw
  exact serves_pickIndex _ hw.healthy hw.getHealthy_length

theorem Algorithm.next_available (alg : Algorithm) (h : alg ≠ .ipHash) : Available alg.next := by
  cases alg with
  | roundRobin => exact roundRobin_available
  | leastConnections => exact leastConnections_available
  | weightedRoundRobin => exact weightedRoundRobin_available
  | swrr => exact swrr_available
  | weightedLeastConn => exact scanMin_available _
  | weightedRandom => exact weightedRandom_available
  | p2c => exact p2c_available
  | consistentHash c => exact consistentHash_available c
  | ewma => exact scanMin_available _
  | ipHash => exact absurd rfl h

/-- `Next` and the selection from a part of the healthy backends. -/
structure NextAvailable (B : Balancer) : Prop where
  next : Available B.next
  pickFrom : ∀ sp ∈ B.subsetPicker, ∀ candidates w, Ready w → candidates ≠ [] →
    candidates.Sublist w.getHealthy → Serves w (sp.pickFrom candidates w)

/-- The same by key; a balancer without `NextForKey` is asked for `Next` instead. -/
structure KeyAvailable (B : Balancer) : Prop where
  nextForKey : ∀ f ∈ B.nextForKey, ∀ key, Available (f key)
  next : B.nextForKey = none → Available B.next
  pickFromKey : ∀ sp ∈ B.subsetPicker, ∀ candidates key w, Ready w → candidates ≠ [] →
    candidates.Sublist w.getHealthy → Serves w (sp.pickFromKey candidates key w)

variable {inner : Balancer} {candidates : List Backend}

theorem serves_statelessPick (h : candidates ≠ []) : Serves w (statelessPick candidates w) := by
  obtain ⟨best, rest, rfl⟩ := List.exists_cons_of_ne_nil h
  obtain ⟨q, hq, _⟩ := scanMin_some w.getActiveConns (best, w.getActiveConns best) rest
  apply serves_reserveSelected
  exact ⟨q.1, by rw [hq]; rfl⟩

theorem selectFrom_serves (hi : NextAvailable inner) (hw : Ready w) (hne : candidates ≠ [])
    (hs : candidates.Sublist w.getHealthy) : Serves w (selectFrom inner candidates w) := by
  unfold selectFrom
  rw [if_neg hne]
  split_ifs
  · exact hi.next w hw
  · split
    · next sp hsp => exact hi.pickFrom sp hsp candidates w hw hne hs
    · exact serves_statelessPick hne

theorem keyedSelectFrom_serves (hi : KeyAvailable inner) (hw : Ready w) (hne : candidates ≠ [])
    (hs : candidates.Sublist w.getHealthy) (key : String) :
    Serves w (keyedSelectFrom inner candidates key w) := by
  unfold keyedSelectFrom
  rw [if_neg hne]
  split_ifs
  · split
    · next f hf => exact hi.nextForKey f hf key w hw
    · next hf => exact hi.next hf w hw
  · split
    · next sp hsp => exact hi.pickFromKey sp hsp candidates key w hw hne hs
    · unfold hashPick
      rw [if_neg hne]
      exact serves_pickIndex _ hne (lt_of_le_of_lt hs.length_le hw.getHealthy_length)
    · exact serves_statelessPick hne

theorem next_narrowing {eligibleFrom : List Backend → List Backend} (hne : w.getHealthy ≠ [])
    (he : eligibleFrom w.getHealthy = w.getHealthy) :
    (narrowing inner eligibleFrom).next w = inner.next w := by
  simp [narrowing, selectFrom, he, hne, sameSet_self]

theorem filter_all {pool mid out : List Backend} (h : mid.Sublist pool) (h' : out.Sublist mid)
    (hall : out = pool) :
    mid = pool := h.antisymm (hall ▸ h')

section Narrowing
variable {eligibleFrom : List Backend → List Backend}
  (he : ∀ pool, (eligibleFrom pool).Sublist pool) (hn : ∀ pool, pool ≠ [] → eligibleFrom pool ≠ [])
include he hn

theorem nextAvailable_narrowing (hi : NextAvailable inner) :
    NextAvailable (narrowing inner eligibleFrom) where
  next w hw := selectFrom_serves hi hw (hn _ hw.healthy) (he _)
  pickFrom sp hsp candidates w hw hne hs := by
    cases hsp
    exact selectFrom_serves hi hw (hn _ hne) ((he _).trans hs)

theorem keyAvailable_narrowing (hi : KeyAvailable inner) :
    KeyAvailable (narrowing inner eligibleFrom) where
  nextForKey f hf key w hw := by
    cases hf
    exact keyedSelectFrom_serves hi hw (hn _ hw.healthy) (he _) key
  next h := nomatch h
  pickFromKey sp hsp candidates key w hw hne hs := by
    cases hsp
    exact keyedSelectFrom_serves hi hw (hn _ hne) ((he _).trans hs) key

end Narrowing

theorem rampedSelect_serves {sel : Selection} (addr : ℕ) (window now : ℤ)
    (hsel : ∀ w', Steady w w' → Serves w' (sel w')) (n : ℕ) (last : Option Backend)
    (hlast : n = 0 → last ≠ none) (hw : Steady w w') :
    Serves w' (SlowStart.rampedSelect addr window now sel n last w') := by
  induction n generalizing last w' with
  | zero =>
    obtain ⟨b, rfl⟩ := Option.ne_none_iff_exists'.mp (hlast rfl)
    exact serves_reserve b
  | succ n ih =>
    obtain ⟨⟨b, hb⟩, hs⟩ := hsel w' hw
    have hout : sel w' = (.backend b, (sel w').2) := Prod.ext hb rfl
    unfold SlowStart.rampedSelect
    rw [hout]
    dsimp only
    split_ifs
    · exact ⟨⟨b, rfl⟩, hs⟩
    · exact ⟨⟨b, rfl⟩, hs.trans ⟨rfl, rfl, rfl⟩⟩
    · have hs' : Steady w' ((sel w').2.float64.2.decrConn b) := hs.trans ⟨rfl, rfl, rfl⟩
      exact (ih (some b) (by simp) (hw.trans hs')).after hs'

theorem observing_serves {f : ℤ → Selection} (addr : ℕ)
    (h : ∀ now w', Steady w w' → Serves w' (f now w')) : Serves w (SlowStart.observing addr f w) := by
  have hs : Steady w (SlowStart.observeTransitions addr w.now.1 w.now.2) := ⟨rfl, rfl, rfl⟩
  exact (h _ _ hs).after hs

theorem nextAvailable_slowStart (hi : NextAvailable inner) (addr : ℕ) (window : ℤ) :
    NextAvailable (newSlowStart addr inner window) where
  next w hw := by
    show Serves w (SlowStart.observing addr (fun now =>
      SlowStart.rampedSelect addr window now inner.next SlowStart.attempts none) w)
    refine observing_serves addr fun now w₁ hs₁ => ?_
    refine rampedSelect_serves addr window now (fun w' hs => ?_) _ _ (by simp [SlowStart.attempts])
      ⟨rfl, rfl, rfl⟩
    exact hi.next w' (hw.steady (hs₁.trans hs))
  pickFrom sp hsp candidates w hw hne hs := by
    cases hsp
    show Serves w (SlowStart.observing addr (fun now =>
      SlowStart.rampedSelect addr window now (selectFrom inner candidates) SlowStart.attempts none) w)
    refine observing_serves addr fun now w₁ hs₁ => ?_
    refine rampedSelect_serves addr window now (fun w' hs' => ?_) _ _ (by simp [SlowStart.attempts])
      ⟨rfl, rfl, rfl⟩
    have hsteady := hs₁.trans hs'
    exact selectFrom_serves hi (hw.steady hsteady) hne (by rwa [hsteady.getHealthy])

theorem keyAvailable_slowStart (hi : KeyAvailable inner) (addr : ℕ) (window : ℤ) :
    KeyAvailable (newSlowStart addr inner window) where
  nextForKey f hf key w hw := by
    cases hf
    apply observing_serves
    intro _ w' hs
    exact keyedSelectFrom_serves hi (hw.steady hs) (hw.steady hs).healthy (List.Sublist.refl _) key
  next h := nomatch h
  pickFromKey sp hsp candidates key w hw hne hs := by
    cases hsp
    show Serves w (SlowStart.observing addr (fun _ => keyedSelectFrom inner candidates key) w)
    apply observing_serves
    intro _ w' hs'
    exact keyedSelectFrom_serves hi (hw.steady hs') hne (by rwa [hs'.getHealthy]) key

namespace Stack

def algorithm : Stack → Algorithm
  | base alg => alg
  | priorityTiers inner => inner.algorithm
  | zoneAware _ _ inner => inner.algorithm
  | slowStart _ _ inner => inner.algorithm

theorem nextAvailable (st : Stack) (h : st.algorithm ≠ .ipHash) : NextAvailable st.balancer := by
  induction st with
  | base alg => exact ⟨alg.next_available h, fun _ hsp => nomatch hsp⟩
  | priorityTiers inner ih =>
    exact nextAvailable_narrowing PriorityTiers.eligibleFrom_sublist
      (fun _ => PriorityTiers.eligibleFrom_ne_nil) (ih h)
  | zoneAware zone prefer inner ih =>
    exact nextAvailable_narrowing (ZoneAware.eligibleFrom_sublist zone prefer)
      (fun _ => ZoneAware.eligibleFrom_ne_nil) (ih h)
  | slowStart addr window inner ih => exact nextAvailable_slowStart (ih h) addr window

theorem next_needs_key (st : Stack) (halg : st.algorithm = .ipHash) (hne : w.getHealthy ≠ [])
    (hall : st.eligibleFrom w.getHealthy = w.getHealthy) :
    (st.balancer.next w).1 = .error "IPHash requires client IP, use NextForIP instead" := by
  induction st generalizing w with
  | base alg =>
    subst halg
    rfl
  | priorityTiers inner ih =>
    have he := filter_all (PriorityTiers.eligibleFrom_sublist _) (inner.eligibleFrom_sublist _) hall
    have hnext : (priorityTiers inner).balancer.next w = inner.balancer.next w := next_narrowing hne he
    rw [hnext]
    exact ih halg hne (by rwa [eligibleFrom, he] at hall)
  | zoneAware zone prefer inner ih =>
    have he :=
      filter_all (ZoneAware.eligibleFrom_sublist zone prefer _) (inner.eligibleFrom_sublist _) hall
    have hnext : (zoneAware zone prefer inner).balancer.next w = inner.balancer.next w :=
      next_narrowing hne he
    rw [hnext]
    exact ih halg hne (by rwa [eligibleFrom, he] at hall)
  | slowStart addr window inner ih =>
    -- The first round of the rejection loop ends it.
    have hinner := ih (w := SlowStart.observeTransitions addr w.now.1 w.now.2) halg hne hall
    simp only [balancer, newSlowStart, SlowStart.observing, SlowStart.attempts, SlowStart.rampedSelect]
    split
    · rename_i hb
      rw [hb] at hinner
      cases hinner
    · rename_i hr
      rwa [hr] at hinner

theorem keyAvailable (st : Stack) : KeyAvailable st.balancer := by
  induction st with
  | base alg =>
    refine ⟨?_, ?_, fun _ hsp => nomatch hsp⟩
    · intro f hf key
      cases alg with
      | consistentHash c =>
        obtain rfl : consistentHashForKey c = f := Option.some.inj hf
        exact consistentHashForKey_available c key
      | ipHash =>
        obtain rfl : nextForIP = f := Option.some.inj hf
        exact nextForIP_available key
      | _ => cases hf
    · intro hnone
      apply alg.next_available
      rintro rfl
      cases hnone
  | priorityTiers inner ih =>
    exact keyAvailable_narrowing PriorityTiers.eligibleFrom_sublist
      (fun _ => PriorityTiers.eligibleFrom_ne_nil) ih
  | zoneAware zone prefer inner ih =>
    exact keyAvailable_narrowing (ZoneAware.eligibleFrom_sublist zone prefer)
      (fun _ => ZoneAware.eligibleFrom_ne_nil) ih
  | slowStart addr window inner ih => exact keyAvailable_slowStart ih addr window

end Stack

theorem OutlierDetection.reinstateExpired_mono (od : OutlierConfig) (now : ℤ) (b : Backend)
    (h : w.healthy b) : (reinstateExpired od now w).healthy b := by
  unfold reinstateExpired
  dsimp only
  generalize w.healthy = flags at h
  induction w.stats generalizing flags with
  | nil => exact h
  | cons p ps ih =>
    rw [List.foldl_cons]
    apply ih
    split_ifs
    · rw [Function.update_apply]
      split_ifs
      · rfl
      · exact h
    · exact h

theorem Ready.reinstateExpired (h : Ready w) (od : OutlierConfig) (now : ℤ) :
    Ready (OutlierDetection.reinstateExpired od now w) := by
  refine ⟨?_, h.few, h.nonneg, h.light⟩
  obtain ⟨b, hb⟩ := List.exists_mem_of_ne_nil _ h.healthy
  obtain ⟨hmem, hup⟩ := List.mem_filter.mp hb
  apply List.ne_nil_of_mem (a := b)
  exact List.mem_filter.mpr ⟨hmem, OutlierDetection.reinstateExpired_mono od now b hup⟩

namespace Deployment
variable (d : Deployment)

theorem next_returns (h : d.stack.algorithm ≠ .ipHash) (hw : Ready w) :
    Returns (d.balancer.next w) := by
  obtain ⟨outlier, st⟩ := d
  cases outlier with
  | none => exact ((st.nextAvailable h).next w hw).returns
  | some od =>
    have hnow : Ready w.now.2 := hw.steady ⟨rfl, rfl, rfl⟩
    have hready := hnow.reinstateExpired od w.now.1
    exact ((st.nextAvailable h).next _ hready).returns

theorem next_error (h : d.stack.algorithm = .ipHash) (hne : (d.reinstated w).getHealthy ≠ [])
    (hall : d.stack.eligibleFrom (d.reinstated w).getHealthy = (d.reinstated w).getHealthy) :
    (d.balancer.next w).1 = .error "IPHash requires client IP, use NextForIP instead" := by
  obtain ⟨outlier, st⟩ := d
  cases outlier with
  | none => exact st.next_needs_key h hne hall
  | some od =>
    exact st.next_needs_key (w := OutlierDetection.reinstateExpired od w.now.1 w.now.2) h hne hall

theorem nextForKey_returns (hw : Ready w) :
    ∀ f ∈ d.balancer.nextForKey, ∀ key, Returns (f key w) := by
  intro f hf key
  obtain ⟨outlier, st⟩ := d
  cases outlier with
  | none => exact (st.keyAvailable.nextForKey f hf key w hw).returns
  | some od =>
    cases hf
    have hnow : Ready w.now.2 := hw.steady ⟨rfl, rfl, rfl⟩
    have hready := hnow.reinstateExpired od w.now.1
    exact (keyedSelectFrom_serves st.keyAvailable hready hready.healthy
      (List.Sublist.refl _) key).returns

end Deployment

namespace Server

theorem setupStack_algorithm (cfg : Config) :
    (setupStack cfg).algorithm = baseAlgorithm cfg.loadBalancer := by
  unfold setupStack
  dsimp only
  split_ifs <;> rfl

theorem baseAlgorithm_ne_ipHash {lb : LoadBalancerConfig} (h : lb.algorithm ≠ "ip_hash") :
    baseAlgorithm lb ≠ .ipHash := by
  unfold baseAlgorithm newByAlgorithm
  split
  · rename_i alg heq
    split at heq <;> first | contradiction | (obtain rfl := Except.ok.inj heq; simp)
  · simp

/-- With a healthy backend, fewer than `2 ^ 32` members and weights that sum to less than `2 ^
31`, the balancer returns a backend by key, and without a key unless the algorithm is `ip_hash`
and the filters leave all healthy backends. -/
theorem selection_available (cfg : Config) (w : World) (hw : Ready w) :
    let d := (setupBalancer cfg).1
    (Returns (d.balancer.next w) ↔ cfg.loadBalancer.algorithm ≠ "ip_hash" ∨
      d.stack.eligibleFrom (d.reinstated w).getHealthy ≠ (d.reinstated w).getHealthy) ∧
    (¬ Returns (d.balancer.next w) →
      (d.balancer.next w).1 = .error "IPHash requires client IP, use NextForIP instead") ∧
    ∀ f ∈ d.balancer.nextForKey, ∀ key, Returns (f key w) := by
  intro d
  have hne : (d.reinstated w).getHealthy ≠ [] := by
    unfold Deployment.reinstated
    split
    · exact (Ready.reinstateExpired hw _ _).healthy
    · exact hw.healthy
  have hreturns : cfg.loadBalancer.algorithm ≠ "ip_hash" ∨
      d.stack.eligibleFrom (d.reinstated w).getHealthy ≠ (d.reinstated w).getHealthy →
      Returns (d.balancer.next w) := by
    rintro (halg | hpart)
    · apply d.next_returns _ hw
      change (setupStack cfg).algorithm ≠ .ipHash
      rw [setupStack_algorithm]
      exact baseAlgorithm_ne_ipHash halg
    · exact d.returns_next hne hpart
  have herror : ¬ (cfg.loadBalancer.algorithm ≠ "ip_hash" ∨
      d.stack.eligibleFrom (d.reinstated w).getHealthy ≠ (d.reinstated w).getHealthy) →
      (d.balancer.next w).1 = .error "IPHash requires client IP, use NextForIP instead" := by
    intro h
    rw [not_or, not_not, not_not] at h
    apply d.next_error _ hne h.2
    change (setupStack cfg).algorithm = .ipHash
    rw [setupStack_algorithm, baseAlgorithm, h.1]
    rfl
  refine ⟨⟨fun ⟨b, hb⟩ => ?_, hreturns⟩, fun h => herror (mt hreturns h), d.nextForKey_returns hw⟩
  by_contra hcond
  rw [herror hcond] at hb
  cases hb

/-- Backends in two tiers, selected by the client's address. -/
def tieredByAddress : Config where
  backends := [{ url := "http://a" }, { url := "http://b" }, { url := "http://c", tier := 1 }]
  loadBalancer := { algorithm := "ip_hash" }

theorem selection_available_tieredByAddress :
    let d := (setupBalancer tieredByAddress).1
    let w := (setupBalancer tieredByAddress).2
    Ready w ∧ d.stack.eligibleFrom (d.reinstated w).getHealthy ≠ (d.reinstated w).getHealthy ∧
    Returns (d.balancer.next w) ∧ ∀ f ∈ d.balancer.nextForKey, Returns (f "192.0.2.1" w) := by
  intro d w
  have hw : Ready w := ⟨by decide, by decide, by decide, by decide⟩
  have hpart : d.stack.eligibleFrom (d.reinstated w).getHealthy ≠ (d.reinstated w).getHealthy := by
    decide
  obtain ⟨hnext, -, hkey⟩ := selection_available tieredByAddress w hw
  exact ⟨hw, hpart, hnext.mpr (.inr hpart), fun f hf => hkey f hf "192.0.2.1"⟩

/-- One healthy backend, selected by the client's address. -/
def byAddress : Config where
  backends := [{ url := "http://a" }]
  loadBalancer := { algorithm := "ip_hash" }

theorem ready_byAddress : Ready (setupBalancer byAddress).2 :=
  ⟨by decide, by decide, by decide, by decide⟩

/-- Without a key, as for a raw TCP connection, the selection fails. -/
theorem next_fails_byAddress :
    (∃ alg, newByAlgorithm byAddress.loadBalancer.algorithm byAddress.loadBalancer.consistentHash =
      .ok alg) ∧
    Ready (setupBalancer byAddress).2 ∧
    ((setupBalancer byAddress).1.balancer.next (setupBalancer byAddress).2).1 =
      .error "IPHash requires client IP, use NextForIP instead" :=
  ⟨⟨.ipHash, rfl⟩, ready_byAddress, rfl⟩

end Server
end ReverseProxyLb

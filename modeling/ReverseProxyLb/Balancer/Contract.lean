import ReverseProxyLb.Balancer.Wrappers

/-! The contract of a selection from a set of eligible backends, and that every base
algorithm meets it for the healthy set. -/
namespace ReverseProxyLb
open Lib

namespace World

def RingUpToDate (w : World) : Prop :=
  w.ring.ringKey = membershipSignature w.getHealthy →
    ∀ point ∈ w.ring.ring, ∃ b ∈ w.getHealthy, w.ring.ringMap.lookup point = some b

structure Kept (w w' : World) : Prop where
  healthy : w'.healthy = w.healthy
  backends : w'.backends = w.backends
  ring : w.RingUpToDate → w'.RingUpToDate

variable {w w' w'' : World}

theorem Kept.refl (w : World) : Kept w w := ⟨rfl, rfl, id⟩

theorem Kept.trans (h : Kept w w') (h' : Kept w' w'') : Kept w w'' :=
  ⟨h'.healthy.trans h.healthy, h'.backends.trans h.backends, h'.ring ∘ h.ring⟩

theorem Kept.getHealthy (h : Kept w w') : w'.getHealthy = w.getHealthy := by
  rw [World.getHealthy, World.getHealthy, h.healthy, h.backends]

theorem Kept.of_eq (hh : w'.healthy = w.healthy) (hb : w'.backends = w.backends)
    (hr : w'.ring = w.ring) : Kept w w' := by
  refine ⟨hh, hb, fun h => ?_⟩
  rwa [RingUpToDate, World.getHealthy, hh, hb, hr]

theorem kept_draw : Kept w w.draw.2 := .of_eq rfl rfl rfl
theorem kept_intn (n : ℕ) : Kept w (w.intn n).2 := .of_eq rfl rfl rfl
theorem kept_float64 : Kept w w.float64.2 := .of_eq rfl rfl rfl
theorem kept_incrConn (b : Backend) : Kept w (w.incrConn b) := .of_eq rfl rfl rfl
theorem kept_decrConn (b : Backend) : Kept w (w.decrConn b) := .of_eq rfl rfl rfl

@[simp] theorem activeConns_incrConn_self (w : World) (b : Backend) :
    (w.incrConn b).activeConns b = w.activeConns b + 1 := by
  simp [incrConn]

theorem activeConns_incrConn_of_ne {w : World} {a b : Backend} (h : b ≠ a) :
    (w.incrConn a).activeConns b = w.activeConns b := by
  simp [incrConn, h]

end World

open World

/-- A returned backend is eligible and reserved once, nothing else is reserved, and
an error leaves every counter alone. -/
def Settles (E : List Backend) (conns : Backend → Int32) : Picked → (Backend → Int32) → Prop
  | .backend b, conns' => b ∈ E ∧ conns' = Function.update conns b (conns b + 1)
  | .nil, _ => False
  | .error _, conns' => conns' = conns
  | .panic, _ => True

structure Contract (E : List Backend) (w : World) (out : Picked × World) : Prop where
  kept : Kept w out.2
  settles : Settles E w.activeConns out.1 out.2.activeConns

variable {E : List Backend} {w w' : World}

theorem mem_of_settles {conns : Backend → Int32} {b : Backend} {out : Picked × World}
    (h : Settles E conns out.1 out.2.activeConns) (hb : out.1 = .backend b) : b ∈ E := by
  rw [hb] at h
  exact h.1

theorem contract_reserve {b : Backend} (hb : b ∈ E) : Contract E w (reserve b w) :=
  ⟨kept_incrConn b, hb, rfl⟩

theorem contract_reserveSelected {o : Option Backend} (h : ∃ b ∈ E, o = some b) :
    Contract E w (reserveSelected o w) := by
  obtain ⟨b, hb, rfl⟩ := h
  exact contract_reserve hb

theorem contract_error (msg : String) : Contract E w (.error msg, w) := ⟨.refl w, rfl⟩

theorem contract_panic : Contract E w (.panic, w) := ⟨.refl w, trivial⟩

theorem Contract.after {out : Picked × World} (h : Contract E w' out) (hk : Kept w w')
    (hc : w'.activeConns = w.activeConns) : Contract E w out :=
  ⟨hk.trans h.kept, hc ▸ h.settles⟩

theorem contract_pickIndex {l : List Backend} (i : UInt32) (hl : l ⊆ E) :
    Contract E w (pickIndex l i w) := by
  unfold pickIndex
  split_ifs
  · exact contract_panic
  · split
    · next b hb => exact contract_reserve (hl (List.mem_of_getElem? hb))
    · exact contract_panic

theorem pickIndex_eq_reserve {l : List Backend} (i : UInt32) (hne : l ≠ []) (hlt : l.length < 2 ^ 32) :
    ∃ b, l[i.toNat % l.length]? = some b ∧ pickIndex l i = reserve b := by
  have hlen : (UInt32.ofNat l.length).toNat = l.length := UInt32.toNat_ofNat_of_lt' hlt
  have hpos : 0 < l.length := List.length_pos_of_ne_nil hne
  have hnz : UInt32.ofNat l.length ≠ 0 := by
    intro h
    rw [h] at hlen
    simp at hlen
    omega
  have hidx : (i % UInt32.ofNat l.length).toNat = i.toNat % l.length := by
    rw [UInt32.toNat_mod, hlen]
  have hget := List.getElem?_eq_getElem (Nat.mod_lt i.toNat hpos)
  refine ⟨_, hget, ?_⟩
  funext w
  rw [pickIndex, if_neg hnz, hidx, hget]

def SelectsHealthy (s : Selection) : Prop := ∀ w, w.RingUpToDate → Contract w.getHealthy w (s w)

def SelectsAlways (s : Selection) : Prop := ∀ w, Contract w.getHealthy w (s w)

theorem selectsAlways_withHealthy {f : List Backend → Selection}
    (h : ∀ w, w.getHealthy ≠ [] → Contract w.getHealthy w (f w.getHealthy w)) :
    SelectsAlways (withHealthy f) := by
  intro w
  unfold withHealthy
  split_ifs with hn
  · exact contract_error _
  · exact h w hn

theorem selectsHealthy_withHealthy {f : List Backend → Selection}
    (h : ∀ w, w.RingUpToDate → w.getHealthy ≠ [] → Contract w.getHealthy w (f w.getHealthy w)) :
    SelectsHealthy (withHealthy f) := by
  intro w hw
  unfold withHealthy
  split_ifs with hn
  · exact contract_error _
  · exact h w hw hn

theorem head_mem {l : List Backend} (h : l ≠ []) : ∃ b ∈ l, l.head? = some b := by
  obtain ⟨b, rest, rfl⟩ := List.exists_cons_of_ne_nil h
  exact ⟨b, List.mem_cons_self .., rfl⟩

theorem orElse_mem {l : List Backend} {o d : Option Backend} (ho : ∀ b ∈ o, b ∈ l)
    (hd : ∃ b ∈ l, d = some b) : ∃ b ∈ l, (o <|> d) = some b := by
  cases o with
  | none => exact hd
  | some b => exact ⟨b, ho b rfl, rfl⟩

theorem roundRobin_selects : SelectsAlways roundRobin :=
  selectsAlways_withHealthy fun w _ =>
    (contract_pickIndex (w := { w with current := w.current + 1 }) _ (fun _ h => h)).after
      (.of_eq rfl rfl rfl) rfl

theorem leastRound_foldl (b : Backend) (m : ℤ) (l : List Backend) :
    ∃ q, scanMin w.getActiveConns (some (b, m)) l = some q ∧
      l.foldl (leastRound w) (some b, m) = (some q.1, q.2) := by
  induction l generalizing b m with
  | nil => exact ⟨_, rfl, rfl⟩
  | cons a l ih =>
    simp only [scanMin, List.foldl_cons, better, leastRound]
    split_ifs
    · exact ih a _
    · exact ih b m

theorem leastRound_scan {l : List Backend} (h : l ≠ []) :
    ∃ q, scanMin w.getActiveConns none l = some q ∧
      l.foldl (leastRound w) (none, 2 ^ 63 - 1) = (some q.1, q.2) := by
  obtain ⟨a, l, rfl⟩ := List.exists_cons_of_ne_nil h
  have hlt : w.getActiveConns a < 2 ^ 63 - 1 := by
    have := Int32.toInt_lt (w.activeConns a)
    rw [getActiveConns]
    omega
  have hfirst : leastRound w (none, 2 ^ 63 - 1) a = (some a, w.getActiveConns a) := if_pos hlt
  rw [List.foldl_cons, hfirst]
  exact leastRound_foldl a (w.getActiveConns a) l

theorem leastConnections_selects : SelectsAlways leastConnections := by
  refine selectsAlways_withHealthy fun w hn => contract_reserveSelected ?_
  obtain ⟨q, hq, hfold⟩ := leastRound_scan (w := w) hn
  obtain ⟨q', hq', hm⟩ := scanMin_none w.getActiveConns hn
  obtain rfl : q = q' := Option.some.inj (hq.symm.trans hq')
  rw [hfold]
  exact ⟨q.1, hm, rfl⟩

theorem weightedScan_mem {sequence current : UInt32} {l : List Backend} :
    ∀ b ∈ weightedScan w sequence current l, b ∈ l := by
  induction l generalizing current with
  | nil => simp [weightedScan]
  | cons a l ih =>
    intro b hb
    simp only [weightedScan] at hb
    split_ifs at hb
    · exact List.mem_cons_of_mem _ (ih b hb)
    · exact Option.some.inj hb ▸ List.mem_cons_self ..
    · exact List.mem_cons_of_mem _ (ih b hb)

theorem weightedRoundRobin_selects : SelectsAlways weightedRoundRobin := by
  refine selectsAlways_withHealthy fun w hn => ?_
  have hk : Kept w { w with current := w.current + 1 } := .of_eq rfl rfl rfl
  dsimp only
  split_ifs
  · exact contract_reserveSelected (head_mem hn)
  · exact contract_panic.after hk rfl
  · exact (contract_reserveSelected (orElse_mem weightedScan_mem (head_mem hn))).after hk rfl

theorem smoothRound_best {l : List Backend} {s : SmoothScan} :
    ∀ b ∈ (l.foldl (smoothRound w) s).best, b ∈ s.best ∨ b ∈ l := by
  induction l generalizing s with
  | nil => exact fun b hb => .inl hb
  | cons a l ih =>
    intro b hb
    rcases ih b hb with hb | hb
    · unfold smoothRound at hb
      dsimp only at hb
      split at hb
      · exact .inr (by simp_all)
      · next best hbest =>
        split_ifs at hb
        · exact .inr (by simp_all)
        · exact .inl (by simp_all)
    · exact .inr (List.mem_cons_of_mem _ hb)

theorem swrr_selects : SelectsAlways swrr := by
  refine selectsAlways_withHealthy fun w hn => ?_
  dsimp only
  have hbest : ∀ b ∈ (w.getHealthy.foldl (smoothRound w) { current := w.currentWeight }).best,
      b ∈ w.getHealthy := fun b hb => (smoothRound_best b hb).resolve_left (by simp)
  obtain ⟨best, hm, he⟩ := orElse_mem hbest (head_mem hn)
  rw [he]
  exact (contract_reserve hm).after (.of_eq rfl rfl rfl) rfl

theorem scanMin_selects {β : Type} [LT β] [DecidableLT β] (score : World → Backend → β) :
    SelectsAlways (withHealthy fun healthy w =>
      reserveSelected ((scanMin (score w) none healthy).map Prod.fst) w) := by
  refine selectsAlways_withHealthy fun w hn => contract_reserveSelected ?_
  obtain ⟨q, hq, hm⟩ := scanMin_none (score w) hn
  exact ⟨q.1, hm, by rw [hq]; rfl⟩

theorem weightedLeastConn_selects : SelectsAlways weightedLeastConn :=
  scanMin_selects fun w b => (w.getActiveConns b : ℚ) / (effectiveWeight w b : ℚ)

theorem ewma_selects : SelectsAlways ewma := scanMin_selects ewmaScore

theorem randomScan_mem {r : ℤ} {l : List Backend} : ∀ b ∈ randomScan w r l, b ∈ l := by
  induction l generalizing r with
  | nil => simp [randomScan]
  | cons a l ih =>
    intro b hb
    simp only [randomScan] at hb
    split_ifs at hb
    · exact Option.some.inj hb ▸ List.mem_cons_self ..
    · exact List.mem_cons_of_mem _ (ih b hb)

theorem weightedRandom_selects : SelectsAlways weightedRandom := by
  refine selectsAlways_withHealthy fun w hn => ?_
  have hlast : ∃ b ∈ w.getHealthy, w.getHealthy.getLast? = some b :=
    ⟨_, List.getLast_mem hn, List.getLast?_eq_some_getLast hn⟩
  exact (contract_reserveSelected (orElse_mem randomScan_mem hlast)).after
    (kept_intn (w.getHealthy.map (effectiveWeight w)).sum.toNat) rfl

theorem p2c_selects : SelectsAlways p2c := by
  refine selectsAlways_withHealthy fun w hn => ?_
  have hk := (kept_intn (w := w) w.getHealthy.length).trans (kept_intn (w.getHealthy.length - 1))
  dsimp only
  split_ifs with h₁
  · exact contract_reserveSelected (head_mem hn)
  all_goals
    split
    · next a b ha hb =>
      refine Contract.after (contract_reserve ?_) hk rfl
      split_ifs
      · exact List.mem_of_getElem? hb
      · exact List.mem_of_getElem? ha
    · exact contract_panic.after hk rfl

theorem nextForIP_selects (ip : String) : SelectsAlways (nextForIP ip) :=
  selectsAlways_withHealthy fun _ _ => contract_pickIndex _ fun _ h => h

theorem ipHash_selects : SelectsAlways ipHash := fun _ => contract_error _

theorem lookup_of_mem_keys {ringMap : List (UInt32 × Backend)} {point : UInt32}
    (h : point ∈ ringMap.map Prod.fst) :
    ∃ b, ringMap.lookup point = some b ∧ (point, b) ∈ ringMap := by
  induction ringMap with
  | nil => simp at h
  | cons p ringMap ih =>
    obtain ⟨k, b⟩ := p
    by_cases hk : point = k
    · subst hk
      exact ⟨b, by simp, List.mem_cons_self ..⟩
    · obtain ⟨b', hb', hm⟩ := ih ((List.mem_cons.mp h).resolve_left hk)
      refine ⟨b', ?_, List.mem_cons_of_mem _ hm⟩
      rwa [List.lookup_cons, beq_false_of_ne hk]

theorem placeNode_foldl_subset (nodes ringMap : List (UInt32 × Backend)) :
    ∀ p ∈ nodes.foldl placeNode ringMap, p ∈ ringMap ∨ p ∈ nodes := by
  induction nodes generalizing ringMap with
  | nil => exact fun p hp => .inl hp
  | cons q nodes ih =>
    intro p hp
    rcases ih _ p hp with hp | hp
    · unfold placeNode at hp
      split_ifs at hp
      · exact .inl hp
      · rcases List.mem_append.mp hp with hp | hp
        · exact .inl hp
        · exact .inr (List.mem_cons.mpr (.inl (List.mem_singleton.mp hp)))
    · exact .inr (List.mem_cons_of_mem _ hp)

theorem rebuildLocked_points (c : ConsistentHash) (healthy : List Backend) (sig : String) :
    ∀ point ∈ (rebuildLocked c healthy sig).ring,
      ∃ b ∈ healthy, (rebuildLocked c healthy sig).ringMap.lookup point = some b := by
  intro point hp
  have hkey : point ∈ (rebuildLocked c healthy sig).ringMap.map Prod.fst := by
    simpa [rebuildLocked] using hp
  obtain ⟨b, hb, hm⟩ := lookup_of_mem_keys hkey
  refine ⟨b, ?_, hb⟩
  have hnode := (placeNode_foldl_subset (virtualNodes c healthy) [] _ hm).resolve_left (by simp)
  obtain ⟨b', hb', hi⟩ := List.mem_flatMap.mp hnode
  obtain ⟨i, -, he⟩ := List.mem_map.mp hi
  exact (Prod.mk.inj he).2 ▸ hb'

theorem rotated_points {r : Ring} {healthy : List Backend}
    (hpoints : ∀ point ∈ r.ring, ∃ b ∈ healthy, r.ringMap.lookup point = some b) (start : ℕ) :
    ∀ o ∈ (r.ring.rotate start).map fun point => r.ringMap.lookup point, ∀ b ∈ o, b ∈ healthy := by
  intro o ho b hb
  obtain ⟨point, hpt, rfl⟩ := List.mem_map.mp ho
  obtain ⟨b', hb', he⟩ := hpoints point (List.mem_rotate.mp hpt)
  obtain rfl : b' = b := Option.some.inj (he.symm.trans hb)
  exact hb'

theorem currentRing_points (c : ConsistentHash) (hw : w.RingUpToDate) :
    ∀ point ∈ (currentRing c w.getHealthy w).ring,
      ∃ b ∈ w.getHealthy, (currentRing c w.getHealthy w).ringMap.lookup point = some b := by
  unfold currentRing
  dsimp only
  split_ifs with h
  · exact rebuildLocked_points c _ _
  · exact hw (not_not.mp (not_or.mp h).1).symm

theorem ringWalk_mem {healthy : List Backend} {capacity : ℤ} {fallback : Option Backend}
    {seen : List Backend} {points : List (Option Backend)}
    (hf : ∀ b ∈ fallback, b ∈ healthy) (hp : ∀ o ∈ points, ∀ b ∈ o, b ∈ healthy) :
    ∀ b ∈ ringWalk w healthy capacity fallback seen points, b ∈ healthy := by
  induction points generalizing fallback seen with
  | nil => exact hf
  | cons o points ih =>
    have hrest : ∀ o ∈ points, ∀ b ∈ o, b ∈ healthy := fun o ho => hp o (List.mem_cons_of_mem _ ho)
    cases o with
    | none => exact ih hf hrest
    | some a =>
      have ha : a ∈ healthy := hp _ (List.mem_cons_self ..) a rfl
      have hfa : ∀ b ∈ (fallback <|> some a), b ∈ healthy := by
        cases fallback with
        | none => exact fun b hb => Option.some.inj hb ▸ ha
        | some f => exact hf
      simp only [ringWalk]
      split_ifs
      · exact ih hfa hrest
      · exact fun b hb => Option.some.inj hb ▸ ha
      · exact ih hfa hrest

theorem consistentHashForKey_selects (c : ConsistentHash) (key : String) :
    SelectsHealthy (consistentHashForKey c key) := by
  refine selectsHealthy_withHealthy fun w hw hn => ?_
  have hpoints := currentRing_points c hw
  have hk : Kept w { w with ring := currentRing c w.getHealthy w } := ⟨rfl, rfl, fun _ _ => hpoints⟩
  dsimp only
  split_ifs
  · exact (contract_error _).after hk rfl
  all_goals
    refine Contract.after
      (contract_reserveSelected (orElse_mem (ringWalk_mem ?_ ?_) (head_mem hn))) hk rfl
    · simp
    · exact rotated_points hpoints _

theorem consistentHash_selects (c : ConsistentHash) : SelectsHealthy (consistentHash c) := fun w hw =>
  (consistentHashForKey_selects c _ w.draw.2 (kept_draw.ring hw)).after kept_draw rfl

theorem Algorithm.next_selects_always {alg : Algorithm} (h : alg.nextForKey = none) :
    SelectsAlways alg.next := by
  cases alg with
  | roundRobin => exact roundRobin_selects
  | leastConnections => exact leastConnections_selects
  | weightedRoundRobin => exact weightedRoundRobin_selects
  | swrr => exact swrr_selects
  | weightedLeastConn => exact weightedLeastConn_selects
  | weightedRandom => exact weightedRandom_selects
  | p2c => exact p2c_selects
  | ewma => exact ewma_selects
  | consistentHash c => cases h
  | ipHash => cases h

theorem Algorithm.next_selects (alg : Algorithm) : SelectsHealthy alg.next := by
  cases alg with
  | consistentHash c => exact consistentHash_selects c
  | ipHash => exact fun w _ => ipHash_selects w
  | _ => exact fun w _ => Algorithm.next_selects_always rfl w

theorem Algorithm.nextForKey_selects (alg : Algorithm) (key : String) :
    ∀ f ∈ alg.nextForKey, SelectsHealthy (f key) := by
  intro f hf
  cases alg with
  | consistentHash c =>
    obtain rfl : consistentHashForKey c = f := Option.some.inj hf
    exact consistentHashForKey_selects c key
  | ipHash =>
    obtain rfl : nextForIP = f := Option.some.inj hf
    exact fun w _ => nextForIP_selects key w
  | _ => cases hf

end ReverseProxyLb

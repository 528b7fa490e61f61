import ReverseProxyLb.Balancer.Series
import ReverseProxyLb.Lib.Windows

/-! `RoundRobin` and `WeightedRoundRobin` take one value of a `uint32` counter for each
call. Its remainder falls on a line of places: one for each backend, or as many as its
weight. -/
namespace ReverseProxyLb
open Lib

variable {sel : Selection} {w : World} {S : ℕ} {g : ℕ → ℕ}

def Rotates (sel : Selection) (w : World) (S : ℕ) (g : ℕ → ℕ) : Prop :=
  ∀ w', SameFleet w w' → ∃ b, w.getHealthy[g (w'.current.toNat % S)]? = some b ∧
    (sel w').1 = .backend b ∧ SameFleet w' (sel w').2 ∧ (sel w').2.current = w'.current + 1

theorem Rotates.served (h : Rotates sel w S g) (steps : List SeriesStep) (b : Backend) :
    (Series.run sel { world := w } steps).served b = (List.range (Series.calls steps)).countP fun j =>
      w.getHealthy[g ((w.current.toNat + j) % 2 ^ 32 % S)]? = some b := by
  suffices hrun : SameFleet w (Series.run sel { world := w } steps).world ∧
      (Series.run sel { world := w } steps).world.current.toNat =
        (w.current.toNat + Series.calls steps) % 2 ^ 32 ∧
      ∀ b, (Series.run sel { world := w } steps).served b =
        (List.range (Series.calls steps)).countP fun j =>
        w.getHealthy[g ((w.current.toNat + j) % 2 ^ 32 % S)]? = some b from hrun.2.2 b
  apply Series.run_rule fun k t => SameFleet w t.world ∧
    t.world.current.toNat = (w.current.toNat + k) % 2 ^ 32 ∧
    ∀ b, t.served b = (List.range k).countP fun j =>
      w.getHealthy[g ((w.current.toNat + j) % 2 ^ 32 % S)]? = some b
  · refine ⟨.refl w, ?_, fun b => rfl⟩
    rw [add_zero, Nat.mod_eq_of_lt w.current.toNat_lt]
  · rintro k t ⟨hsame, hcur, hserved⟩
    obtain ⟨a, ha, hpick, hkept, hnext⟩ := h t.world hsame
    rw [hcur] at ha
    refine ⟨hsame.trans hkept, ?_, ?_⟩
    · change (sel t.world).2.current.toNat = _
      rw [hnext, UInt32.toNat_add, hcur]
      simp [add_assoc]
    · intro b
      rw [Series.served_next_of hpick, hserved b, List.range_succ, List.countP_append,
        List.countP_singleton, ha]
      by_cases hab : b = a
      · simp [hab]
      · simp [hab, Ne.symm hab]
  · rintro k t b ⟨hsame, hcur, hserved⟩
    exact ⟨hsame.trans ⟨rfl, rfl, rfl⟩, hcur, hserved⟩

variable {steps : List SeriesStep}

theorem Rotates.served_window (h : Rotates sel w S g) (hl : w.getHealthy.Nodup)
    (hk : Series.calls steps = S) {i : ℕ} {b : Backend} (hi : w.getHealthy[i]? = some b) :
    (Series.run sel { world := w } steps).served b =
      (window g (2 ^ 32) S w.current.toNat).count i := by
  obtain ⟨hlt, -⟩ := List.getElem?_eq_some_iff.mp hi
  rw [h.served, hk, window, List.count_eq_countP, List.countP_map]
  apply List.countP_congr
  intro j _
  rw [← hi]
  simp only [Function.comp_apply, decide_eq_true_eq, beq_iff_eq]
  exact eq_comm.trans ((List.getElem?_inj hlt hl).trans eq_comm)

theorem Rotates.fair_iff (h : Rotates sel w S g) (hl : w.getHealthy.Nodup)
    (hk : Series.calls steps = S) (hg : Ordered g S) (hS : 0 < S) (hSN : S ≤ 2 ^ 32)
    (hrange : ∀ r < S, g r < w.getHealthy.length) :
    (∀ i b, w.getHealthy[i]? = some b →
      (Series.run sel { world := w } steps).served b = (places g 0 S).count i) ↔
      Undisturbed g (2 ^ 32) S w.current.toNat := by
  rw [← window_perm_iff hg hS hSN w.current.toNat_lt, List.perm_iff_count]
  constructor
  · intro hserved i
    by_cases hi : i < w.getHealthy.length
    · rw [← hserved i _ (List.getElem?_eq_getElem hi)]
      exact (h.served_window hl hk (List.getElem?_eq_getElem hi)).symm
    · have hwindow : i ∉ window g (2 ^ 32) S w.current.toNat := by
        intro hm
        obtain ⟨j, -, rfl⟩ := List.mem_map.mp hm
        exact hi (hrange _ (Nat.mod_lt _ hS))
      have hline : i ∉ places g 0 S := by
        intro hm
        obtain ⟨j, hj, rfl⟩ := List.mem_map.mp hm
        rw [List.mem_range'_1] at hj
        exact hi (hrange j (by omega))
      rw [List.count_eq_zero.mpr hwindow, List.count_eq_zero.mpr hline]
  · intro hcount i b hi
    rw [h.served_window hl hk hi, hcount i]

theorem roundRobin_rotates (hne : w.getHealthy ≠ []) (hlt : w.getHealthy.length < 2 ^ 32) :
    Rotates roundRobin w w.getHealthy.length id := by
  intro w' hsame
  obtain ⟨b, hb, hpick⟩ := pickIndex_eq_reserve w'.current hne hlt
  refine ⟨b, hb, ?_⟩
  unfold roundRobin withHealthy
  rw [hsame.getHealthy, if_neg hne]
  dsimp only
  rw [hpick]
  exact ⟨rfl, ⟨rfl, rfl, rfl⟩, rfl⟩

theorem roundRobin_sameFleet (w : World) : SameFleet w (roundRobin w).2 := by
  by_cases hne : w.getHealthy = []
  · rw [roundRobin, withHealthy, if_pos hne]
    exact .refl w
  · rw [roundRobin, withHealthy, if_neg hne]
    unfold pickIndex
    split_ifs
    · exact ⟨rfl, rfl, rfl⟩
    · split
      · exact ⟨rfl, rfl, rfl⟩
      · exact ⟨rfl, rfl, rfl⟩

theorem roundRobin_ne_last (hlen : 2 ^ 32 ≤ w.getHealthy.length) (hl : w.getHealthy.Nodup)
    {b : Backend} (hb : w.getHealthy[w.getHealthy.length - 1]? = some b) :
    (roundRobin w).1 ≠ .backend b := by
  have hne : w.getHealthy ≠ [] := by
    intro he
    rw [he] at hlen
    simp at hlen
  intro hpick
  unfold roundRobin withHealthy pickIndex at hpick
  rw [if_neg hne] at hpick
  dsimp only at hpick
  split_ifs at hpick with hz
  have hmod : (w.current % UInt32.ofNat w.getHealthy.length).toNat <
      (UInt32.ofNat w.getHealthy.length).toNat := by
    rw [UInt32.toNat_mod]
    apply Nat.mod_lt
    rw [Nat.pos_iff_ne_zero]
    intro h
    exact hz (UInt32.toNat_inj.mp h)
  have hlt := (UInt32.ofNat w.getHealthy.length).toNat_lt
  cases hget : w.getHealthy[(w.current % UInt32.ofNat w.getHealthy.length).toNat]? with
  | none =>
    rw [hget] at hpick
    cases hpick
  | some a =>
    rw [hget] at hpick
    obtain rfl : a = b := Picked.backend.inj hpick
    have := (List.getElem?_inj (by omega) hl).mp (hb.trans hget.symm)
    omega

theorem roundRobin_skips_last (hlen : 2 ^ 32 ≤ w.getHealthy.length) (hl : w.getHealthy.Nodup)
    {b : Backend} (hb : w.getHealthy[w.getHealthy.length - 1]? = some b) (steps : List SeriesStep) :
    (Series.run roundRobin { world := w } steps).served b = 0 := by
  suffices hrun : SameFleet w (Series.run roundRobin { world := w } steps).world ∧
      (Series.run roundRobin { world := w } steps).served b = 0 from hrun.2
  apply Series.run_rule fun _ t => SameFleet w t.world ∧ t.served b = 0
  · exact ⟨.refl w, rfl⟩
  · rintro k t ⟨hsame, hserved⟩
    have hhealthy := hsame.getHealthy
    have hother := roundRobin_ne_last (w := t.world) (by rwa [hhealthy]) (by rwa [hhealthy])
      (by rwa [hhealthy])
    exact ⟨hsame.trans
      (roundRobin_sameFleet t.world), by rw [Series.served_next, hserved, if_neg hother]⟩
  · rintro k t b ⟨hsame, hserved⟩
    exact ⟨hsame.trans ⟨rfl, rfl, rfl⟩, hserved⟩

theorem roundRobin_fair_iff (hne : w.getHealthy ≠ []) (hl : w.getHealthy.Nodup)
    (hk : Series.calls steps = w.getHealthy.length) :
    (∀ b ∈ w.getHealthy, (Series.run roundRobin { world := w } steps).served b = 1) ↔
      w.getHealthy.length < 2 ^ 32 ∧ (w.current.toNat + w.getHealthy.length ≤ 2 ^ 32 ∨
        w.getHealthy.length ∣ 2 ^ 32) := by
  have hpos := List.length_pos_iff.mpr hne
  by_cases hlt : w.getHealthy.length < 2 ^ 32
  · have hline : ∀ i, (places id 0 w.getHealthy.length).count i = if i < w.getHealthy.length then 1
        else 0 := by
      intro i
      rw [places, List.map_id, ← List.range_eq_range', List.count_range]
    have hfair := (roundRobin_rotates hne hlt).fair_iff hl hk (fun _ _ h _ => h) hpos hlt.le
      fun _ hr => hr
    have hcond : Undisturbed id (2 ^ 32) w.getHealthy.length w.current.toNat ↔
        w.current.toNat + w.getHealthy.length ≤ 2 ^ 32 ∨ w.getHealthy.length ∣ 2 ^ 32 := by
      have hmod := Nat.mod_lt (2 ^ 32) hpos
      have hcur := w.current.toNat_lt
      rw [Undisturbed, Nat.dvd_iff_mod_eq_zero]
      simp only [id]
      omega
    rw [and_iff_right hlt, ← hcond, ← hfair]
    constructor
    · intro h i b hi
      obtain ⟨hi', rfl⟩ := List.getElem?_eq_some_iff.mp hi
      rw [h _ (List.getElem_mem hi'), hline, if_pos hi']
    · intro h b hb
      obtain ⟨i, hi, rfl⟩ := List.mem_iff_getElem.mp hb
      rw [h i _ (List.getElem?_eq_getElem hi), hline, if_pos hi]
  · constructor
    · intro h
      have hlast : w.getHealthy.length - 1 < w.getHealthy.length := by omega
      have hone := h _ (List.getElem_mem hlast)
      rw [roundRobin_skips_last (not_lt.mp hlt) hl (List.getElem?_eq_getElem hlast)] at hone
      cases hone
    · intro h
      exact absurd h.1 hlt

def shares (w : World) : List ℕ := w.getHealthy.map fun b => (w.getWeight b).toNat

theorem shares_of_sameFleet {w' : World} (h : SameFleet w w') : shares w' = shares w := by
  simp only [shares, h.getHealthy, h.getWeight]

theorem weightedScan_eq {l : List Backend} {sequence current : UInt32}
    (hle : current.toNat ≤ sequence.toNat)
    (hin : sequence.toNat - current.toNat < (l.map fun b => (w.getWeight b).toNat).sum)
    (hlt : current.toNat + (l.map fun b => (w.getWeight b).toNat).sum < 2 ^ 32) :
    weightedScan w sequence current l =
      l[ownerOf (l.map fun b => (w.getWeight b).toNat) (sequence.toNat - current.toNat)]? := by
  induction l generalizing current with
  | nil => simp at hin
  | cons b l ih =>
    rw [List.map_cons, List.sum_cons] at hin hlt
    rw [weightedScan, List.map_cons, ownerOf]
    by_cases hw : w.getWeight b ≤ 0
    · have hzero : (w.getWeight b).toNat = 0 := Int.toNat_of_nonpos hw
      rw [if_pos hw, hzero, if_neg (Nat.not_lt_zero _), List.getElem?_cons_succ]
      rw [hzero] at hin hlt
      rw [ih hle (by omega) (by omega), Nat.sub_zero]
    · have hnext : (current + UInt32.ofNat (w.getWeight b).toNat).toNat =
          current.toNat + (w.getWeight b).toNat := by
        rw [UInt32.toNat_add, UInt32.toNat_ofNat', Nat.add_mod_mod, Nat.mod_eq_of_lt (by omega)]
      rw [if_neg hw]
      by_cases hhere : sequence < current + UInt32.ofNat (w.getWeight b).toNat
      · have hhere' := UInt32.lt_iff_toNat_lt.mp hhere
        rw [if_pos hhere, if_pos (by omega)]
        rfl
      · have hhere' := mt UInt32.lt_iff_toNat_lt.mpr hhere
        rw [if_neg hhere, if_neg (by omega), List.getElem?_cons_succ,
          ih (by omega) (by omega) (by omega), hnext, Nat.sub_add_eq]

theorem totalWeight_eq (w : World) (l : List Backend) :
    (l.map fun b => if 0 < w.getWeight b then w.getWeight b else 0).sum =
      ((l.map fun b => (w.getWeight b).toNat).sum : ℤ) := by
  induction l with
  | nil => rfl
  | cons b l ih =>
    rw [List.map_cons, List.sum_cons, ih, List.map_cons, List.sum_cons]
    push_cast
    split_ifs <;> omega

theorem weightedRoundRobin_rotates (hpos : 0 < (shares w).sum) (hlt : (shares w).sum < 2 ^ 32) :
    Rotates weightedRoundRobin w (shares w).sum (ownerOf (shares w)) := by
  intro w' hsame
  have hshares := shares_of_sameFleet hsame
  have hne : w'.getHealthy ≠ [] := by
    intro he
    rw [← hshares, shares, he] at hpos
    simp at hpos
  have htotal := totalWeight_eq w' w'.getHealthy
  rw [← shares, hshares] at htotal
  have hnarrow : (UInt32.ofNat (shares w).sum).toNat = (shares w).sum := by
    rw [UInt32.toNat_ofNat', Nat.mod_eq_of_lt hlt]
  have hnz : UInt32.ofNat (shares w).sum ≠ 0 := by
    intro hz
    rw [hz] at hnarrow
    simp at hnarrow
    omega
  have hplace : w'.current.toNat % (shares w).sum < (shares w).sum := Nat.mod_lt _ hpos
  have hsequence : (w'.current % UInt32.ofNat (shares w).sum).toNat =
      w'.current.toNat % (shares w).sum := by
    rw [UInt32.toNat_mod, hnarrow]
  have howner : ownerOf (shares w) (w'.current.toNat % (shares w).sum) < w.getHealthy.length := by
    simpa [shares] using ownerOf_lt hplace
  have hscan : weightedScan { w' with current := w'.current + 1 }
      (w'.current % UInt32.ofNat (shares w).sum) 0 w'.getHealthy =
      w.getHealthy[ownerOf (shares w) (w'.current.toNat % (shares w).sum)]? := by
    rw [weightedScan_eq (Nat.zero_le _)]
    · change w'.getHealthy[ownerOf (shares w') _]? = _
      rw [hshares, hsame.getHealthy, hsequence]
      rfl
    · change _ < (shares w').sum
      rw [hshares, hsequence]
      exact lt_of_le_of_lt (Nat.sub_le _ _) hplace
    · change 0 + (shares w').sum < 2 ^ 32
      rw [hshares, zero_add]
      exact hlt
  rw [List.getElem?_eq_getElem howner] at hscan ⊢
  refine ⟨_, rfl, ?_⟩
  unfold weightedRoundRobin withHealthy
  rw [if_neg hne]
  dsimp only
  rw [htotal, if_neg (by omega), Int.toNat_natCast, if_neg hnz, hscan]
  exact ⟨rfl, ⟨rfl, rfl, rfl⟩, rfl⟩

def shareOf (w : World) (x : ℕ) : Option Backend := weightedScan w (UInt32.ofNat x) 0 w.getHealthy

theorem shareOf_eq (hlt : (shares w).sum < 2 ^ 32) {x : ℕ} (hx : x < (shares w).sum) :
    shareOf w x = w.getHealthy[ownerOf (shares w) x]? := by
  have hnum : (UInt32.ofNat x).toNat = x := by
    rw [UInt32.toNat_ofNat', Nat.mod_eq_of_lt (by omega)]
  rw [shareOf, weightedScan_eq (Nat.zero_le _)]
  · rw [hnum]
    rfl
  · rw [hnum]
    exact lt_of_le_of_lt (Nat.sub_le _ _) hx
  · change 0 + (shares w).sum < 2 ^ 32
    omega

theorem shareOf_eq_iff (hl : w.getHealthy.Nodup) (hlt : (shares w).sum < 2 ^ 32) {x y : ℕ}
    (hx : x < (shares w).sum) (hy : y < (shares w).sum) :
    shareOf w x = shareOf w y ↔ ownerOf (shares w) x = ownerOf (shares w) y := by
  have howner : ownerOf (shares w) x < w.getHealthy.length := by
    simpa [shares] using ownerOf_lt hx
  rw [shareOf_eq hlt hx, shareOf_eq hlt hy]
  exact List.getElem?_inj howner hl

/-- The calls do not reach the wrap, or it is at the end of a cycle, or all calls before it are
the last backend's, or all places that it skips are the first's. -/
def HarmlessWrap (w : World) (S : ℕ) : Prop :=
  w.current.toNat + S ≤ 2 ^ 32 ∨ S ∣ 2 ^ 32 ∨
    (2 ^ 32 - w.current.toNat ≤ 2 ^ 32 % S ∧
      shareOf w (2 ^ 32 % S - (2 ^ 32 - w.current.toNat)) = shareOf w (S - 1)) ∨
    (2 ^ 32 % S < 2 ^ 32 - w.current.toNat ∧
      shareOf w (2 ^ 32 % S + S - (2 ^ 32 - w.current.toNat) - 1) = shareOf w 0)

theorem harmlessWrap_iff (hl : w.getHealthy.Nodup) (hpos : 0 < (shares w).sum)
    (hlt : (shares w).sum < 2 ^ 32) :
    HarmlessWrap w (shares w).sum ↔
      Undisturbed (ownerOf (shares w)) (2 ^ 32) (shares w).sum w.current.toNat := by
  have hmod := Nat.mod_lt (2 ^ 32) hpos
  have hcur := w.current.toNat_lt
  rw [HarmlessWrap, Undisturbed, Nat.dvd_iff_mod_eq_zero]
  refine or_congr_right (or_congr_right (or_congr ?_ ?_))
  · exact and_congr_right fun _ => shareOf_eq_iff hl hlt (by omega) (by omega)
  · exact and_congr_right fun h => shareOf_eq_iff hl hlt (by omega) hpos

theorem weightedRoundRobin_fair_iff (hl : w.getHealthy.Nodup) (hpos : 0 < (shares w).sum)
    (hlt : (shares w).sum < 2 ^ 32) (hk : Series.calls steps = (shares w).sum) :
    (∀ b ∈ w.getHealthy, ((Series.run weightedRoundRobin { world := w } steps).served b : ℤ) =
      max (w.getWeight b) 0) ↔ HarmlessWrap w (shares w).sum := by
  have hshare : ∀ i b, w.getHealthy[i]? = some b →
      ((places (ownerOf (shares w)) 0 (shares w).sum).count i : ℤ) = max (w.getWeight b) 0 := by
    intro i b hi
    rw [count_ownerOf, shares, List.getD_eq_getElem?_getD, List.getElem?_map, hi]
    simp
  rw [harmlessWrap_iff hl hpos hlt, ← (weightedRoundRobin_rotates hpos hlt).fair_iff hl hk
    (ordered_ownerOf _) hpos hlt.le fun r hr => by simpa [shares] using ownerOf_lt hr]
  constructor
  · intro h i b hi
    have hb := h b (List.mem_of_getElem? hi)
    rw [← hshare i b hi] at hb
    exact_mod_cast hb
  · intro h b hb
    obtain ⟨i, hi⟩ := List.mem_iff_getElem?.mp hb
    rw [h i b hi, hshare i b hi]

/-- From any value of the counter, a window of calls returns each backend once, or as often as its
weight, exactly if the wrap of the counter is harmless. -/
theorem round_robin_windows_fair_iff (w : World) (hne : w.getHealthy ≠ []) (hl : w.getHealthy.Nodup)
    (steps : List SeriesStep) :
    (Series.calls steps = w.getHealthy.length →
      ((∀ b ∈ w.getHealthy, (Series.run roundRobin { world := w } steps).served b = 1) ↔
        w.getHealthy.length < 2 ^ 32 ∧ (w.current.toNat + w.getHealthy.length ≤ 2 ^ 32 ∨
          w.getHealthy.length ∣ 2 ^ 32))) ∧
      ∀ S : ℕ, (w.getHealthy.map fun b => max (w.getWeight b) 0).sum = S → 0 < S → S < 2 ^ 32 →
        Series.calls steps = S →
        ((∀ b ∈ w.getHealthy, ((Series.run weightedRoundRobin { world := w } steps).served b : ℤ) =
          max (w.getWeight b) 0) ↔ HarmlessWrap w S) := by
  constructor
  · exact roundRobin_fair_iff hne hl
  · intro S hsum hpos hlt hk
    have hS : (shares w).sum = S := by
      have hcast : ((shares w).sum : ℤ) = S := by
        rw [← hsum, shares, Nat.cast_list_sum, List.map_map]
        congr 1
        apply List.map_congr_left
        intro b _
        simp
      exact_mod_cast hcast
    subst hS
    exact weightedRoundRobin_fair_iff hl hpos hlt hk

/-- Three backends, and a counter one call before its wrap. -/
def beforeWrap : World where
  backends := [{ addr := 0 }, { addr := 1 }, { addr := 2 }]
  weight := fun b => if b.addr = 0 then 2 else if b.addr = 1 then 1 else 0
  current := 4294967295

/-- The first backend is returned at both ends of the wrap, and the last not at all; the
weighted calls are all for the first. -/
theorem round_robin_repeats_at_wrap :
    let three := List.replicate 3 SeriesStep.next
    beforeWrap.getHealthy.Nodup ∧ Series.calls three = beforeWrap.getHealthy.length ∧
      (Series.run roundRobin { world := beforeWrap } three).picks =
        [.backend { addr := 0 }, .backend { addr := 0 }, .backend { addr := 1 }] ∧
      ¬ (∀ b ∈ beforeWrap.getHealthy,
        (Series.run roundRobin { world := beforeWrap } three).served b = 1) ∧
      (beforeWrap.getHealthy.map fun b => max (beforeWrap.getWeight b) 0).sum = 3 ∧
      ¬ ∀ b ∈ beforeWrap.getHealthy,
        ((Series.run weightedRoundRobin { world := beforeWrap } three).served b : ℤ) =
          max (beforeWrap.getWeight b) 0 := by
  decide +kernel

theorem round_robin_windows_fair_from_zero :
    let w : World := { beforeWrap with current := 0 }
    let three := List.replicate 3 SeriesStep.next
    w.getHealthy ≠ [] ∧ w.getHealthy.Nodup ∧
      (∀ b ∈ w.getHealthy, (Series.run roundRobin { world := w } three).served b = 1) ∧
      ∀ b ∈ w.getHealthy, ((Series.run weightedRoundRobin { world := w } three).served b : ℤ) =
        max (w.getWeight b) 0 := by
  intro w three
  have hne : w.getHealthy ≠ [] := by decide
  have hl : w.getHealthy.Nodup := by decide
  have hfair := round_robin_windows_fair_iff w hne hl three
  refine ⟨hne, hl, ?_, ?_⟩
  · exact (hfair.1 (by decide)).mpr ⟨by decide, .inl (by decide)⟩
  · exact (hfair.2 3 (by decide) (by decide) (by decide) (by decide)).mpr (.inl (by decide))

end ReverseProxyLb

import ReverseProxyLb.Balancer.RoundRobin

/-! A weight is set as an `int`, stored as an `int32` and summed up to a `uint32`. It counts
as it was set exactly if neither conversion loses anything that matters. -/
namespace ReverseProxyLb

variable {w : World} {b : Backend}

theorem weightedScan_positive {sequence current : UInt32} {l : List Backend} :
    ∀ b ∈ weightedScan w sequence current l, 0 < w.getWeight b := by
  induction l generalizing current with
  | nil => simp [weightedScan]
  | cons a l ih =>
    intro b hb
    simp only [weightedScan] at hb
    split_ifs at hb with hw hhere
    · exact ih b hb
    · cases hb
      exact not_le.mp hw
    · exact ih b hb

theorem weightedScan_isSome {sequence current : UInt32} {l : List Backend}
    (hpos : ∃ b ∈ l, 0 < w.getWeight b)
    (hin : sequence < current + UInt32.ofNat (l.map fun b => (w.getWeight b).toNat).sum) :
    (weightedScan w sequence current l).isSome := by
  induction l generalizing current with
  | nil => simp at hpos
  | cons a l ih =>
    rw [weightedScan]
    by_cases hw : w.getWeight a ≤ 0
    · have hrest : ∃ b ∈ l, 0 < w.getWeight b := by
        obtain ⟨b, hb, hpos⟩ := hpos
        rcases List.mem_cons.mp hb with rfl | hb
        · exact absurd hw (not_le.mpr hpos)
        · exact ⟨b, hb, hpos⟩
      rw [if_pos hw]
      apply ih hrest
      rwa [List.map_cons, List.sum_cons, Int.toNat_of_nonpos hw, zero_add] at hin
    · rw [if_neg hw]
      by_cases hhere : sequence < current + UInt32.ofNat (w.getWeight a).toNat
      · rw [if_pos hhere]
        rfl
      · rw [if_neg hhere]
        rw [List.map_cons, List.sum_cons, UInt32.ofNat_add, ← UInt32.add_assoc] at hin
        apply ih _ hin
        by_contra hnone
        push Not at hnone
        have hzero : (l.map fun b => (w.getWeight b).toNat).sum = 0 := by
          apply List.sum_eq_zero
          intro n hn
          obtain ⟨b, hb, rfl⟩ := List.mem_map.mp hn
          exact Int.toNat_of_nonpos (hnone b hb)
        rw [hzero] at hin
        apply hhere
        simpa using hin

theorem shares_sum_pos : 0 < (shares w).sum ↔ ∃ b ∈ w.getHealthy, 0 < w.getWeight b := by
  rw [Nat.pos_iff_ne_zero, Ne, List.sum_eq_zero_iff]
  simp [shares]

theorem ofNat_eq_zero {n : ℕ} : UInt32.ofNat n = 0 ↔ 2 ^ 32 ∣ n := by
  rw [← UInt32.toNat_inj, UInt32.toNat_ofNat', Nat.dvd_iff_mod_eq_zero]
  rfl

theorem weightedRoundRobin_weightless (hzero : (shares w).sum = 0) :
    (weightedRoundRobin w).1 ≠ .panic := by
  unfold weightedRoundRobin withHealthy
  split
  · intro h
    cases h
  · dsimp only
    rw [totalWeight_eq, ← shares, hzero]
    intro h
    cases hl : w.getHealthy with
    | nil =>
      rw [hl] at h
      cases h
    | cons b l =>
      rw [hl] at h
      cases h

theorem weightedRoundRobin_panics (hpos : 0 < (shares w).sum) (hdvd : 2 ^ 32 ∣ (shares w).sum) :
    (weightedRoundRobin w).1 = .panic := by
  obtain ⟨b, hb, -⟩ := shares_sum_pos.mp hpos
  unfold weightedRoundRobin withHealthy
  rw [if_neg (List.ne_nil_of_mem hb)]
  dsimp only
  rw [totalWeight_eq, ← shares, if_neg (by omega), Int.toNat_natCast, if_pos (ofNat_eq_zero.mpr hdvd)]

theorem weightedRoundRobin_proceeds (hpos : 0 < (shares w).sum) (hdvd : ¬ 2 ^ 32 ∣ (shares w).sum) :
    ∃ b ∈ w.getHealthy, (weightedRoundRobin w).1 = .backend b ∧ 0 < w.getWeight b := by
  have hexists := shares_sum_pos.mp hpos
  have hne : w.getHealthy ≠ [] := by
    obtain ⟨b, hb, -⟩ := hexists
    exact List.ne_nil_of_mem hb
  have hnz : UInt32.ofNat (shares w).sum ≠ 0 := mt ofNat_eq_zero.mp hdvd
  have hsequence : w.current % UInt32.ofNat (shares w).sum < 0 + UInt32.ofNat (shares w).sum := by
    rw [UInt32.zero_add]
    exact UInt32.mod_lt _ (UInt32.pos_iff_ne_zero.mpr hnz)
  obtain ⟨a, ha⟩ := Option.isSome_iff_exists.mp
    (weightedScan_isSome (w := { w with current := w.current + 1 }) hexists hsequence)
  refine ⟨a, weightedScan_mem a ha, ?_,
    weightedScan_positive (w := { w with current := w.current + 1 }) a ha⟩
  unfold weightedRoundRobin withHealthy
  rw [if_neg hne]
  dsimp only
  rw [totalWeight_eq, ← shares, if_neg (by omega), Int.toNat_natCast, if_neg hnz, ha]
  rfl

/-- The weights of a balancer are the values that were set, and it selects by them. -/
structure Faithful (w : World) (set : Backend → ℤ) : Prop where
  stored : ∀ b ∈ w.backends, w.getWeight b = set b
  proceeds : (weightedRoundRobin w).1 ≠ .panic
  weighted : ∀ b, (weightedRoundRobin w).1 = .backend b → set b = 0 → ∀ b' ∈ w.getHealthy, ¬ 0 < set b'

def Fits (w : World) (set : Backend → ℤ) : Prop :=
  (∀ b ∈ w.backends, set b < 2 ^ 31) ∧
    ¬ (0 < (w.getHealthy.map set).sum ∧ 2 ^ 32 ∣ (w.getHealthy.map set).sum)

instance  (w : World) (set : Backend → ℤ) : Decidable (Fits w set) :=
  inferInstanceAs (Decidable (_ ∧ ¬ (_ ∧ _)))

theorem toInt_ofInt_eq {v : ℤ} (hv : 0 ≤ v) : (Int32.ofInt v).toInt = v ↔ v < 2 ^ 31 := by
  rw [Int32.toInt_ofInt, Int.bmod_def]
  simp only [Int32.size]
  omega

theorem shares_sum_eq {set : Backend → ℤ} (hnonneg : ∀ b ∈ w.backends, 0 ≤ set b)
    (hstored : ∀ b ∈ w.backends, w.getWeight b = set b) :
    ((shares w).sum : ℤ) = (w.getHealthy.map set).sum := by
  rw [shares, Nat.cast_list_sum, List.map_map]
  congr 1
  apply List.map_congr_left
  intro b hb
  have hmem : b ∈ w.backends := (List.mem_filter.mp hb).1
  rw [Function.comp_apply, hstored b hmem, Int.toNat_of_nonneg (hnonneg b hmem)]

theorem faithful_iff {set : Backend → ℤ} (hnonneg : ∀ b ∈ w.backends, 0 ≤ set b)
    (hweight : ∀ b ∈ w.backends, w.weight b = Int32.ofInt (set b)) : Faithful w set ↔ Fits w set := by
  have hstored : (∀ b ∈ w.backends, w.getWeight b = set b) ↔ ∀ b ∈ w.backends, set b < 2 ^ 31 := by
    apply forall₂_congr
    intro b hb
    rw [World.getWeight, hweight b hb]
    exact toInt_ofInt_eq (hnonneg b hb)
  constructor
  · intro h
    have hsum := shares_sum_eq hnonneg h.stored
    refine ⟨hstored.mp h.stored, ?_⟩
    rintro ⟨hpos, hdvd⟩
    rw [← hsum] at hpos hdvd
    apply h.proceeds
    exact weightedRoundRobin_panics (by exact_mod_cast hpos) (by exact_mod_cast hdvd)
  · rintro ⟨hsmall, hfit⟩
    have hsets := hstored.mpr hsmall
    have hsum := shares_sum_eq hnonneg hsets
    rw [← hsum] at hfit
    by_cases hpos : 0 < (shares w).sum
    · have hkept : ¬ 2 ^ 32 ∣ (shares w).sum :=
        fun hdvd => hfit ⟨by exact_mod_cast hpos, by exact_mod_cast hdvd⟩
      obtain ⟨a, hmem, ha, hpositive⟩ := weightedRoundRobin_proceeds hpos hkept
      rw [hsets a (List.mem_filter.mp hmem).1] at hpositive
      refine ⟨hsets, fun hpanic => ?_, fun b hb hzero => ?_⟩
      · rw [ha] at hpanic
        cases hpanic
      · cases ha.symm.trans hb
        omega
    · refine ⟨hsets, weightedRoundRobin_weightless (by omega), fun b _ _ b' hb' hb'pos => ?_⟩
      apply hpos
      rw [shares_sum_pos]
      refine ⟨b', hb', ?_⟩
      rw [hsets b' (List.mem_filter.mp hb').1]
      exact hb'pos

end ReverseProxyLb

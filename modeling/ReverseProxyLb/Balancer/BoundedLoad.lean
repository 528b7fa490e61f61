import ReverseProxyLb.Balancer.HashRing

/-! The walk around the ring skips backends at the capacity: the load factor times the
average load, truncated, plus one. Some backend is below it, since not all are above the
average. -/
namespace ReverseProxyLb
open Lib

variable {hash : String → UInt32} {c : ConsistentHash} {w : World} {key : String}

def loadQuota (c : ConsistentHash) (w : World) : ℚ :=
  c.loadFactor * (((1 + (w.getHealthy.map w.getActiveConns).sum : ℤ) : ℚ) / w.getHealthy.length)

def CountsNonneg (w : World) : Prop := ∀ b ∈ w.getHealthy, 0 ≤ w.getActiveConns b

instance (w : World) : Decidable (CountsNonneg w) :=
  inferInstanceAs (Decidable (∀ b ∈ w.getHealthy, 0 ≤ w.getActiveConns b))

theorem truncate_eq_floor {x : ℚ} (h : 0 ≤ x) : truncate x = ⌊x⌋ := by
  rw [truncate, Int.tdiv_eq_ediv_of_nonneg (Rat.num_nonneg.mpr h), Rat.floor_def']

theorem CountsNonneg.sum_nonneg (h : CountsNonneg w) :
    0 ≤ (w.getHealthy.map w.getActiveConns).sum := by
  apply List.sum_nonneg
  intro x hx
  obtain ⟨b, hb, rfl⟩ := List.mem_map.mp hx
  exact h b hb

theorem CountsNonneg.quota_nonneg (h : CountsNonneg w) : 0 ≤ loadQuota c w := by
  have hsum : (0 : ℚ) ≤ (1 + (w.getHealthy.map w.getActiveConns).sum : ℤ) := by
    have := h.sum_nonneg
    exact_mod_cast (by omega)
  have hlf := c.loadFactor_gt
  unfold loadQuota
  positivity

theorem CountsNonneg.capacity_eq (h : CountsNonneg w) :
    loadCapacity c w.getHealthy w = ⌊loadQuota c w⌋ + 1 := by
  rw [← truncate_eq_floor h.quota_nonneg]
  rfl

theorem CountsNonneg.lt_capacity_iff (h : CountsNonneg w) (n : ℤ) :
    n < loadCapacity c w.getHealthy w ↔ (n : ℚ) ≤ loadQuota c w := by
  rw [h.capacity_eq, Int.lt_add_one_iff, Int.le_floor]

theorem CountsNonneg.exists_room (h : CountsNonneg w) (hne : w.getHealthy ≠ []) :
    ∃ b ∈ w.getHealthy, w.getActiveConns b < loadCapacity c w.getHealthy w := by
  by_contra hfull
  push Not at hfull
  have hlen : 0 < (w.getHealthy.length : ℚ) := by exact_mod_cast List.length_pos_iff.mpr hne
  have hsum : (w.getHealthy.length : ℤ) * loadCapacity c w.getHealthy w ≤
      (w.getHealthy.map w.getActiveConns).sum := by
    have hle :=
      List.card_nsmul_le_sum (w.getHealthy.map w.getActiveConns) (loadCapacity c w.getHealthy w) ?_
    · simpa using hle
    · intro x hx
      obtain ⟨b, hb, rfl⟩ := List.mem_map.mp hx
      exact hfull b hb
  have habove : loadQuota c w < loadCapacity c w.getHealthy w := by
    rw [h.capacity_eq]
    push_cast
    exact Int.lt_floor_add_one _
  have htotal : (0 : ℚ) < ((1 + (w.getHealthy.map w.getActiveConns).sum : ℤ) : ℚ) := by
    have := h.sum_nonneg
    exact_mod_cast (by omega)
  have haverage : ((1 + (w.getHealthy.map w.getActiveConns).sum : ℤ) : ℚ) / w.getHealthy.length <
      loadQuota c w := by
    have hlf := c.loadFactor_gt
    exact lt_mul_of_one_lt_left (by positivity) hlf
  have hlt := haverage.trans habove
  rw [div_lt_iff₀ hlen] at hlt
  have hlt' : 1 + (w.getHealthy.map w.getActiveConns).sum <
      loadCapacity c w.getHealthy w * (w.getHealthy.length : ℤ) := by exact_mod_cast hlt
  rw [mul_comm] at hlt'
  omega

def AllOwn (hash : String → UInt32) (c : ConsistentHash) (w : World) : Prop :=
  ∀ b ∈ w.getHealthy, (rebuildBy hash c w.getHealthy (membershipSignature w.getHealthy)).Owns b

theorem AllOwn.mem_ownersFrom (h : AllOwn hash c w) {b : Backend} (hb : b ∈ w.getHealthy) :
    b ∈ ownersFrom hash c key w.getHealthy := by
  obtain ⟨p, hp, hlookup⟩ := h b hb
  rw [rebuildBy_lookup] at hlookup
  exact List.mem_filterMap.mpr ⟨p, mem_clockwise.mpr hp, hlookup⟩

theorem find_filterMap_sorted {α β : Type*} {R : α → α → Prop} {f : α → Option β} {test : β → Bool}
    {l : List α} {b : β} (hl : l.Pairwise R) (h : (l.filterMap f).find? test = some b) :
    ∃ p ∈ l, f p = some b ∧ ∀ q ∈ l, (∀ x, f q = some x → test x = false) ∨ q = p ∨ R p q := by
  induction l with
  | nil => cases h
  | cons a l ih =>
    obtain ⟨ha, hl'⟩ := List.pairwise_cons.mp hl
    have hskip : (∀ x, f a = some x → test x = false) → (l.filterMap f).find? test = some b →
        ∃ p ∈ a :: l, f p = some b ∧
          ∀ q ∈ a :: l, (∀ x, f q = some x → test x = false) ∨ q = p ∨ R p q := by
      intro hfail hrest
      obtain ⟨p, hp, hfp, hbefore⟩ := ih hl' hrest
      refine ⟨p, List.mem_cons_of_mem _ hp, hfp, ?_⟩
      intro q hq
      rcases List.mem_cons.mp hq with rfl | hq
      · exact .inl hfail
      · exact hbefore q hq
    cases hfa : f a with
    | none =>
      rw [List.filterMap_cons, hfa] at h
      apply hskip _ h
      intro x hx
      rw [hfa] at hx
      cases hx
    | some x =>
      rw [List.filterMap_cons, hfa, List.find?_cons] at h
      cases htest : test x with
      | true =>
        rw [htest] at h
        obtain rfl : x = b := Option.some.inj h
        refine ⟨a, List.mem_cons_self .., hfa, ?_⟩
        intro q hq
        rcases List.mem_cons.mp hq with rfl | hq
        · exact .inr (.inl rfl)
        · exact .inr (.inr (ha q hq))
      | false =>
        rw [htest] at h
        apply hskip _ h
        intro y hy
        rw [hfa] at hy
        rwa [← Option.some.inj hy]

/-- With the ring built for the healthy backends and a point for each of them, the loop returns
the first backend clockwise from the key that is under the capacity, whatever it would fall back
to. -/
theorem bounded_walk_finds_room (hash : String → UInt32) (c : ConsistentHash) (key : String)
    (w : World) (hne : w.getHealthy ≠ []) (hring : OwnRing hash c w) (hown : AllOwn hash c w)
    (hcounts : CountsNonneg w) :
    let r := rebuildBy hash c w.getHealthy (membershipSignature w.getHealthy)
    let capacity := loadCapacity c w.getHealthy w
    ∃ b, (nextForKeyBy hash c key w).1 = .backend b ∧ w.getActiveConns b < capacity ∧
      (∀ fallback, ringWalk w w.getHealthy capacity fallback []
        ((walkFrom (hash key) r.ring).map fun point => r.ringMap.lookup point) = some b) ∧
      ∃ p ∈ r.ring, r.ringMap.lookup p = some b ∧
        ∀ q ∈ r.ring, q - hash key < p - hash key →
          ∃ x, r.ringMap.lookup q = some x ∧ capacity ≤ w.getActiveConns x := by
  intro r capacity
  have hfind : ∃ b, (ownersFrom hash c key w.getHealthy).find?
      (fun b => w.getActiveConns b < capacity) = some b := by
    obtain ⟨b, hb, hroom⟩ := hcounts.exists_room (c := c) hne
    apply Option.isSome_iff_exists.mp
    rw [List.find?_isSome]
    exact ⟨b, hown.mem_ownersFrom hb, decide_eq_true hroom⟩
  obtain ⟨b, hb⟩ := hfind
  have hroom : w.getActiveConns b < capacity := by simpa using List.find?_some hb
  have hpick : boundedPick hash c key w = some b := by
    rw [boundedPick, hb]
    rfl
  refine ⟨b, ?_, hroom, ?_, ?_⟩
  · rw [nextForKeyBy_eq hne hring, hpick]
    rfl
  · intro fallback
    rw [ring_points_eq, ringWalk_eq (fun _ => mem_of_mem_ownersFrom) (by simp), hb]
    rfl
  · obtain ⟨p, hp, howner, hbefore⟩ := find_filterMap_sorted (clockwise_sorted _ _) hb
    have hp' := mem_clockwise.mp hp
    refine ⟨p, hp', by rwa [rebuildBy_lookup], ?_⟩
    intro q hq hlt
    obtain ⟨x, hx⟩ := rebuildBy_mem.mp hq
    refine ⟨x, by rwa [rebuildBy_lookup], ?_⟩
    rcases hbefore q (mem_clockwise.mpr hq) with hfull | rfl | hle
    · simpa using hfull x hx
    · exact absurd hlt (UInt32.lt_irrefl _)
    · exact absurd hlt (UInt32.not_lt.mpr hle)

def ringC : Backend := { addr := 2, url := "http://c" }

/-- The first owner ahead of the key has five requests in flight, and room for four. -/
def crowded : World where
  backends := [ringA, ringB, ringC]
  activeConns := fun b => if b = ringA then 5 else 0

theorem bounded_walk_finds_room_crowded :
    (ownersFrom hashKey (newConsistentHash 2 (3 / 2)) "key" crowded.getHealthy).head? = some ringA ∧
      loadCapacity (newConsistentHash 2 (3 / 2)) crowded.getHealthy crowded ≤
        crowded.getActiveConns ringA ∧
      ∃ b, (nextForKeyBy hashKey (newConsistentHash 2 (3 / 2)) "key" crowded).1 = .backend b ∧
        b ≠ ringA := by
  have hfull : loadCapacity (newConsistentHash 2 (3 / 2)) crowded.getHealthy crowded ≤
      crowded.getActiveConns ringA := by
    decide +kernel
  have hown : AllOwn hashKey (newConsistentHash 2 (3 / 2)) crowded := by
    unfold AllOwn Ring.Owns
    decide +kernel
  obtain ⟨b, hb, hroom, -⟩ :=
    bounded_walk_finds_room hashKey (newConsistentHash 2 (3 / 2)) "key" crowded
    (by decide) (ownRing_of_nil rfl) hown (by decide)
  refine ⟨head_ownersFrom_of_least (p := hashKey "http://a#1") (by decide +kernel) (by decide +kernel),
    hfull, b, hb, ?_⟩
  rintro rfl
  omega

/-- The first backend clockwise from the key with at most the quota has less than it; or the
counter that is incremented is at the largest `int32`. -/
def KeepsQuota (hash : String → UInt32) (c : ConsistentHash) (key : String) (w : World) : Prop :=
  let owners := ownersFrom hash c key w.getHealthy
  let found := owners.find? fun b => (w.getActiveConns b : ℚ) ≤ loadQuota c w
  (∃ a, found = some a ∧ (w.getActiveConns a : ℚ) < loadQuota c w) ∨
    ∃ a, found.or owners.head? = some a ∧ w.getActiveConns a = 2 ^ 31 - 1

theorem CountsNonneg.find_eq (h : CountsNonneg w) (owners : List Backend) :
    owners.find? (fun b => w.getActiveConns b < loadCapacity c w.getHealthy w) =
      owners.find? fun b => (w.getActiveConns b : ℚ) ≤ loadQuota c w := by
  congr 1
  funext b
  rw [decide_eq_decide]
  exact h.lt_capacity_iff _

theorem succ_le_ceil_iff (n : ℤ) (x : ℚ) : n + 1 ≤ ⌈x⌉ ↔ (n : ℚ) < x := by
  rw [Int.add_one_le_iff, Int.lt_ceil]

theorem keepsQuota_of_fraction (hne : w.getHealthy ≠ []) (hown : AllOwn hash c w)
    (hcounts : CountsNonneg w) (hfrac : ∀ n : ℤ, (n : ℚ) ≠ loadQuota c w) :
    KeepsQuota hash c key w := by
  obtain ⟨b, hb, hroom⟩ := hcounts.exists_room (c := c) hne
  have hfind : ((ownersFrom hash c key w.getHealthy).find? fun b =>
      (w.getActiveConns b : ℚ) ≤ loadQuota c w).isSome := by
    rw [List.find?_isSome]
    exact ⟨b, hown.mem_ownersFrom hb, decide_eq_true ((hcounts.lt_capacity_iff _).mp hroom)⟩
  obtain ⟨a, ha⟩ := Option.isSome_iff_exists.mp hfind
  have hle : (w.getActiveConns a : ℚ) ≤ loadQuota c w := by simpa using List.find?_some ha
  exact .inl ⟨a, ha, lt_of_le_of_ne hle (hfrac _)⟩

/-- The backend that a call returned has at most the load factor times the average load, rounded
up, exactly under that condition. -/
theorem bounded_load_iff (hash : String → UInt32) (c : ConsistentHash) (key : String) (w : World)
    (hne : w.getHealthy ≠ []) (hring : OwnRing hash c w) (hcounts : CountsNonneg w) :
    (∃ b, (nextForKeyBy hash c key w).1 = .backend b ∧
      ((nextForKeyBy hash c key w).2.getActiveConns b ≤ ⌈loadQuota c w⌉ ↔ KeepsQuota hash c key w)) ∧
    (AllOwn hash c w → (∀ n : ℤ, (n : ℚ) ≠ loadQuota c w) → KeepsQuota hash c key w) := by
  refine ⟨?_, fun hown hfrac => keepsQuota_of_fraction hne hown hcounts hfrac⟩
  obtain ⟨a, ha⟩ := exists_boundedPick hash c key hne
  have hafter : (nextForKeyBy hash c key w).2.getActiveConns a = (w.activeConns a + 1).toInt := by
    rw [nextForKeyBy_eq hne hring, ha, World.getActiveConns]
    change ((World.incrConn _ a).activeConns a).toInt = _
    rw [World.activeConns_incrConn_self]
  refine ⟨a, ?_, ?_⟩
  · rw [nextForKeyBy_eq hne hring, ha]
    rfl
  rw [hafter]
  rw [boundedPick, hcounts.find_eq] at ha
  have hmax := Int32.toInt_lt (w.activeConns a)
  by_cases hfull : w.getActiveConns a = 2 ^ 31 - 1
  · have hwraps : (w.activeConns a + 1).toInt = -2 ^ 31 := by
      have heq : w.activeConns a = Int32.ofInt (2 ^ 31 - 1) := by
        rw [← Int32.ofInt_toInt (w.activeConns a), ← hfull]
        rfl
      rw [heq]
      rfl
    have hceil : 0 ≤ ⌈loadQuota c w⌉ := Int.ceil_nonneg hcounts.quota_nonneg
    constructor
    · intro _
      exact .inr ⟨a, ha, hfull⟩
    · intro _
      omega
  · have hgrows : (w.activeConns a + 1).toInt = w.getActiveConns a + 1 := by
      apply toInt_add_one
      rw [World.getActiveConns] at hfull
      omega
    rw [hgrows, succ_le_ceil_iff]
    constructor
    · intro hlt
      cases hfound : (ownersFrom hash c key w.getHealthy).find?
          (fun b => (w.getActiveConns b : ℚ) ≤ loadQuota c w) with
      | some a' =>
        rw [hfound] at ha
        obtain rfl : a' = a := Option.some.inj ha
        exact .inl ⟨a', hfound, hlt⟩
      | none =>
        rw [hfound, Option.none_or] at ha
        have habove := List.find?_eq_none.mp hfound a (List.mem_of_mem_head? ha)
        exact absurd (decide_eq_true hlt.le) habove
    · rintro (⟨a', hfound, hlt⟩ | ⟨a', hpick, hat⟩)
      · rw [hfound] at ha
        rwa [← Option.some.inj ha]
      · rw [ha] at hpick
        rw [← Option.some.inj hpick] at hat
        exact absurd hat hfull

def uneven : World where
  backends := [ringA, ringB]
  activeConns := fun b => if b = ringA then 3 else 0

theorem loadQuota_uneven {factor : ℚ} (h : 1 < factor) :
    loadQuota (newConsistentHash 1 factor) uneven = 2 * factor := by
  have hsum : (uneven.getHealthy.map uneven.getActiveConns).sum = 3 := by decide
  have hlength : uneven.getHealthy.length = 2 := by decide
  have hfactor : (newConsistentHash 1 factor).loadFactor = factor := if_neg (not_le.mpr h)
  rw [loadQuota, hsum, hlength, hfactor]
  ring

/-- A fourth request is given to the backend with three, although one and a half times
the average of four over two is three. -/
theorem bounded_load_exceeded :
    CountsNonneg uneven ∧ OwnRing hashKey (newConsistentHash 1 (3 / 2)) uneven ∧
      loadQuota (newConsistentHash 1 (3 / 2)) uneven = 3 ∧
      (consistentHashForKey (newConsistentHash 1 (3 / 2)) "key" uneven).1 = .backend ringA ∧
      ¬ (consistentHashForKey (newConsistentHash 1 (3 / 2)) "key" uneven).2.getActiveConns ringA ≤
        ⌈loadQuota (newConsistentHash 1 (3 / 2)) uneven⌉ := by
  have hquota : loadQuota (newConsistentHash 1 (3 / 2)) uneven = 3 := by
    rw [loadQuota_uneven (by norm_num)]
    norm_num
  refine ⟨by decide, ownRing_of_nil rfl, hquota, by decide +kernel, ?_⟩
  rw [hquota, Int.ceil_ofNat]
  decide +kernel

theorem bounded_load_iff_uneven :
    uneven.getHealthy ≠ [] ∧ OwnRing hashKey (newConsistentHash 1 (7 / 4)) uneven ∧
      CountsNonneg uneven ∧
      ∃ b, (nextForKeyBy hashKey (newConsistentHash 1 (7 / 4)) "key" uneven).1 = .backend b ∧
        (nextForKeyBy hashKey (newConsistentHash 1 (7 / 4)) "key" uneven).2.getActiveConns b ≤
          ⌈loadQuota (newConsistentHash 1 (7 / 4)) uneven⌉ := by
  have hring : OwnRing hashKey (newConsistentHash 1 (7 / 4)) uneven := ownRing_of_nil rfl
  have hcounts : CountsNonneg uneven := by decide
  have hown : AllOwn hashKey (newConsistentHash 1 (7 / 4)) uneven := by
    unfold AllOwn Ring.Owns
    decide +kernel
  have hfrac : ∀ n : ℤ, (n : ℚ) ≠ loadQuota (newConsistentHash 1 (7 / 4)) uneven := by
    intro n hn
    rw [loadQuota_uneven (by norm_num)] at hn
    have htwice : ((2 * n : ℤ) : ℚ) = (7 : ℤ) := by
      push_cast
      linarith
    have := Int.cast_injective htwice
    omega
  obtain ⟨⟨b, hb, hiff⟩, hkeeps⟩ :=
    bounded_load_iff hashKey (newConsistentHash 1 (7 / 4)) "key" uneven (by decide)
    hring hcounts
  exact ⟨by decide, hring, hcounts, b, hb, hiff.mpr (hkeeps hown hfrac)⟩

end ReverseProxyLb

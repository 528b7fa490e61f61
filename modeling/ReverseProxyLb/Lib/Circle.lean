import Mathlib.Data.List.Sort
import Mathlib.Tactic

/-! Points in order on a circle of `2 ^ 32` places. A walk from the first that is not below
its start meets them in the order of their distances ahead. -/
namespace ReverseProxyLb.Lib

variable {h p q : UInt32} {points others : List UInt32}

/-- The points in the order of their distances ahead of `h`. -/
def clockwise (h : UInt32) (points : List UInt32) : List UInt32 :=
  points.mergeSort fun p q => decide (p - h ≤ q - h)

/-- From the first point that is not below `h` on, and around. -/
def walkFrom (h : UInt32) (points : List UInt32) : List UInt32 :=
  let start := points.findIdx fun p => decide (h ≤ p)
  points.rotate (if start = points.length then 0 else start)

theorem toNat_ahead_of_le (hp : h ≤ p) : (p - h).toNat = p.toNat - h.toNat := by
  have := UInt32.le_iff_toNat_le.mp hp
  have := p.toNat_lt
  rw [UInt32.toNat_sub]
  omega

theorem toNat_ahead_of_lt (hp : p < h) : (p - h).toNat = 2 ^ 32 + p.toNat - h.toNat := by
  have := UInt32.lt_iff_toNat_lt.mp hp
  have := h.toNat_lt
  rw [UInt32.toNat_sub]
  omega

theorem ahead_le_of_lt (hside : h ≤ p ∨ q < h) (hpq : p < q) : p - h ≤ q - h := by
  have hlt := UInt32.lt_iff_toNat_lt.mp hpq
  rw [UInt32.le_iff_toNat_le]
  rcases hside with hp | hq
  · have := UInt32.le_iff_toNat_le.mp hp
    have hq : h ≤ q := UInt32.le_iff_toNat_le.mpr (by omega)
    rw [toNat_ahead_of_le hp, toNat_ahead_of_le hq]
    omega
  · have := UInt32.lt_iff_toNat_lt.mp hq
    have hp : p < h := UInt32.lt_iff_toNat_lt.mpr (by omega)
    rw [toNat_ahead_of_lt hp, toNat_ahead_of_lt hq]
    omega

theorem ahead_le_of_around (hp : h ≤ p) (hq : q < h) : p - h ≤ q - h := by
  have := UInt32.le_iff_toNat_le.mp hp
  have := UInt32.lt_iff_toNat_lt.mp hq
  have := p.toNat_lt
  rw [UInt32.le_iff_toNat_le, toNat_ahead_of_le hp, toNat_ahead_of_lt hq]
  omega

theorem eq_of_ahead_le (hpq : p - h ≤ q - h) (hqp : q - h ≤ p - h) : p = q := by
  have heq : p - h = q - h := UInt32.le_antisymm hpq hqp
  simpa using heq

theorem mem_clockwise : p ∈ clockwise h points ↔ p ∈ points := List.mem_mergeSort

theorem clockwise_sorted (h : UInt32) (points : List UInt32) :
    (clockwise h points).Pairwise fun p q => p - h ≤ q - h := by
  have hsorted : (clockwise h points).Pairwise fun p q => decide (p - h ≤ q - h) = true := by
    apply List.pairwise_mergeSort
    · intro a b c hab hbc
      rw [decide_eq_true_eq] at hab hbc ⊢
      exact UInt32.le_trans hab hbc
    · intro a b
      rw [Bool.or_eq_true, decide_eq_true_eq, decide_eq_true_eq]
      exact UInt32.le_total _ _
  simpa using hsorted

theorem walkFrom_eq_append (h : UInt32) (points : List UInt32) :
    walkFrom h points = points.drop (points.findIdx fun p => decide (h ≤ p)) ++
      points.take (points.findIdx fun p => decide (h ≤ p)) := by
  have hle : points.findIdx (fun p => decide (h ≤ p)) ≤ points.length := List.findIdx_le_length
  unfold walkFrom
  dsimp only
  split_ifs with hend
  · simp [hend]
  · exact List.rotate_eq_drop_append_take hle

theorem below_of_mem_take (hp : p ∈ points.take (points.findIdx fun p => decide (h ≤ p))) : p < h := by
  obtain ⟨i, hi, rfl⟩ := List.mem_take_iff_getElem.mp hp
  have hnot := List.not_of_lt_findIdx (lt_of_lt_of_le hi (min_le_left _ _))
  simpa using hnot

theorem not_below_of_mem_drop (hs : points.Pairwise (· < ·))
    (hp : p ∈ points.drop (points.findIdx fun p => decide (h ≤ p))) : h ≤ p := by
  obtain ⟨i, hi, rfl⟩ := List.mem_drop_iff_getElem.mp hp
  have hlt : points.findIdx (fun p => decide (h ≤ p)) < points.length := by omega
  have hfound : h ≤ points[points.findIdx fun p => decide (h ≤ p)] := by
    simpa using List.findIdx_getElem (w := hlt)
  by_cases hzero : i = 0
  · subst hzero
    exact hfound
  · apply UInt32.le_trans hfound
    apply UInt32.le_of_lt
    exact List.pairwise_iff_getElem.mp hs _ _ hlt _ (by omega)

theorem walkFrom_eq_clockwise (hs : points.Pairwise (· < ·)) :
    walkFrom h points = clockwise h points := by
  have hperm : (walkFrom h points).Perm (clockwise h points) :=
    (List.rotate_perm _ _).trans (List.mergeSort_perm _ _).symm
  apply hperm.eq_of_pairwise (fun _ _ _ _ => eq_of_ahead_le) _ (clockwise_sorted h points)
  rw [walkFrom_eq_append, List.pairwise_append]
  refine ⟨?_, ?_, ?_⟩
  · apply (hs.sublist (List.drop_sublist _ _)).imp_of_mem
    intro p q hp _ hpq
    exact ahead_le_of_lt (.inl (not_below_of_mem_drop hs hp)) hpq
  · apply (hs.sublist (List.take_sublist _ _)).imp_of_mem
    intro p q _ hq hpq
    exact ahead_le_of_lt (.inr (below_of_mem_take hq)) hpq
  · intro p hp q hq
    exact ahead_le_of_around (not_below_of_mem_drop hs hp) (below_of_mem_take hq)

theorem head_clockwise_iff :
    (clockwise h points).head? = some p ↔ p ∈ points ∧ ∀ q ∈ points, p - h ≤ q - h := by
  have hmem : ∀ q, q ∈ clockwise h points ↔ q ∈ points := fun q => mem_clockwise
  have hsorted := clockwise_sorted h points
  cases hw : clockwise h points with
  | nil =>
    rw [hw] at hmem
    constructor
    · intro hhead
      cases hhead
    · intro ⟨hp, _⟩
      exact absurd ((hmem p).mpr hp) (by simp)
  | cons a rest =>
    rw [hw] at hmem hsorted
    have hleast : ∀ q ∈ points, a - h ≤ q - h := by
      intro q hq
      rcases List.mem_cons.mp ((hmem q).mpr hq) with rfl | hq
      · exact UInt32.le_refl _
      · exact List.rel_of_pairwise_cons hsorted hq
    have ha : a ∈ points := (hmem a).mp (List.mem_cons_self ..)
    constructor
    · intro hhead
      cases hhead
      exact ⟨ha, hleast⟩
    · intro ⟨hp, hfirst⟩
      rw [List.head?_cons, eq_of_ahead_le (hleast p hp) (hfirst a ha)]

theorem head_clockwise_of_subset (hfirst : (clockwise h points).head? = some p) (hp : p ∈ others)
    (hsub : ∀ q ∈ others, q ∈ points) : (clockwise h others).head? = some p := by
  rw [head_clockwise_iff] at hfirst ⊢
  exact ⟨hp, fun q hq => hfirst.2 q (hsub q hq)⟩

end ReverseProxyLb.Lib

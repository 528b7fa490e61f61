import Mathlib.Data.List.Sort
import Mathlib.Tactic

/-! A counter runs from zero to `N - 1` and starts again; its value modulo `S` is a place on a
line. A window of `S` values gives every owner its places, unless it wraps in the middle of a
cycle. -/
namespace ReverseProxyLb.Lib

variable {g : ℕ → ℕ} {N S s x a δ : ℕ}

/-- The owners of `a` places from `x` on. -/
def places (g : ℕ → ℕ) (x a : ℕ) : List ℕ := (List.range' x a).map g

/-- The owners that `S` values of the counter meet from `s` on. -/
def window (g : ℕ → ℕ) (N S s : ℕ) : List ℕ := (List.range S).map fun j => g ((s + j) % N % S)

theorem places_append (g : ℕ → ℕ) (x a b : ℕ) :
    places g x (a + b) = places g x a ++ places g (x + a) b := by
  rw [places, ← List.range'_append_1, List.map_append]
  rfl

theorem places_congr {f : ℕ → ℕ} (h : ∀ j < a, f j = g (x + j)) :
    (List.range a).map f = places g x a := by
  rw [places, List.range'_eq_map_range, List.map_map]
  apply List.map_congr_left
  intro j hj
  exact h j (List.mem_range.mp hj)

def Ordered (g : ℕ → ℕ) (S : ℕ) : Prop := ∀ x y, x ≤ y → y < S → g x ≤ g y

theorem Ordered.places_sorted (hg : Ordered g S) (h : x + a ≤ S) :
    (places g x a).Pairwise (· ≤ ·) := by
  rw [places, List.pairwise_map]
  apply (List.pairwise_lt_range' (s := x) (n := a)).imp_of_mem
  intro i j _ hj hij
  rw [List.mem_range'_1] at hj
  exact hg i j hij.le (by omega)

theorem Ordered.one_owner (hg : Ordered g S) (hS : x + δ + a ≤ S) (hδ : 0 < δ) (ha : 0 < a)
    (h : ∀ j < a, g (x + j) = g (x + δ + j)) : g x = g (x + δ + a - 1) := by
  have hall : ∀ m, ∀ j < a, a - j ≤ m → g (x + j) = g (x + δ + a - 1) := by
    intro m
    induction m with
    | zero =>
      intro j hj hm
      omega
    | succ m ih =>
      intro j hj hm
      have hlast : g (x + δ + j) ≤ g (x + δ + a - 1) := hg _ _ (by omega) (by omega)
      by_cases hnear : j + δ < a
      · rw [h j hj, ← ih (j + δ) hnear (by omega)]
        congr 1
        omega
      · -- the place a distance on is past all that are compared
        have hend := h (a - 1) (by omega)
        have hpast : g (x + (a - 1)) ≤ g (x + δ + j) := hg _ _ (by omega) (by omega)
        have hsame : x + δ + (a - 1) = x + δ + a - 1 := by omega
        rw [hsame] at hend
        rw [h j hj]
        omega
  exact hall a 0 ha (by omega)

theorem Ordered.places_perm_iff (hg : Ordered g S) (hS : x + δ + a ≤ S) (hδ : 0 < δ) (ha : 0 < a) :
    (places g x a).Perm (places g (x + δ) a) ↔ g x = g (x + δ + a - 1) := by
  constructor
  · intro h
    have heq := h.eq_of_pairwise (fun _ _ _ _ => le_antisymm) (hg.places_sorted (by omega))
      (hg.places_sorted hS)
    apply hg.one_owner hS hδ ha
    intro j hj
    have hj' := congrArg (·[j]?) heq
    simpa [places, hj] using hj'
  · intro h
    have hbetween : ∀ j < δ + a, g (x + j) = g x := by
      intro j hj
      have := hg x (x + j) (by omega) (by omega)
      have := hg (x + j) (x + δ + a - 1) (by omega) (by omega)
      omega
    have heq : places g x a = places g (x + δ) a := by
      rw [← places_congr (fun j hj => hbetween j (by omega) ▸ rfl : ∀ j < a, g x = g (x + j))]
      apply places_congr
      intro j hj
      rw [add_assoc, hbetween (δ + j) (by omega)]
    rw [heq]

theorem window_perm_of_clean (hclean : s + S ≤ N ∨ N % S = 0) :
    (window g N S s).Perm (places g 0 S) := by
  have hwindow : window g N S s = ((List.range S).rotate (s % S)).map g := by
    rw [window]
    apply List.ext_getElem
    · simp
    · intro j hj _
      have hjS : j < S := by simpa using hj
      simp only [List.getElem_map, List.getElem_range, List.getElem_rotate, List.length_range]
      congr 1
      rcases hclean with hle | hmod
      · rw [Nat.mod_eq_of_lt (show s + j < N by omega), Nat.add_mod_mod, add_comm]
      · rw [Nat.mod_mod_of_dvd _ (Nat.dvd_of_mod_eq_zero hmod), Nat.add_mod_mod, add_comm]
  rw [hwindow, places, ← List.range_eq_range']
  exact (List.rotate_perm _ _).map g

theorem window_wrapped (hs : s < N) (hSN : S ≤ N) (hwrap : N < s + S) :
    window g N S s =
      ((List.range (N - s)).map fun j => g ((s + j) % S)) ++ places g 0 (S - (N - s)) := by
  have hsplit : S = (N - s) + (S - (N - s)) := by omega
  conv_lhs => rw [window, hsplit, List.range_add, List.map_append, List.map_map]
  congr 1
  · apply List.map_congr_left
    intro j hj
    rw [List.mem_range] at hj
    rw [Nat.mod_eq_of_lt (show s + j < N by omega), ← hsplit]
  · apply places_congr
    intro j hj
    have hback : (s + (N - s + j)) % N = j := by
      rw [show s + (N - s + j) = j + N by omega, Nat.add_mod_right, Nat.mod_eq_of_lt (by omega)]
    rw [Function.comp_apply, hback, ← hsplit, Nat.mod_eq_of_lt (by omega), zero_add]

theorem before_wrap_inside (hS : 0 < S) (hs : s ≤ N) (h : N - s ≤ N % S) :
    ((List.range (N - s)).map fun j => g ((s + j) % S)) = places g (N % S - (N - s)) (N - s) := by
  apply places_congr
  intro j hj
  have hlt := Nat.mod_lt N hS
  have hdiv := Nat.div_add_mod N S
  have hs' : s + j = N % S - (N - s) + j + S * (N / S) := by omega
  rw [hs', Nat.add_mul_mod_self_left, Nat.mod_eq_of_lt (by omega)]

theorem before_wrap_around (hs : s ≤ N) (hlong : N - s < S) (h : N % S < N - s) :
    ((List.range (N - s)).map fun j => g ((s + j) % S)) =
      places g (S - (N - s) + N % S) (N - s - N % S) ++ places g 0 (N % S) := by
  have hsplit : N - s = (N - s - N % S) + N % S := by omega
  conv_lhs => rw [hsplit, List.range_add, List.map_append, List.map_map]
  have hSN : S ≤ N := by
    by_contra hlt
    rw [Nat.mod_eq_of_lt (not_le.mp hlt)] at h
    omega
  obtain ⟨q, hq⟩ := Nat.exists_eq_succ_of_ne_zero (Nat.div_pos hSN (by omega)).ne'
  have hdiv := Nat.div_add_mod N S
  rw [hq, Nat.mul_succ] at hdiv
  congr 1
  · apply places_congr
    intro j hj
    have hs' : s + j = S - (N - s) + N % S + j + S * q := by omega
    rw [hs', Nat.add_mul_mod_self_left, Nat.mod_eq_of_lt (by omega)]
  · apply places_congr
    intro j hj
    have hlt := Nat.mod_lt N (show 0 < S by omega)
    have hs' : s + (N - s - N % S + j) = j + S * (q + 1) := by
      rw [Nat.mul_succ]
      omega
    rw [Function.comp_apply, hs', Nat.add_mul_mod_self_left, Nat.mod_eq_of_lt (by omega), zero_add]

/-- The window does not reach the wrap, or it is at the end of a cycle, or the values before it
belong to the last owner alone, or the places that it skips to the first. -/
def Undisturbed (g : ℕ → ℕ) (N S s : ℕ) : Prop :=
  s + S ≤ N ∨ N % S = 0 ∨
    (N - s ≤ N % S ∧ g (N % S - (N - s)) = g (S - 1)) ∨
    (N % S < N - s ∧ g (N % S + S - (N - s) - 1) = g 0)

theorem window_perm_iff (hg : Ordered g S) (hS : 0 < S) (hSN : S ≤ N) (hs : s < N) :
    (window g N S s).Perm (places g 0 S) ↔ Undisturbed g N S s := by
  by_cases hclean : s + S ≤ N ∨ N % S = 0
  · constructor
    · intro _
      exact hclean.imp_right .inl
    · intro _
      exact window_perm_of_clean hclean
  · obtain ⟨hwrap, hmod⟩ := not_or.mp hclean
    have hlt := Nat.mod_lt N hS
    have hline : places g 0 S = places g 0 (S - (N - s)) ++ places g (S - (N - s)) (N - s) := by
      rw [show S = S - (N - s) + (N - s) by omega, places_append, zero_add]
      congr 2 <;> omega
    rw [window_wrapped hs hSN (by omega), hline, Undisturbed, or_iff_right hwrap, or_iff_right hmod]
    rw [List.perm_append_comm.congr_left, List.perm_append_left_iff]
    by_cases hinside : N - s ≤ N % S
    · have hmove : S - (N - s) = N % S - (N - s) + (S - N % S) := by omega
      have hend : N % S - (N - s) + (S - N % S) + (N - s) - 1 = S - 1 := by omega
      rw [before_wrap_inside hS hs.le hinside, hmove,
        hg.places_perm_iff (by omega) (by omega) (by omega), hend]
      simp only [hinside, true_and, not_lt.mpr hinside, false_and, or_false]
    · have haround : N % S < N - s := not_le.mp hinside
      have hrest : places g (S - (N - s)) (N - s) =
          places g (S - (N - s)) (N % S) ++ places g (S - (N - s) + N % S) (N - s - N % S) := by
        rw [← places_append]
        congr 1
        omega
      have hend : 0 + (S - (N - s)) + N % S - 1 = N % S + S - (N - s) - 1 := by omega
      rw [before_wrap_around hs.le (by omega) haround, hrest, List.perm_append_comm.congr_left,
        List.perm_append_right_iff, ← zero_add (S - (N - s)),
        hg.places_perm_iff (by omega) (by omega) (by omega), hend]
      simp only [hinside, false_and, false_or, haround, true_and]
      exact eq_comm

def ownerOf : List ℕ → ℕ → ℕ
  | [], _ => 0
  | v :: vs, r => if r < v then 0 else ownerOf vs (r - v) + 1

theorem ownerOf_lt {shares : List ℕ} {r : ℕ} (h : r < shares.sum) :
    ownerOf shares r < shares.length := by
  induction shares generalizing r with
  | nil => simp at h
  | cons v vs ih =>
    rw [List.sum_cons] at h
    rw [ownerOf, List.length_cons]
    split_ifs with hv
    · omega
    · have := ih (r := r - v) (by omega)
      omega

theorem ownerOf_mono (shares : List ℕ) {x y : ℕ} (hxy : x ≤ y) (hy : y < shares.sum) :
    ownerOf shares x ≤ ownerOf shares y := by
  induction shares generalizing x y with
  | nil => simp at hy
  | cons v vs ih =>
    rw [List.sum_cons] at hy
    simp only [ownerOf]
    split_ifs with hx hyv
    · omega
    · omega
    · omega
    · have := ih (x := x - v) (y := y - v) (by omega) (by omega)
      omega

theorem ordered_ownerOf (shares : List ℕ) : Ordered (ownerOf shares) shares.sum := fun _ _ hxy hy =>
  ownerOf_mono shares hxy hy

theorem count_ownerOf (shares : List ℕ) (i : ℕ) :
    (places (ownerOf shares) 0 shares.sum).count i = shares.getD i 0 := by
  induction shares generalizing i with
  | nil => simp [places]
  | cons v vs ih =>
    have hfirst : places (ownerOf (v :: vs)) 0 v = List.replicate v 0 := by
      rw [← places_congr (f := fun _ => 0)]
      · simp
      · intro j hj
        simp [ownerOf, hj]
    have hrest : places (ownerOf (v :: vs)) (0 + v) vs.sum =
        (places (ownerOf vs) 0 vs.sum).map (· + 1) := by
      rw [← places_congr (f := fun j => ownerOf vs j + 1)]
      · rw [places, ← List.range_eq_range', List.map_map]
        rfl
      · intro j hj
        simp [ownerOf]
    rw [List.sum_cons, places_append, hfirst, hrest, List.count_append]
    cases i with
    | zero =>
      have hno : List.count 0 ((places (ownerOf vs) 0 vs.sum).map (· + 1)) = 0 := by
        simp [List.count_eq_zero]
      simp [hno]
    | succ i =>
      rw [List.count_map_of_injective _ _ (add_left_injective 1), ih]
      simp [List.count_replicate]

end ReverseProxyLb.Lib

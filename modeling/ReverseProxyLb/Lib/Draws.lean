import Mathlib.Algebra.BigOperators.Fin
import Mathlib.Tactic

/-! A first draw names one of `n` places, and a second one of the `n - 1` that are left; the
one with the smaller load is kept. -/
namespace ReverseProxyLb.Lib
open Finset

variable {n m : ℕ} {β : Type*} [LinearOrder β]

def other (i : Fin n) (j : Fin (n - 1)) : Fin n :=
  ⟨if i.val ≤ j.val then j.val + 1 else j.val, by
    have := i.isLt
    have := j.isLt
    split <;> omega⟩

theorem other_ne (i : Fin n) (j : Fin (n - 1)) : other i j ≠ i := by
  intro h
  have hval := congrArg Fin.val h
  simp only [other] at hval
  split_ifs at hval <;> omega

theorem other_eq_succAbove (i : Fin (m + 1)) (j : Fin m) : other i j = i.succAbove j := by
  ext
  simp only [other, Fin.succAbove, Fin.lt_def, Fin.val_castSucc]
  split_ifs <;> simp <;> omega

def lesser (load : Fin n → β) (i j : Fin n) : Fin n := if load j < load i then j else i

theorem lesser_eq_left {load : Fin n → β} {p q : Fin n} (hne : q ≠ p) (hinj : load.Injective) :
    lesser load p q = p ↔ load p < load q := by
  have hload : load p ≠ load q := fun h => hne (hinj h).symm
  rw [lesser]
  split_ifs with h
  · simp [hne, h.le]
  · simp [lt_of_le_of_ne (not_lt.mp h) hload]

theorem lesser_eq_iff {load : Fin n → β} {p i q : Fin n} (hi : i ≠ p) :
    lesser load i q = p ↔ q = p ∧ load p < load i := by
  rw [lesser]
  split_ifs with h
  · constructor
    · rintro rfl
      exact ⟨rfl, h⟩
    · exact And.left
  · constructor
    · exact fun hip => absurd hip hi
    · rintro ⟨rfl, hlt⟩
      exact absurd hlt h

theorem sum_kept_first {load : Fin (m + 1) → β} (hinj : load.Injective) (p : Fin (m + 1)) :
    (∑ j, if lesser load p (p.succAbove j) = p then 1 else 0) = ∑ q, if load p < load q then 1
      else 0 := by
  rw [Fin.sum_univ_succAbove _ p, if_neg (lt_irrefl _), zero_add]
  apply sum_congr rfl
  intro j _
  simp only [lesser_eq_left (Fin.succAbove_ne p j) hinj]

theorem sum_kept_second {load : Fin (m + 1) → β} {p i : Fin (m + 1)} (hi : i ≠ p) :
    (∑ j, if lesser load i (i.succAbove j) = p then 1 else 0) = if load p < load i then 1 else 0 := by
  have hall : (∑ q, if lesser load i q = p then 1 else 0) = if load p < load i then 1 else 0 := by
    simp only [lesser_eq_iff hi, ite_and]
    simp
  rw [← hall, Fin.sum_univ_succAbove _ i, lesser, if_neg (lt_irrefl _), if_neg hi, zero_add]

theorem card_kept (load : Fin n → β) (hinj : load.Injective) (p : Fin n) :
    #{d : Fin n × Fin (n - 1) | lesser load d.1 (other d.1 d.2) = p} = 2 * #{q | load p < load q} := by
  obtain ⟨m, rfl⟩ : ∃ m, n = m + 1 := ⟨n - 1, by have := p.isLt; omega⟩
  rw [card_filter, card_filter, Fintype.sum_prod_type]
  change (∑ i, ∑ j : Fin m, if lesser load i (other i j) = p then 1 else 0) = _
  simp only [other_eq_succAbove]
  rw [Fin.sum_univ_succAbove _ p, sum_kept_first hinj, two_mul]
  congr 1
  rw [Fin.sum_univ_succAbove _ p, if_neg (lt_irrefl _), zero_add]
  apply sum_congr rfl
  intro i _
  exact sum_kept_second (Fin.succAbove_ne p i)

end ReverseProxyLb.Lib

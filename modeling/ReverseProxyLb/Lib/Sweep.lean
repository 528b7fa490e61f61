import Mathlib.Tactic

/-! A reader adds up cells while others add to them. What it has read and what is in the
cells ahead is its outlook, which grows with what is added to the cells ahead. -/
namespace ReverseProxyLb.Lib

structure Sweep (α : Type*) where
  sum : α
  next : ℕ

namespace Sweep

variable {α : Type*} [AddCommMonoid α] {cells : List α} {s s' : Sweep α}

def start : Sweep α := ⟨0, 0⟩

def load (cells : List α) (s : Sweep α) : Option (Sweep α) :=
  cells[s.next]?.map fun v => ⟨s.sum + v, s.next + 1⟩

def outlook (cells : List α) (s : Sweep α) : α := s.sum + (cells.drop s.next).sum

theorem outlook_start : outlook cells start = cells.sum := by
  simp [outlook, start]

theorem load_eq_some (h : s.load cells = some s') :
    ∃ v, cells[s.next]? = some v ∧ s' = ⟨s.sum + v, s.next + 1⟩ := by
  obtain ⟨v, hv, rfl⟩ := Option.map_eq_some_iff.mp h
  exact ⟨v, hv, rfl⟩

theorem load_eq_none : s.load cells = none ↔ cells.length ≤ s.next := by
  rw [load, Option.map_eq_none_iff, List.getElem?_eq_none_iff]

theorem outlook_load (h : s.load cells = some s') : s'.outlook cells = s.outlook cells := by
  obtain ⟨v, hv, rfl⟩ := load_eq_some h
  obtain ⟨hlt, rfl⟩ := List.getElem?_eq_some_iff.mp hv
  simp only [outlook]
  rw [List.drop_eq_getElem_cons hlt, List.sum_cons, add_assoc]

theorem outlook_of_done (h : s.load cells = none) : s.outlook cells = s.sum := by
  rw [outlook, List.drop_eq_nil_of_le (load_eq_none.mp h), List.sum_nil, add_zero]

theorem sum_modify_add {l : List α} {a : ℕ} (ha : a < l.length) (v : α) :
    (l.modify a (· + v)).sum = l.sum + v := by
  induction l generalizing a with
  | nil => cases ha
  | cons x l ih =>
    cases a with
    | zero =>
      rw [List.modify_zero_cons, List.sum_cons, List.sum_cons]
      exact add_right_comm x v l.sum
    | succ a =>
      rw [List.modify_succ_cons, List.sum_cons, List.sum_cons, ih (Nat.lt_of_succ_lt_succ ha),
        add_assoc]

theorem outlook_modify {a : ℕ} (ha : a < cells.length) (v : α) :
    s.outlook (cells.modify a (· + v)) = s.outlook cells + if s.next ≤ a then v else 0 := by
  unfold outlook
  split_ifs with hahead
  · rw [List.drop_modify_of_ge _ _ _ _ hahead, sum_modify_add (by rw [List.length_drop]; omega),
      add_assoc]
  · rw [List.drop_modify_of_lt _ _ _ _ (not_le.mp hahead), add_zero]

end Sweep
end ReverseProxyLb.Lib

import Mathlib.Algebra.BigOperators.Ring.Finset
import Mathlib.Algebra.Order.BigOperators.Group.Finset
import Mathlib.Tactic

/-! In every round each party gains its weight in credit, a party with the most credit is
served, and it pays the sum of all weights. So a party is served its exact share up to its
credit. -/
namespace ReverseProxyLb.Lib.Apportion

variable {α : Type*} {s : Finset α} {w credit credit' : α → ℤ} {a b : α} {k : ℕ}
  {served served' : α → ℕ}

def price (s : Finset α) (w : α → ℤ) : ℤ := ∑ b ∈ s, w b

/-- A round in which `a` is served. -/
structure Round [DecidableEq α] (s : Finset α) (w credit credit' : α → ℤ) (a : α) : Prop where
  mem : a ∈ s
  most : ∀ b ∈ s, credit b + w b ≤ credit a + w a
  pays : ∀ b ∈ s, credit' b = credit b + w b - if b = a then price s w else 0

/-- How often each party has been served in `k` rounds, and what credit it has. -/
structure Account (s : Finset α) (w : α → ℤ) (k : ℕ) (served : α → ℕ) (credit : α → ℤ) : Prop where
  settled : ∀ b ∈ s, served b * price s w = k * w b - credit b
  balanced : ∑ b ∈ s, credit b = 0
  bounded : ∀ b ∈ s, -price s w < credit b

theorem price_pos (hw : ∀ b ∈ s, 0 < w b) (hs : s.Nonempty) : 0 < price s w :=
  Finset.sum_pos hw hs

theorem Account.start (hw : ∀ b ∈ s, 0 < w b) (hs : s.Nonempty) (hc : ∀ b ∈ s, credit b = 0) :
    Account s w 0 (fun _ => 0) credit := by
  have hpos := price_pos hw hs
  constructor
  · intro b hb
    simp [hc b hb]
  · exact Finset.sum_eq_zero hc
  · intro b hb
    rw [hc b hb]
    omega

theorem Account.served_lt (h : Account s w k served credit) (hpos : 0 < price s w) (hb : b ∈ s) :
    (served b : ℚ) < k * w b / price s w + 1 := by
  have hposQ : (0 : ℚ) < price s w := by exact_mod_cast hpos
  have hset : (served b : ℚ) * price s w = k * w b - credit b := by exact_mod_cast h.settled b hb
  have hbound : -(price s w : ℚ) < credit b := by exact_mod_cast h.bounded b hb
  rw [div_add_one hposQ.ne', lt_div_iff₀ hposQ]
  linarith

theorem Account.cycle (h : Account s w k served credit) (hpos : 0 < price s w) {m : ℕ}
    (hk : (k : ℤ) = m * price s w) (hb : b ∈ s) : (served b : ℤ) = m * w b ∧ credit b = 0 := by
  have hmul : ∀ c ∈ s, credit c = (m * w c - served c) * price s w := by
    intro c hc
    have := h.settled c hc
    rw [hk] at this
    linarith
  have hnonneg : ∀ c ∈ s, 0 ≤ credit c := by
    intro c hc
    have hlt := h.bounded c hc
    rw [hmul c hc] at hlt ⊢
    have : -1 < m * w c - served c := by
      by_contra hle
      nlinarith
    apply mul_nonneg
    · omega
    · exact hpos.le
  have hzero : credit b = 0 := (Finset.sum_eq_zero_iff_of_nonneg hnonneg).mp h.balanced b hb
  have hdiff := hmul b hb
  rw [hzero, eq_comm, mul_eq_zero] at hdiff
  constructor
  · have := hdiff.resolve_right hpos.ne'
    omega
  · exact hzero

variable [DecidableEq α]

theorem Account.credit_lt (h : Account s w k served credit) (hpos : 0 < price s w) (hb : b ∈ s) :
    credit b < s.card * price s w := by
  have hsplit := Finset.add_sum_erase s credit hb
  have hothers : (s.erase b).card • -price s w ≤ ∑ c ∈ s.erase b, credit c := by
    apply Finset.card_nsmul_le_sum
    intro c hc
    exact (h.bounded c (Finset.mem_of_mem_erase hc)).le
  have hcard : ((s.erase b).card : ℤ) + 1 = s.card := by exact_mod_cast Finset.card_erase_add_one hb
  rw [h.balanced] at hsplit
  rw [nsmul_eq_mul] at hothers
  rw [← hcard]
  linarith

theorem Round.credit_pos (hr : Round s w credit credit' a) (hpos : 0 < price s w)
    (hb : ∑ b ∈ s, credit b = 0) : 0 < credit a + w a := by
  by_contra hle
  have hsum : ∑ b ∈ s, (credit b + w b) ≤ 0 := by
    apply Finset.sum_nonpos
    intro b hbs
    have := hr.most b hbs
    omega
  rw [Finset.sum_add_distrib, hb] at hsum
  unfold price at hpos
  omega

theorem Round.balanced (hr : Round s w credit credit' a) (hb : ∑ b ∈ s, credit b = 0) :
    ∑ b ∈ s, credit' b = 0 := by
  rw [Finset.sum_congr rfl hr.pays, Finset.sum_sub_distrib, Finset.sum_add_distrib, hb,
    Finset.sum_ite_eq' s a, if_pos hr.mem]
  simp [price]

theorem Account.round (h : Account s w k served credit) (hr : Round s w credit credit' a)
    (hw : ∀ b ∈ s, 0 < w b) (hserved : ∀ b ∈ s, served' b = served b + if b = a then 1 else 0) :
    Account s w (k + 1) served' credit' := by
  have hpos := price_pos hw ⟨a, hr.mem⟩
  constructor
  · intro b hb
    have hset := h.settled b hb
    rw [hserved b hb, hr.pays b hb]
    split_ifs
    · push_cast
      linarith
    · push_cast
      linarith
  · exact hr.balanced h.balanced
  · intro b hb
    rw [hr.pays b hb]
    by_cases hba : b = a
    · have := hr.credit_pos hpos h.balanced
      rw [if_pos hba, hba]
      omega
    · have := h.bounded b hb
      have := hw b hb
      rw [if_neg hba]
      omega

end ReverseProxyLb.Lib.Apportion

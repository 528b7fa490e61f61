import ReverseProxyLb.Lib.Scan

/-! Units are given out one at a time, each to a party whose load for its weight is least.
Then nobody is more than its last unit above anybody else. -/
namespace ReverseProxyLb.Lib

theorem scanMin_some_least {α β : Type*} [LinearOrder β] [DecidableLT β] (score : α → β) {p q : α × β}
    {l : List α} (hp : p.2 = score p.1) (h : scanMin score (some p) l = some q) :
    q.2 = score q.1 ∧ q.2 ≤ p.2 ∧ ∀ a ∈ l, q.2 ≤ score a := by
  induction l generalizing p with
  | nil =>
    obtain rfl : p = q := Option.some.inj h
    exact ⟨hp, le_rfl, by simp⟩
  | cons a l ih =>
    obtain ⟨b, m⟩ := p
    rw [scanMin, List.foldl_cons, ← scanMin, better] at h
    by_cases hlt : score a < m
    · rw [if_pos hlt] at h
      obtain ⟨hq, hle, hl⟩ := ih rfl h
      refine ⟨hq, hle.trans hlt.le, ?_⟩
      simp only [List.mem_cons, forall_eq_or_imp]
      exact ⟨hle, hl⟩
    · rw [if_neg hlt] at h
      obtain ⟨hq, hle, hl⟩ := ih hp h
      refine ⟨hq, hle, ?_⟩
      simp only [List.mem_cons, forall_eq_or_imp]
      exact ⟨hle.trans (not_lt.mp hlt), hl⟩

theorem scanMin_none_least {α β : Type*} [LinearOrder β] [DecidableLT β] (score : α → β) {q : α × β}
    {l : List α} (h : scanMin score none l = some q) : q.2 = score q.1 ∧ ∀ a ∈ l, q.2 ≤ score a := by
  cases l with
  | nil => cases h
  | cons a l =>
    obtain ⟨hq, hle, hl⟩ := scanMin_some_least (p := (a, score a)) score rfl h
    refine ⟨hq, ?_⟩
    simp only [List.mem_cons, forall_eq_or_imp]
    exact ⟨hle, hl⟩

theorem scanMin_stays {α β : Type*} [LinearOrder β] [DecidableLT β] (score : α → β) {a : α}
    {l : List α} (h : ∀ x ∈ l, score a ≤ score x) :
    scanMin score (some (a, score a)) l = some (a, score a) := by
  induction l with
  | nil => rfl
  | cons x l ih =>
    have hx := h x (List.mem_cons_self ..)
    rw [scanMin, List.foldl_cons, better, if_neg (not_lt.mpr hx)]
    exact ih fun y hy => h y (List.mem_cons_of_mem _ hy)

theorem scanMin_first {α β : Type*} [LinearOrder β] [DecidableLT β] (score : α → β) {a : α}
    {l l' : List α} (hl : ∀ x ∈ l, score a < score x) (hl' : ∀ x ∈ l', score a ≤ score x) :
    scanMin score none (l ++ a :: l') = some (a, score a) := by
  have hbetter : better score (scanMin score none l) a = some (a, score a) := by
    by_cases hnil : l = []
    · rw [hnil]
      rfl
    · obtain ⟨q, hq, hm⟩ := scanMin_none score hnil
      have hscore := (scanMin_none_least score hq).1
      rw [hq, better, if_pos]
      rw [hscore]
      exact hl q.1 hm
  rw [scanMin, List.foldl_append, List.foldl_cons]
  change scanMin score (better score (scanMin score none l) a) l' = _
  rw [hbetter]
  exact scanMin_stays score hl'

variable {α : Type*} {s : List α} {w : α → ℚ} {c c' : α → ℕ}

def Levelled (s : List α) (w : α → ℚ) (c : α → ℕ) : Prop :=
  ∀ i ∈ s, ∀ j ∈ s, 1 ≤ c i → ((c i : ℚ) - 1) / w i ≤ c j / w j

theorem levelled_zero (s : List α) (w : α → ℚ) : Levelled s w fun _ => 0 := by
  intro i _ j _ h
  simp at h

theorem Levelled.give [DecidableEq α] (h : Levelled s w c) (hw : ∀ i ∈ s, 0 < w i) {a : α}
    (hleast : ∀ j ∈ s, (c a : ℚ) / w a ≤ c j / w j) (hc : ∀ i, c' i = c i + if i = a then 1 else 0) :
    Levelled s w c' := by
  intro i hi j hj hone
  have hgrow : (c j : ℚ) / w j ≤ c' j / w j := by
    have hle : c j ≤ c' j := by
      rw [hc]
      exact Nat.le_add_right _ _
    have := hw j hj
    gcongr
  apply le_trans _ hgrow
  by_cases hia : i = a
  · subst hia
    rw [hc i, if_pos rfl]
    push_cast
    rw [add_sub_cancel_right]
    exact hleast j hj
  · rw [hc i, if_neg hia, add_zero] at hone ⊢
    exact h i hi j hj hone

theorem Levelled.sub_le (h : Levelled s w c) (hw : ∀ i ∈ s, 0 < w i) {i j : α} (hi : i ∈ s)
    (hj : j ∈ s) :
    (c i : ℚ) / w i - c j / w j ≤ 1 / min (w i) (w j) := by
  have hwi := hw i hi
  have hwj := hw j hj
  have hmin : 1 / w i ≤ 1 / min (w i) (w j) := by
    apply one_div_le_one_div_of_le
    · exact lt_min hwi hwj
    · exact min_le_left _ _
  by_cases hone : 1 ≤ c i
  · have := h i hi j hj hone
    rw [sub_div] at this
    linarith
  · have hzero : c i = 0 := by omega
    have hnonneg : 0 ≤ (c j : ℚ) / w j := by positivity
    have hpos : 0 < 1 / w i := by positivity
    rw [hzero, Nat.cast_zero, zero_div]
    linarith

theorem Levelled.near
    (h : Levelled s w c) (hw : ∀ i ∈ s, 0 < w i) {i j : α} (hi : i ∈ s) (hj : j ∈ s) :
    |(c i : ℚ) / w i - c j / w j| ≤ 1 / min (w i) (w j) := by
  rw [abs_le]
  have hback := h.sub_le hw hj hi
  rw [min_comm] at hback
  constructor
  · linarith
  · exact h.sub_le hw hi hj

end ReverseProxyLb.Lib

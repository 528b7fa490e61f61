import Mathlib.Tactic

/-! Keys listed by their last use. A history lists the uses with the latest first. -/
namespace ReverseProxyLb.Lib

variable {κ : Type*} [DecidableEq κ]

/-- The keys all occur in the history, the more recently used first. -/
structure ByRecency (uses keys : List κ) : Prop where
  used : ∀ k ∈ keys, k ∈ uses
  sorted : keys.Pairwise fun a b => uses.idxOf a < uses.idxOf b

namespace ByRecency
variable {uses keys keys' : List κ}

protected theorem nil : ByRecency uses ([] : List κ) := ⟨by simp, List.Pairwise.nil⟩

theorem sublist (h : ByRecency uses keys) (hs : keys'.Sublist keys) : ByRecency uses keys' :=
  ⟨fun k hk => h.used k (hs.subset hk), h.sorted.sublist hs⟩

theorem use (h : ByRecency uses keys) (k : κ) :
    ByRecency (k :: uses) (k :: keys.filter (· ≠ k)) := by
  constructor
  · intro a ha
    rcases List.mem_cons.mp ha with rfl | ha
    · exact List.mem_cons_self ..
    · exact List.mem_cons_of_mem _ (h.used a (List.mem_of_mem_filter ha))
  · have hne : ∀ a ∈ keys.filter (· ≠ k), k ≠ a := by
      intro a ha
      exact (of_decide_eq_true (List.mem_filter.mp ha).2).symm
    rw [List.pairwise_cons]
    constructor
    · intro a ha
      rw [List.idxOf_cons_self, List.idxOf_cons_ne _ (hne a ha)]
      exact Nat.succ_pos _
    · apply (h.sorted.filter _).imp_of_mem
      intro a b ha hb hlt
      rw [List.idxOf_cons_ne _ (hne a ha), List.idxOf_cons_ne _ (hne b hb)]
      exact Nat.succ_lt_succ hlt

theorem drop_lt_take (h : ByRecency uses keys) (n : ℕ) {a b : κ} (ha : a ∈ keys.take n)
    (hb : b ∈ keys.drop n) : uses.idxOf a < uses.idxOf b := by
  have hs := h.sorted
  rw [← List.take_append_drop n keys, List.pairwise_append] at hs
  exact hs.2.2 a ha b hb

end ByRecency

theorem mem_take_filter_iff {α : Type*} {l : List α} (hl : l.Nodup) {p : α → Bool} {n : ℕ}
    (hlen : l.length ≤ n + 1) {d : α} (hd : d ∈ l) :
    d ∈ (l.filter p).take n ↔
      ¬ (p d = false ∨ (∀ a ∈ l, p a = true) ∧ l.length = n + 1 ∧ l.getLast? = some d) := by
  by_cases hp : p d = true
  · simp only [hp, Bool.true_eq_false, false_or]
    by_cases hall : ∀ a ∈ l, p a = true
    · rw [List.filter_eq_self.mpr hall]
      by_cases hfull : l.length = n + 1
      · simp only [hfull, true_and, not_and]
        obtain ⟨front, last, rfl⟩ : ∃ front last, l = front ++ [last] := by
          have hne : l ≠ [] := List.ne_nil_of_mem hd
          exact ⟨l.dropLast, l.getLast hne, (List.dropLast_append_getLast hne).symm⟩
        have hn : n = front.length := by
          rw [List.length_append, List.length_singleton] at hfull
          omega
        rw [hn, List.take_left, List.getLast?_concat, Option.some_inj]
        constructor
        · rintro hmem - rfl
          exact (List.nodup_append.mp hl).2.2 last hmem last (List.mem_singleton_self last) rfl
        · intro hnot
          refine (List.mem_append.mp hd).resolve_right fun hlast => ?_
          exact hnot hall (List.mem_singleton.mp hlast).symm
      · rw [List.take_of_length_le (by omega)]
        simp [hd, hfull]
    · have hlt : (l.filter p).length < l.length := by
        rw [List.length_filter_lt_length_iff_exists]
        simpa using hall
      rw [List.take_of_length_le (by omega)]
      simp [hd, hp, hall]
  · rw [Bool.not_eq_true] at hp
    simp only [hp, true_or, not_true_eq_false, iff_false]
    intro hmem
    have := (List.mem_filter.mp (List.mem_of_mem_take hmem)).2
    rw [hp] at this
    cases this

end ReverseProxyLb.Lib

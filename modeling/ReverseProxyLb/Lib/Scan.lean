import Mathlib.Tactic

/-! A left-to-right scan for the first element of least score, as a loop that
keeps the best element seen so far. -/
namespace ReverseProxyLb.Lib

variable {α β : Type*} [LT β] [DecidableLT β]

def better (score : α → β) (best : Option (α × β)) (a : α) : Option (α × β) :=
  match best with
  | none => some (a, score a)
  | some (b, s) => if score a < s then some (a, score a) else some (b, s)

def scanMin (score : α → β) (best : Option (α × β)) (l : List α) : Option (α × β) :=
  l.foldl (better score) best

theorem better_eq_some (score : α → β) (best : Option (α × β)) (a : α) :
    ∃ p, better score best a = some p ∧ (p.1 = a ∨ best = some p) := by
  unfold better
  split
  · exact ⟨_, rfl, .inl rfl⟩
  · split_ifs
    · exact ⟨_, rfl, .inl rfl⟩
    · exact ⟨_, rfl, .inr rfl⟩

theorem scanMin_some (score : α → β) (p : α × β) (l : List α) :
    ∃ q, scanMin score (some p) l = some q ∧ (q.1 = p.1 ∨ q.1 ∈ l) := by
  induction l generalizing p with
  | nil => exact ⟨p, rfl, .inl rfl⟩
  | cons a l ih =>
    obtain ⟨q, hq, hqa⟩ := better_eq_some score (some p) a
    obtain ⟨r, hr, hrl⟩ := ih q
    refine ⟨r, by rw [scanMin, List.foldl_cons, hq]; exact hr, ?_⟩
    rcases hrl with hrq | hrl
    · rcases hqa with hqa | hqp
      · exact .inr (by rw [hrq, hqa]; exact List.mem_cons_self ..)
      · obtain rfl : p = q := Option.some.inj hqp
        exact .inl hrq
    · exact .inr (List.mem_cons_of_mem _ hrl)

theorem scanMin_none (score : α → β) {l : List α} (h : l ≠ []) :
    ∃ q, scanMin score none l = some q ∧ q.1 ∈ l := by
  obtain ⟨a, l, rfl⟩ := List.exists_cons_of_ne_nil h
  obtain ⟨q, hq, hqa⟩ := scanMin_some score (a, score a) l
  refine ⟨q, hq, ?_⟩
  rcases hqa with rfl | hm
  · exact List.mem_cons_self ..
  · exact List.mem_cons_of_mem _ hm

end ReverseProxyLb.Lib

import Mathlib.Data.List.AList
import Mathlib.Data.List.Perm.Subperm
import Mathlib.Tactic

/-! A map from keys to the elements of a list, built by one insertion for each element,
finds the last element with a key. -/
namespace ReverseProxyLb.Lib

variable {α κ : Type} [DecidableEq κ] {key : α → κ} {l : List α} {k : κ} {x : α}

def lastWith (key : α → κ) (k : κ) (l : List α) : Option α := (l.filter fun x => key x = k).getLast?

theorem lastWith_concat (key : α → κ) (k : κ) (l : List α) (x : α) :
    lastWith key k (l ++ [x]) = if key x = k then some x else lastWith key k l := by
  unfold lastWith
  by_cases hx : key x = k
  · simp [hx]
  · simp [hx]

theorem mem_of_lastWith (h : lastWith key k l = some x) : x ∈ l ∧ key x = k := by
  have hx := List.mem_of_getLast? h
  simpa using hx

theorem lastWith_eq_none : lastWith key k l = none ↔ k ∉ l.map key := by
  simp [lastWith]

theorem lastWith_of_nodup (h : (l.map key).Nodup) (hx : x ∈ l) : lastWith key (key x) l = some x := by
  cases hlast : lastWith key (key x) l with
  | none => exact absurd (List.mem_map_of_mem hx) (lastWith_eq_none.mp hlast)
  | some y =>
    obtain ⟨hy, hkey⟩ := mem_of_lastWith hlast
    rw [List.inj_on_of_nodup_map h hy hx hkey]

theorem exists_lastWith (h : k ∈ l.map key) : ∃ x, lastWith key k l = some x := by
  apply Option.ne_none_iff_exists'.mp
  intro hnone
  exact lastWith_eq_none.mp hnone h

theorem lookup_foldl_insert {β : Type} (key : α → κ) (val : α → β) (k : κ) (l : List α) :
    (l.foldl (fun e x => e.insert (key x) (val x)) (∅ : AList fun _ : κ => β)).lookup k =
      (lastWith key k l).map val := by
  induction l using List.reverseRecOn with
  | nil => rfl
  | append_singleton l x ih =>
    rw [List.foldl_concat, lastWith_concat]
    by_cases hx : key x = k
    · subst hx
      rw [if_pos rfl, AList.lookup_insert]
      rfl
    · rw [if_neg hx, AList.lookup_insert_ne (Ne.symm hx), ih]

def index (key : α → κ) (l : List α) : AList fun _ : κ => α :=
  l.foldl (fun e x => e.insert (key x) x) ∅

theorem lookup_index (key : α → κ) (k : κ) (l : List α) :
    (index key l).lookup k = lastWith key k l := by
  apply (lookup_foldl_insert key id k l).trans
  exact Option.map_id_apply ..

end ReverseProxyLb.Lib

import ReverseProxyLb.Lib.Pool

/-! Events change what a pool holds of something, and a forked thread takes a share over
from its parent. Whatever the schedule, the pool holds the sum of what its threads hold. -/
namespace ReverseProxyLb.Lib
open Pool

variable {Op : Type} {Ans : Op → Type} {τ ν α M G G' : Type}

section Additive
variable [AddCommMonoid M] (D : Discipline Op Ans τ ν G) (D' : Discipline Op Ans τ ν G')
  {proj : G → M} {proj' : G' → M} {f : Event Op Ans τ ν → M}

theorem Discipline.fold_additive (h : ∀ g e, proj (D.upd g e) = proj g + f e) (g : G)
    (evs : List (Event Op Ans τ ν)) : proj (D.fold g evs) = proj g + (evs.map f).sum := by
  induction evs generalizing g with
  | nil => simp
  | cons e evs ih =>
    change proj (D.fold (D.upd g e) evs) = _
    rw [ih, h, List.map_cons, List.sum_cons, add_assoc]

theorem Pool.sum_fold [DecidableEq Op] (h : ∀ g e, proj (D.upd g e) = proj g + f e)
    (h' : ∀ g e, proj' (D'.upd g e) = proj' g + f e) (g₀ : G) (g' : τ → G')
    {body : τ → Prog Op Ans τ ν Unit} {s : Pool Op Ans τ ν α} {p₀ : Prog Op Ans τ ν α}
    {ls : List (Label Op Ans)} (hrun : exec (step body) { main := p₀ } ls = some s) :
    proj (D.fold g₀ (localLog none s.log)) +
        ∑ i : Fin s.spawned.length, proj' (D'.fold (g' s.spawned[i].1) (localLog (some i) s.log)) =
      proj g₀ + ∑ i : Fin s.spawned.length, proj' (g' s.spawned[i].1) +
        (s.log.map fun x => f x.2).sum := by
  rw [sum_localLog f s.spawned.length s.log (known_run hrun), D.fold_additive h,
    Finset.sum_range]
  simp only [D'.fold_additive h', Finset.sum_add_distrib]
  abel

end Additive

theorem Pool.sum_delta {ι : Type} {delta : Event Op Ans τ ν → ι → ℤ}
    {raises lowers : Event Op Ans τ ν → Bool} {i : ι}
    (h : ∀ e, delta e i = (if raises e then 1 else 0) - (if lowers e then 1 else 0))
    (log : List (Entry Op Ans τ ν)) :
    (log.map fun x => delta x.2).sum i = total raises log - total lowers log := by
  induction log with
  | nil => rfl
  | cons x log ih =>
    rw [← List.singleton_append, total_append, total_append, total_singleton, total_singleton,
      List.map_append, List.sum_append, Pi.add_apply, ih, List.map_singleton, List.sum_singleton, h]
    push_cast
    ring

structure Account (Op : Type) (Ans : Op → Type) (τ ν M : Type) where
  /-- What an event adds to the holdings of the pool. -/
  delta : Event Op Ans τ ν → M
  /-- What a forked thread takes over. -/
  carry : τ → M

namespace Account
variable [AddCommGroup M] (A : Account Op Ans τ ν M)

def change (e : Event Op Ans τ ν) : M := A.delta e - (e.forked.map A.carry).sum

variable [DecidableEq Op] {body : τ → Prog Op Ans τ ν Unit} {s s' : Pool Op Ans τ ν α}

theorem forked_step {l : Label Op Ans} (hs : step body s l = some s')
    (hi : s.log.flatMap (fun x => x.2.forked) = s.spawned.map Prod.fst) :
    s'.log.flatMap (fun x => x.2.forked) = s'.spawned.map Prod.fst := by
  obtain ⟨-, hst⟩ := steps_of_step hs
  cases hst with
  | main hm hr => simp [record, hi, Function.comp_def]
  | @spawned i t e p p' hsp hm hr =>
    have hset : (s.spawned.set i (t, p')).map Prod.fst = s.spawned.map Prod.fst := by
      have ht : (s.spawned.map Prod.fst)[i]? = some t := by simp [hsp]
      obtain ⟨hlt, hget⟩ := List.getElem?_eq_some_iff.mp ht
      rw [List.map_set, ← hget, List.set_getElem_self]
    simp [record, hi, hset, Function.comp_def]
  | crash hsp => exact hi

variable {p₀ : Prog Op Ans τ ν α} {ls : List (Label Op Ans)}

theorem forked_run (hrun : exec (step body) { main := p₀ } ls = some s) :
    s.log.flatMap (fun x => x.2.forked) = s.spawned.map Prod.fst :=
  exec_keeps (fun _ _ _ hi hs => forked_step hs hi) hrun rfl

theorem sum_carry (hrun : exec (step body) { main := p₀ } ls = some s) :
    (s.log.map fun x => (x.2.forked.map A.carry).sum).sum =
      ∑ i : Fin s.spawned.length, A.carry s.spawned[i].1 := by
  have hsum : ∀ log : List (Entry Op Ans τ ν), (log.map fun x => (x.2.forked.map A.carry).sum).sum =
      ((log.flatMap fun x => x.2.forked).map A.carry).sum := by
    intro log
    induction log with
    | nil => rfl
    | cons x log ih => simp [ih]
  rw [hsum, forked_run hrun, List.map_map, ← Fin.sum_univ_fun_getElem]
  rfl

theorem balance (D : Discipline Op Ans τ ν G) (D' : Discipline Op Ans τ ν G') {proj : G → M}
    {proj' : G' → M} (h : ∀ g e, proj (D.upd g e) = proj g + A.change e)
    (h' : ∀ g e, proj' (D'.upd g e) = proj' g + A.change e) (g₀ : G) (g' : τ → G')
    (hcarry : ∀ t, proj' (g' t) = A.carry t) (hrun : exec (step body) { main := p₀ } ls = some s) :
    proj (D.fold g₀ (localLog none s.log)) +
        ∑ i : Fin s.spawned.length, proj' (D'.fold (g' s.spawned[i].1) (localLog (some i) s.log)) =
      proj g₀ + (s.log.map fun x => A.delta x.2).sum := by
  have hsplit : (s.log.map fun x => A.delta x.2).sum =
      (s.log.map fun x => A.change x.2).sum +
        (s.log.map fun x => (x.2.forked.map A.carry).sum).sum := by
    rw [← List.sum_map_add]
    simp [change]
  rw [sum_fold D D' h h' g₀ g' hrun, hsplit, A.sum_carry hrun]
  simp only [hcarry]
  abel

end Account
end ReverseProxyLb.Lib

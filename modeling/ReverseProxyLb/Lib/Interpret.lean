import ReverseProxyLb.Lib.Confine

/-! A program becomes one over other operations when each operation is carried out by a
program of its own. Confinement carries over, and along a run it is a fact about every event
of the log. -/
namespace ReverseProxyLb.Lib
open Prog Pool

variable {Op Op' : Type} {Ans : Op → Type} {Ans' : Op' → Type} {τ τ' ν α β : Type}

/-- Carry out each operation by `h`, and fork threads under their new names. -/
def Prog.interpret (h : (o : Op) → Prog Op' Ans' τ' ν (Ans o)) (f : τ → τ') :
    Prog Op Ans τ ν α → Prog Op' Ans' τ' ν α
  | .ret a => .ret a
  | .panic => .panic
  | .diverge => .diverge
  | .op o k => h o >>= fun a => (k a).interpret h f
  | .fork t k => .fork (f t) (k.interpret h f)
  | .send v k => .send v (k.interpret h f)
  | .recv k => .recv fun v => (k v).interpret h f
  | .select k => .select fun v => (k v).interpret h f

def Prog.solo {σ : Type*} (answer : (o : Op) → σ → Outcome (Ans o) × σ) :
    Prog Op Ans τ ν α → σ → Option (Outcome α × σ)
  | .ret a, s => some (.returned a, s)
  | .panic, s => some (.panicked, s)
  | .op o k, s =>
    match answer o s with
    | (.returned a, s) => (k a).solo answer s
    | (.panicked, s) => some (.panicked, s)
  | .diverge, _ | .fork _ _, _ | .send _ _, _ | .recv _, _ | .select _, _ => none

theorem Prog.solo_perform {σ : Type*} (answer : (o : Op) → σ → Outcome (Ans o) × σ) (o : Op) (s : σ) :
    (Prog.perform o : Prog Op Ans τ ν (Ans o)).solo answer s = some (answer o s) := by
  unfold Prog.perform Prog.solo
  split
  · next h =>
    rw [h]
    rfl
  · next h => rw [h]

theorem Confined.interpret {R E : Event Op Ans τ ν → Prop} {R' E' : Event Op' Ans' τ' ν → Prop}
    {Q : α → Prop} {h : (o : Op) → Prog Op' Ans' τ' ν (Ans o)} {f : τ → τ'} {p : Prog Op Ans τ ν α}
    (hans : ∀ o, ∃ a, R (.env o a))
    (hop : ∀ o a, R (.env o a) → E (.env o a) → Confined R' E' (fun a => R (.env o a)) (h o))
    (hfork : ∀ t, E (.fork t) → E' (.fork (f t))) (hsend : ∀ v, E' (.send v))
    (hrecv : ∀ v, E' (.recv v)) (htimeout : E' .timeout) (hp : Confined R E Q p) :
    Confined R' E' Q (p.interpret h f) := by
  induction p with
  | ret a => exact hp
  | panic | diverge => trivial
  | op o k ih =>
    obtain ⟨a, ha⟩ := hans o
    exact (hop o a ha (hp a ha).1).bind fun a' ha' => ih a' (hp a' ha').2
  | fork t k ih => exact ⟨hfork t hp.1, ih hp.2⟩
  | send v k ih => exact ⟨hsend v, ih hp.2⟩
  | recv k ih => exact fun v => ⟨hrecv v, ih v (hp v).2⟩
  | select k ih => exact ⟨⟨htimeout, ih none hp.1.2⟩, fun v => ⟨hrecv v, ih (some v) (hp.2 v).2⟩⟩

theorem Confined.moves {R E : Event Op Ans τ ν → Prop} {Q : β → Prop} {p p' : Prog Op Ans τ ν β}
    {e : Event Op Ans τ ν} (h : Confined R E Q p) (hm : Moves p e p') (hR : R e) :
    E e ∧ Confined R E Q p' := by
  cases hm with
  | op o k a => exact h a hR
  | fork t k => exact h
  | send v k => exact h
  | recv k v => exact h v
  | select k v => exact h.2 v
  | timeout k => exact h.1

variable [DecidableEq Op] {body : τ → Prog Op Ans τ ν Unit} {s s' s₀ : Pool Op Ans τ ν α}

namespace Pool

theorem log_step {l : Label Op Ans} (hs : step body s l = some s') :
    s'.log = s.log ∨ ∃ x, s'.log = s.log ++ [x] := by
  obtain ⟨-, hst⟩ := steps_of_step hs
  cases hst with
  | main hm hr => exact .inr ⟨_, rfl⟩
  | spawned hi hm hr => exact .inr ⟨_, rfl⟩
  | crash hi => exact .inl rfl

theorem log_run {ls : List (Label Op Ans)} (hrun : exec (step body) s₀ ls = some s) :
    ∃ log, s.log = s₀.log ++ log := by
  have hstep : ∀ (s : Pool Op Ans τ ν α) l s', (∃ log, s.log = s₀.log ++ log) →
      step body s l = some s' →
      ∃ log, s'.log = s₀.log ++ log := by
    rintro s l s' ⟨log, hlog⟩ hs
    rcases log_step hs with h | ⟨x, h⟩
    · exact ⟨log, h.trans hlog⟩
    · exact ⟨log ++ [x], by rw [h, hlog, List.append_assoc]⟩
  exact exec_keeps hstep hrun ⟨[], (List.append_nil _).symm⟩

theorem log_reached {ls : List (Label Op Ans)} (hrun : exec (step body) s₀ ls = some s)
    {log : List (Entry Op Ans τ ν)} (hlog : s₀.log ++ log <+: s.log) :
    ∃ ls' s', exec (step body) s₀ ls' = some s' ∧ s'.log = s₀.log ++ log := by
  have hstep : ∀ ls s l s', exec (step body) s₀ ls = some s → step body s l = some s' →
      (∀ log, s₀.log ++ log <+: s.log → ∃ ls' s', exec (step body) s₀ ls' = some s' ∧
        s'.log = s₀.log ++ log) →
      ∀ log, s₀.log ++ log <+: s'.log → ∃ ls' s', exec (step body) s₀ ls' = some s' ∧
        s'.log = s₀.log ++ log := by
    intro ls s l s' hreach hs hi log hpre
    have hreach' : exec (step body) s₀ (ls ++ [l]) = some s' := by
      simp [exec_append, hreach, exec_cons, hs]
    rcases log_step hs with h | ⟨x, h⟩
    · rw [h] at hpre
      exact hi log hpre
    · rw [h, List.prefix_concat_iff] at hpre
      rcases hpre with hpre | hpre
      · exact ⟨_, s', hreach', h.trans hpre.symm⟩
      · exact hi log hpre
  refine exec_reached hstep hrun (fun log hpre => ⟨[], s₀, rfl, ?_⟩) log hlog
  exact List.prefix_append _ _ |>.eq_of_length (by have := hpre.length_le; simp at this ⊢; omega)

end Pool

section Confined
variable {R E : Event Op Ans τ ν → Prop}

theorem AllConfined.logged (hbody : ∀ t, E (.fork t) → Confined R E (fun _ => True) (body t))
    (h : AllConfined R E s) {l : Label Op Ans} (hs : Pool.step body s l = some s') :
    (s'.log = s.log ∧ AllConfined R E s') ∨
      ∃ x, s'.log = s.log ++ [x] ∧ (R x.2 → E x.2 ∧ AllConfined R E s') := by
  obtain ⟨-, hst⟩ := steps_of_step hs
  cases hst with
  | main hm hr =>
    refine .inr ⟨_, rfl, fun hR => ?_⟩
    obtain ⟨he, hp⟩ := h.main.moves hm hR
    refine ⟨he, hp, ?_⟩
    exact forall_mem_record_spawned h.spawned (confined_forked hbody he)
  | spawned hi hm hr =>
    refine .inr ⟨_, rfl, fun hR => ?_⟩
    obtain ⟨he, hp⟩ := (h.spawned _ (List.mem_of_getElem? hi)).moves hm hR
    refine ⟨he, h.main, ?_⟩
    exact forall_mem_record_spawned (forall_mem_set h.spawned hp) (confined_forked hbody he)
  | crash hi => exact .inl ⟨rfl, h.main, h.spawned⟩

theorem confined_log (hbody : ∀ t, E (.fork t) → Confined R E (fun _ => True) (body t))
    (h₀ : AllConfined R E s₀) {ls : List (Label Op Ans)} (hrun : exec (step body) s₀ ls = some s)
    {log : List (Entry Op Ans τ ν)} (hlog : s.log = s₀.log ++ log) (hR : ∀ x ∈ log, R x.2) :
    ∀ x ∈ log, E x.2 := by
  induction ls generalizing s₀ log with
  | nil =>
    obtain rfl : s₀ = s := Option.some.inj hrun
    obtain rfl : log = [] := by simpa using hlog
    simp
  | cons l ls ih =>
    obtain ⟨s₁, hs, hrest⟩ := exec_cons_eq_some hrun
    rcases h₀.logged hbody hs with ⟨hsame, h₁⟩ | ⟨x, hx, hmove⟩
    · exact ih h₁ hrest (hlog.trans (by rw [hsame])) hR
    · obtain ⟨log', hlog'⟩ := log_run hrest
      obtain rfl : log = x :: log' := by
        rw [hlog', hx, List.append_assoc] at hlog
        exact (List.append_cancel_left hlog).symm
      obtain ⟨hRx, hRlog⟩ := List.forall_mem_cons.mp hR
      obtain ⟨hEx, h₁⟩ := hmove hRx
      exact List.forall_mem_cons.mpr ⟨hEx, ih h₁ hrest hlog' hRlog⟩

end Confined

/-- The events so far as ghost state, all of them in `E`. -/
@[simps] def history (E : Event Op Ans τ ν → Prop) :
    Discipline Op Ans τ ν (List (Event Op Ans τ ν)) where
  upd g e := g ++ [e]
  inv g := ∀ e ∈ g, E e

theorem exec_bind {E : Event Op Ans τ ν → Prop} {Q : Outcome β → List (Event Op Ans τ ν) → Prop}
    (hE : ∀ e, E e → e.Performs fun _ => True) {p : Prog Op Ans τ ν β} {k : β → Prog Op Ans τ ν α}
    {log : List (Entry Op Ans τ ν)} (hp : Safe (fun _ => True) (history E) Q p (log.map Prod.snd))
    {ls : List (Label Op Ans)} (hrun : exec (step body) { main := p >>= k, log := log } ls = some s) :
    (∀ x ∈ s.log, E x.2) ∨ ∃ a log' ls', Q (.returned a) (log'.map Prod.snd) ∧ (∀ x ∈ log', E x.2) ∧
      exec (step body) { main := k a, log := log' } ls' = some s := by
  have hlog : ∀ {log : List (Entry Op Ans τ ν)}, (history E).inv (log.map Prod.snd) →
      ∀ x ∈ log, E x.2 :=
    fun h x hx => h _ (List.mem_map_of_mem hx)
  induction ls generalizing p log with
  | nil =>
    cases hrun
    exact .inl (hlog hp.inv)
  | cons l ls ih =>
    obtain ⟨s₁, hs, hrest⟩ := exec_cons_eq_some hrun
    have hlast : ∀ {e : Event Op Ans τ ν}, (history E).inv (log.map Prod.snd ++ [e]) → E e :=
      fun h => h _ (List.mem_append_right _ (List.mem_singleton_self _))
    cases p with
    | ret a => exact .inr ⟨a, log, l :: ls, hp.2, hlog hp.1, hrun⟩
    | diverge => exact hp.elim
    | fork t q => exact (hE _ (hlast hp.2.inv)).elim
    | send v q => exact (hE _ (hlast hp.2.inv)).elim
    | select q => exact (hE _ (hlast hp.2.1.inv)).elim
    | panic | recv =>
      obtain ⟨-, hst⟩ := steps_of_step hs
      cases hst with
      | spawned hi | crash hi => simp at hi
      | main hm hr => cases hm <;> simp [Event.Ready] at hr
    | op o q =>
      obtain ⟨-, hst⟩ := steps_of_step hs
      cases hst with
      | spawned hi | crash hi => simp at hi
      | main hm hr =>
        cases hm with
        | op o q a =>
          refine ih ?_ hrest
          simpa using hp.2 a trivial

end ReverseProxyLb.Lib

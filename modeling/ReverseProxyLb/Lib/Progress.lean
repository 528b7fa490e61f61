import ReverseProxyLb.Lib.Pool

/-! A pool whose forked threads do not fork has no infinite run, since every step descends
in the tree of some program. -/
namespace ReverseProxyLb.Lib
open Pool

variable {Op : Type} {Ans : Op → Type} {τ ν α β : Type}

def NoFork : Prog Op Ans τ ν β → Prop
  | .ret _ | .panic | .diverge => True
  | .op _ k => ∀ a, NoFork (k a)
  | .fork _ _ => False
  | .send _ k => NoFork k
  | .recv k => ∀ v, NoFork (k v)
  | .select k => ∀ v, NoFork (k v)

theorem NoFork.moves {p p' : Prog Op Ans τ ν β} {e : Event Op Ans τ ν} (h : NoFork p)
    (hm : Moves p e p') : NoFork p' ∧ e.forked = [] := by
  cases hm with
  | op o k a => exact ⟨h a, rfl⟩
  | fork t k => exact h.elim
  | send v k => exact ⟨h, rfl⟩
  | recv k v => exact ⟨h v, rfl⟩
  | select k v => exact ⟨h (some v), rfl⟩
  | timeout k => exact ⟨h none, rfl⟩

theorem NoFork.bind {γ : Type} {p : Prog Op Ans τ ν β} {f : β → Prog Op Ans τ ν γ} (hp : NoFork p)
    (hf : ∀ b, NoFork (f b)) : NoFork (p >>= f) := by
  change NoFork (p.bind f)
  induction p with
  | ret b => exact hf b
  | panic | diverge => trivial
  | op o k ih => exact fun a => ih a (hp a)
  | fork t k ih => exact hp.elim
  | send v k ih => exact ih hp
  | recv k ih => exact fun v => ih v (hp v)
  | select k ih => exact fun v => ih v (hp v)

def Descends (p' p : Prog Op Ans τ ν β) : Prop := ∃ e, Moves p e p'

theorem acc_descends (p : Prog Op Ans τ ν β) : Acc Descends p := by
  induction p with
  | ret | panic | diverge => exact ⟨_, fun _ ⟨_, hm⟩ => nomatch hm⟩
  | op o k ih => exact ⟨_, fun _ ⟨_, hm⟩ => by cases hm; exact ih _⟩
  | fork t k ih => exact ⟨_, fun _ ⟨_, hm⟩ => by cases hm; exact ih⟩
  | send v k ih => exact ⟨_, fun _ ⟨_, hm⟩ => by cases hm; exact ih⟩
  | recv k ih => exact ⟨_, fun _ ⟨_, hm⟩ => by cases hm; exact ih _⟩
  | select k ih => exact ⟨_, fun _ ⟨_, hm⟩ => by cases hm <;> exact ih _⟩

def OneDescends (l' l : List (τ × Prog Op Ans τ ν Unit)) : Prop :=
  ∃ i t p p', l[i]? = some (t, p) ∧ Descends p' p ∧ l' = l.set i (t, p')

theorem acc_oneDescends_cons {t : τ} {p : Prog Op Ans τ ν Unit} {l : List (τ × Prog Op Ans τ ν Unit)}
    (hp : Acc Descends p) (hl : Acc OneDescends l) : Acc OneDescends ((t, p) :: l) := by
  induction hp generalizing l with
  | intro p _ ihp =>
    induction hl with
    | intro l hacc ihl =>
      refine ⟨_, fun l' ⟨i, t', q, q', hi, hd, he⟩ => ?_⟩
      subst he
      cases i with
      | zero =>
        cases Option.some.inj hi
        exact ihp q' hd ⟨l, hacc⟩
      | succ i => exact ihl _ ⟨i, t', q, q', hi, hd, rfl⟩

theorem acc_oneDescends (l : List (τ × Prog Op Ans τ ν Unit)) : Acc OneDescends l := by
  induction l with
  | nil => exact ⟨_, fun _ ⟨_, _, _, _, hi, _⟩ => by simp at hi⟩
  | cons x l ih => exact acc_oneDescends_cons (acc_descends x.2) ih

variable [DecidableEq Op] {body : τ → Prog Op Ans τ ν Unit} {s s' : Pool Op Ans τ ν α}

def After (body : τ → Prog Op Ans τ ν Unit) (s' s : Pool Op Ans τ ν α) : Prop :=
  ∃ l, step body s l = some s'

theorem noFork_step (hbody : ∀ t, NoFork (body t)) (hs : ∀ x ∈ s.spawned, NoFork x.2)
    {l : Label Op Ans} (hstep : step body s l = some s') : ∀ x ∈ s'.spawned, NoFork x.2 := by
  obtain ⟨-, hst⟩ := steps_of_step hstep
  cases hst with
  | main hm hr => exact forall_mem_record_spawned hs fun t _ => hbody t
  | spawned hi hm hr =>
    have hnext := ((hs _ (List.mem_of_getElem? hi)).moves hm).1
    exact forall_mem_record_spawned (forall_mem_set hs hnext) fun t _ => hbody t
  | crash hi => exact hs

theorem acc_of_crashed (h : s.crashed) : Acc (After body) s :=
  ⟨_, fun _ ⟨_, hs⟩ => by simp [(steps_of_step hs).1] at h⟩

theorem acc_after (hbody : ∀ t, NoFork (body t)) (s : Pool Op Ans τ ν α)
    (hs : ∀ x ∈ s.spawned, NoFork x.2) : Acc (After body) s := by
  obtain ⟨p, sp, q, c, log⟩ := s
  induction acc_descends p generalizing sp q c log with
  | intro p _ ihp =>
    induction acc_oneDescends sp generalizing q c log with
    | intro sp _ ihsp =>
      refine ⟨_, fun s' ⟨l, hstep⟩ => ?_⟩
      obtain ⟨-, hst⟩ := steps_of_step hstep
      cases hst with
      | @main e p' hm hr => exact ihp p' ⟨e, hm⟩ _ _ _ _ (noFork_step hbody hs hstep)
      | @spawned i t e r r' hi hm hr =>
        have hkeep := noFork_step hbody hs hstep
        have hforked := ((hs _ (List.mem_of_getElem? hi)).moves hm).2
        simp only [record, hforked, List.map_nil, List.append_nil] at hkeep ⊢
        exact ihsp _ ⟨i, t, r, r', hi, ⟨e, hm⟩, rfl⟩ _ _ _ hkeep
      | crash hi => exact acc_of_crashed rfl

def Stuck (body : τ → Prog Op Ans τ ν Unit) (s : Pool Op Ans τ ν α) : Prop :=
  ∀ l, step body s l = none

def Resting (queue : List ν) : Prog Op Ans τ ν β → Prop
  | .ret _ | .panic | .diverge => True
  | .recv _ => queue = []
  | .op _ _ | .fork _ _ | .send _ _ | .select _ => False

theorem resting_of_advance (hans : ∀ o, Nonempty (Ans o)) {p : Prog Op Ans τ ν β} {q : List ν}
    (h : ∀ c, advance p q c = none) : Resting q p := by
  cases p with
  | ret | panic | diverge => trivial
  | op o k =>
    obtain ⟨a⟩ := hans o
    have := h (.answer o a)
    simp [advance] at this
  | fork t k => simpa [advance] using h .go
  | send v k => simpa [advance] using h .go
  | recv k =>
    cases q with
    | nil => rfl
    | cons v q => simpa [advance] using h .go
  | select k => simpa [advance] using h .timeout

theorem Stuck.main (hans : ∀ o, Nonempty (Ans o)) (h : Stuck body s) (hc : s.crashed = false) :
    Resting s.queue s.main := by
  refine resting_of_advance hans fun c => ?_
  have := h (.main c)
  simpa [step, hc] using this

theorem Stuck.spawned (hans : ∀ o, Nonempty (Ans o)) (h : Stuck body s) (hc : s.crashed = false)
    {i : ℕ} {t : τ} {p : Prog Op Ans τ ν Unit} (hi : s.spawned[i]? = some (t, p)) :
    Resting s.queue p ∧ p ≠ .panic := by
  refine ⟨resting_of_advance hans fun c => ?_, ?_⟩
  · have := h (.spawned i c)
    simpa [step, hc, hi] using this
  · rintro rfl
    have := h (.crash i)
    simp [step, hc, hi] at this

theorem stuck_of_crashed (hc : s.crashed) : Stuck body s := by
  intro l
  cases l <;> simp [step, hc]

theorem stuck_of_ended (hmain : ∀ e p, ¬ Moves s.main e p) (hsp : ∀ x ∈ s.spawned, x.2 = .ret ()) :
    Stuck body s := by
  intro l
  rw [Option.eq_none_iff_forall_ne_some]
  intro s' hs
  obtain ⟨-, hst⟩ := steps_of_step hs
  cases hst with
  | main hm hr => exact hmain _ _ hm
  | spawned hi hm hr =>
    have hret : _ = Prog.ret () := hsp _ (List.mem_of_getElem? hi)
    subst hret
    cases hm
  | crash hi => cases hsp _ (List.mem_of_getElem? hi)

end ReverseProxyLb.Lib

import ReverseProxyLb.Lib.Interpret

/-! `Ends` is partial correctness with ghost state that events update. In a pool the events
of all threads make it up, so the threads besides the main one have to leave it alone. -/
namespace ReverseProxyLb.Lib
open Prog Pool

variable {Op : Type} {Ans : Op → Type} {τ ν α β G : Type}

def Ends (D : Discipline Op Ans τ ν G) (Q : α → G → Prop) : Prog Op Ans τ ν α → G → Prop
  | .ret a, g => D.inv g ∧ Q a g
  | .panic, g | .diverge, g => D.inv g
  | .op o k, g => D.inv g ∧ ∀ a, Ends D Q (k a) (D.upd g (.env o a))
  | .fork t k, g => D.inv g ∧ Ends D Q k (D.upd g (.fork t))
  | .send v k, g => D.inv g ∧ Ends D Q k (D.upd g (.send v))
  | .recv k, g => D.inv g ∧ ∀ v, Ends D Q (k v) (D.upd g (.recv v))
  | .select k, g =>
    D.inv g ∧ Ends D Q (k none) (D.upd g .timeout) ∧ ∀ v, Ends D Q (k (some v)) (D.upd g (.recv v))

section Rules
variable {D : Discipline Op Ans τ ν G} {Q Q' : α → G → Prop} {p : Prog Op Ans τ ν α} {g : G}

theorem Ends.inv (h : Ends D Q p g) : D.inv g := by
  cases p with
  | panic | diverge => exact h
  | ret | op | fork | send | recv | select => exact h.1

theorem Ends.mono (hq : ∀ a g, D.inv g → Q a g → Q' a g) (h : Ends D Q p g) : Ends D Q' p g := by
  induction p generalizing g with
  | ret a => exact ⟨h.1, hq a g h.1 h.2⟩
  | panic | diverge => exact h
  | op o k ih => exact ⟨h.1, fun a => ih a (h.2 a)⟩
  | fork t k ih => exact ⟨h.1, ih h.2⟩
  | send v k ih => exact ⟨h.1, ih h.2⟩
  | recv k ih => exact ⟨h.1, fun v => ih v (h.2 v)⟩
  | select k ih => exact ⟨h.1, ih none h.2.1, fun v => ih (some v) (h.2.2 v)⟩

theorem ends_perform_bind {Q : β → G → Prop} {o : Op} {f : Ans o → Prog Op Ans τ ν β} :
    Ends D Q (perform o >>= f) g ↔ D.inv g ∧ ∀ a, Ends D Q (f a) (D.upd g (.env o a)) := Iff.rfl

theorem ends_bind {Q : β → G → Prop} {f : α → Prog Op Ans τ ν β} :
    Ends D Q (p >>= f) g ↔ Ends D (fun a g => Ends D Q (f a) g) p g := by
  change Ends D Q (p.bind f) g ↔ _
  induction p generalizing g with
  | ret a => exact ⟨fun h => ⟨h.inv, h⟩, fun h => h.2⟩
  | panic | diverge => exact Iff.rfl
  | op o k ih => exact and_congr_right fun _ => forall_congr' fun a => ih a
  | fork t k ih => exact and_congr_right fun _ => ih
  | send v k ih => exact and_congr_right fun _ => ih
  | recv k ih => exact and_congr_right fun _ => forall_congr' fun v => ih v
  | select k ih =>
    exact and_congr_right fun _ => and_congr (ih none) (forall_congr' fun v => ih (some v))

theorem Ends.deferring {d : Prog Op Ans τ ν Unit} (hd : ∀ g, D.inv g → Ends D (fun _ _ => True) d g)
    (h : Ends D (fun a g => Ends D (fun _ => Q a) d g) p g) : Ends D Q (deferring d p) g := by
  induction p generalizing g with
  | ret a => exact ends_bind.mpr (h.2.mono fun _ _ hi hq => ⟨hi, hq⟩)
  | panic => exact ends_bind.mpr ((hd g h).mono fun _ _ hi _ => hi)
  | diverge => exact h
  | op o k ih => exact ⟨h.1, fun a => ih a (h.2 a)⟩
  | fork t k ih => exact ⟨h.1, ih h.2⟩
  | send v k ih => exact ⟨h.1, ih h.2⟩
  | recv k ih => exact ⟨h.1, fun v => ih v (h.2 v)⟩
  | select k ih => exact ⟨h.1, ih none h.2.1, fun v => ih (some v) (h.2.2 v)⟩

theorem Confined.ends {E : Event Op Ans τ ν → Prop} {P : α → Prop}
    (h : Confined (fun _ => True) E P p) (hE : ∀ e, E e → D.upd g e = g) (hi : D.inv g)
    (hq : ∀ a, P a → Q a g) : Ends D Q p g := by
  induction p with
  | ret a => exact ⟨hi, hq a h⟩
  | panic | diverge => exact hi
  | op o k ih => exact ⟨hi, fun a => (hE _ (h a trivial).1).symm ▸ ih a (h a trivial).2⟩
  | fork t k ih =>
    change D.inv g ∧ Ends D Q k (D.upd g (.fork t))
    rw [hE _ h.1]
    exact ⟨hi, ih h.2⟩
  | send v k ih =>
    change D.inv g ∧ Ends D Q k (D.upd g (.send v))
    rw [hE _ h.1]
    exact ⟨hi, ih h.2⟩
  | recv k ih => exact ⟨hi, fun v => (hE _ (h v).1).symm ▸ ih v (h v).2⟩
  | select k ih =>
    exact ⟨hi, (hE _ h.1.1).symm ▸ ih none h.1.2, fun v =>
      (hE _ (h.2 v).1).symm ▸ ih (some v) (h.2 v).2⟩

theorem Confined.ends_keeps {I : G → Prop} {E : Event Op Ans τ ν → Prop} {P : α → Prop}
    (h : Confined (fun _ => True) E P p) (hE : ∀ g e, I g → E e → I (D.upd g e))
    (hinv : ∀ g, I g → D.inv g) (hi : I g) : Ends D (fun a g => P a ∧ I g) p g := by
  induction p generalizing g with
  | ret a => exact ⟨hinv g hi, h, hi⟩
  | panic | diverge => exact hinv g hi
  | op o k ih => exact ⟨hinv g hi, fun a => ih a (h a trivial).2 (hE g _ hi (h a trivial).1)⟩
  | fork t k ih => exact ⟨hinv g hi, ih h.2 (hE g _ hi h.1)⟩
  | send v k ih => exact ⟨hinv g hi, ih h.2 (hE g _ hi h.1)⟩
  | recv k ih => exact ⟨hinv g hi, fun v => ih v (h v).2 (hE g _ hi (h v).1)⟩
  | select k ih =>
    exact ⟨hinv g hi, ih none h.1.2 (hE g _ hi h.1.1), fun v =>
      ih (some v) (h.2 v).2 (hE g _ hi (h.2 v).1)⟩

end Rules

section Pool
variable [DecidableEq Op] {D : Discipline Op Ans τ ν G} {Q : α → G → Prop} {g₀ : G}
  {E : Event Op Ans τ ν → Prop} {body : τ → Prog Op Ans τ ν Unit} {s s' : Pool Op Ans τ ν α}

def Pool.ghost (upd : G → Event Op Ans τ ν → G) (g₀ : G) (s : Pool Op Ans τ ν α) : G :=
  (s.log.map Prod.snd).foldl upd g₀

omit [DecidableEq Op] in
theorem ghost_append {upd : G → Event Op Ans τ ν → G} {x : Entry Op Ans τ ν}
    (h : s'.log = s.log ++ [x]) :
    s'.ghost upd g₀ = upd (s.ghost upd g₀) x.2 := by
  simp [Pool.ghost, h]

omit [DecidableEq Op] in
theorem Ends.moves {p p' : Prog Op Ans τ ν α} {g : G} {e : Event Op Ans τ ν} (h : Ends D Q p g)
    (hm : Moves p e p') : Ends D Q p' (D.upd g e) := by
  cases hm with
  | op o k a => exact h.2 a
  | fork t k => exact h.2
  | send v k => exact h.2
  | recv k v => exact h.2 v
  | select k v => exact h.2.2 v
  | timeout k => exact h.2.1

/-- The main thread ends in `Q`, and the others keep to events in `E`. -/
structure Pool.OnTrack (D : Discipline Op Ans τ ν G) (Q : α → G → Prop) (E : Event Op Ans τ ν → Prop)
    (g₀ : G) (s : Pool Op Ans τ ν α) : Prop where
  main : Ends D Q s.main (s.ghost D.upd g₀)
  spawned : ∀ x ∈ s.spawned, Confined (fun _ => True) E (fun _ => True) x.2

theorem onTrack_step (hE : ∀ g e, E e → D.upd g e = g)
    (hbody : ∀ t, Confined (fun _ => True) E (fun _ => True) (body t)) (h : s.OnTrack D Q E g₀)
    {l : Label Op Ans} (hs : step body s l = some s') : s'.OnTrack D Q E g₀ := by
  obtain ⟨-, hst⟩ := steps_of_step hs
  cases hst with
  | main hm hr =>
    constructor
    · rw [ghost_append (s := s) rfl]
      exact h.main.moves hm
    · exact forall_mem_record_spawned h.spawned fun t _ => hbody t
  | spawned hi hm hr =>
    obtain ⟨he, hp⟩ := (h.spawned _ (List.mem_of_getElem? hi)).moves hm trivial
    constructor
    · rw [ghost_append (s := s) rfl, hE _ _ he]
      exact h.main
    · exact forall_mem_record_spawned (forall_mem_set h.spawned hp) fun t _ => hbody t
  | crash hi => exact ⟨h.main, h.spawned⟩

theorem onTrack_run (hE : ∀ g e, E e → D.upd g e = g)
    (hbody : ∀ t, Confined (fun _ => True) E (fun _ => True) (body t)) {p₀ : Prog Op Ans τ ν α}
    (h : Ends D Q p₀ g₀) {ls : List (Label Op Ans)}
    (hrun : exec (step body) { main := p₀ } ls = some s) : s.OnTrack D Q E g₀ :=
  exec_keeps (fun _ _ _ h hs => onTrack_step hE hbody h hs) hrun ⟨h, fun _ hx => nomatch hx⟩

theorem followed_ends {G' : Type} {D' : Discipline Op Ans τ ν G'} {Q' : τ → Unit → G' → Prop}
    {g' : τ → G'} (hbody : ∀ t, Ends D' (Q' t) (body t) (g' t)) {p₀ : Prog Op Ans τ ν α}
    (hmain : Ends D Q p₀ g₀) {ls : List (Label Op Ans)}
    (hrun : exec (step body) { main := p₀ } ls = some s) :
    Followed D (Ends D Q) g₀ D' (fun t => Ends D' (Q' t)) g' s :=
  exec_keeps (fun _ _ _ h hs =>
    followed_step (fun _ _ _ _ h hm => h.moves hm) (fun _ _ _ _ _ h hm => h.moves hm)
    hbody h hs) hrun ⟨hmain, by simp, by simp [localLog]⟩

theorem ends_main {p₀ : Prog Op Ans τ ν α} (hmain : Ends D Q p₀ g₀) {ls : List (Label Op Ans)}
    (hrun : exec (step body) { main := p₀ } ls = some s) :
    Ends D Q s.main (D.fold g₀ (localLog none s.log)) := by
  let unwatched : Discipline Op Ans τ ν Unit := ⟨fun u _ => u, fun _ => True⟩
  have hbody : ∀ t, Ends unwatched (fun _ _ => True) (body t) () := fun t =>
    (confined_trivial (body t)).ends (fun _ _ => rfl) trivial fun _ _ => trivial
  exact (followed_ends hbody hmain hrun).main

theorem Plays.run {upd : G → Event Op Ans τ ν → G} {Ok : (o : Op) → Ans o → Prop}
    {p : Prog Op Ans τ ν α} {g g' : G} {a : α}
    (h : Plays (fun g o a => some (upd g (.env o a))) Ok g p g' a) (body : τ → Prog Op Ans τ ν Unit)
    (hmain : s.main = p) (hc : s.crashed = false) (hg : s.ghost upd g₀ = g) :
    ∃ ls s', exec (step body) s ls = some s' ∧ s'.main = .ret a ∧ s'.ghost upd g₀ = g' ∧
      ∀ x ∈ s'.log, x ∈ s.log ∨ ∃ o a, x = (none, .env o a) ∧ Ok o a := by
  induction h generalizing s with
  | ret g a => exact ⟨[], s, rfl, hmain, hg, fun x hx => .inl hx⟩
  | @op g g₁ g₂ o k a res hok h hk ih =>
    let s₁ := record body { s with main := k a } none (.env o a)
    have hstep : step body s (.main (.answer o a)) = some s₁ := by
      simp [step, hc, hmain, advance, s₁]
    have hg₁ : s₁.ghost upd g₀ = g₁ := by
      rw [ghost_append (s := s) rfl, hg]
      exact Option.some.inj h
    obtain ⟨ls, s', hrun, hret, hend, hlog⟩ := ih (s := s₁) rfl hc hg₁
    refine ⟨.main (.answer o a) :: ls, s', ?_, hret, hend, ?_⟩
    · rw [exec_cons, hstep]
      exact hrun
    · intro x hx
      obtain hx | hx := hlog x hx
      · obtain hx | hx := List.mem_append.mp hx
        · exact .inl hx
        · rw [List.mem_singleton.mp hx]
          exact .inr ⟨o, a, rfl, hok⟩
      · exact .inr hx

end Pool
end ReverseProxyLb.Lib

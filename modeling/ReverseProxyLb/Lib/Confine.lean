import ReverseProxyLb.Lib.Progress

/-! `Confined` bounds what a program can do as long as the environment's answers are in `R`,
also where it is cut short by its fuel. `Plays` tells one way for the program to return. -/
namespace ReverseProxyLb.Lib
open Prog Pool

variable {Op : Type} {Ans : Op → Type} {τ ν α β σ G G' : Type}

def Confined (R E : Event Op Ans τ ν → Prop) (Q : α → Prop) : Prog Op Ans τ ν α → Prop
  | .ret a => Q a
  | .panic | .diverge => True
  | .op o k => ∀ a, R (.env o a) → E (.env o a) ∧ Confined R E Q (k a)
  | .fork t k => E (.fork t) ∧ Confined R E Q k
  | .send v k => E (.send v) ∧ Confined R E Q k
  | .recv k => ∀ v, E (.recv v) ∧ Confined R E Q (k v)
  | .select k =>
    (E .timeout ∧ Confined R E Q (k none)) ∧ ∀ v, E (.recv v) ∧ Confined R E Q (k (some v))

section Confined
variable {R E : Event Op Ans τ ν → Prop} {Q : α → Prop} {p : Prog Op Ans τ ν α}

theorem confined_perform {o : Op} (h : ∀ a, E (.env o a)) {Q : Ans o → Prop}
    (hq : ∀ a, R (.env o a) → Q a) : Confined R E Q (perform o : Prog Op Ans τ ν (Ans o)) :=
  fun a ha => ⟨h a, hq a ha⟩

theorem confined_trivial (p : Prog Op Ans τ ν α) : Confined R (fun _ => True) (fun _ => True) p := by
  induction p with
  | ret | panic | diverge => trivial
  | op o k ih => exact fun a _ => ⟨trivial, ih a⟩
  | fork t k ih => exact ⟨trivial, ih⟩
  | send v k ih => exact ⟨trivial, ih⟩
  | recv k ih => exact fun v => ⟨trivial, ih v⟩
  | select k ih => exact ⟨⟨trivial, ih none⟩, fun v => ⟨trivial, ih (some v)⟩⟩

theorem Confined.bind {Q' : β → Prop} {f : α → Prog Op Ans τ ν β} (hp : Confined R E Q p)
    (hf : ∀ a, Q a → Confined R E Q' (f a)) : Confined R E Q' (p >>= f) := by
  change Confined R E Q' (p.bind f)
  induction p with
  | ret a => exact hf a hp
  | panic | diverge => trivial
  | op o k ih => exact fun a ha => ⟨(hp a ha).1, ih a (hp a ha).2⟩
  | fork t k ih => exact ⟨hp.1, ih hp.2⟩
  | send v k ih => exact ⟨hp.1, ih hp.2⟩
  | recv k ih => exact fun v => ⟨(hp v).1, ih v (hp v).2⟩
  | select k ih => exact ⟨⟨hp.1.1, ih none hp.1.2⟩, fun v => ⟨(hp.2 v).1, ih (some v) (hp.2 v).2⟩⟩

theorem Confined.deferring {d : Prog Op Ans τ ν Unit} (hd : Confined R E (fun _ => True) d)
    (hp : Confined R E Q p) : Confined R E Q (deferring d p) := by
  induction p with
  | ret a => exact hd.bind fun _ _ => hp
  | panic => exact hd.bind fun _ _ => trivial
  | diverge => trivial
  | op o k ih => exact fun a ha => ⟨(hp a ha).1, ih a (hp a ha).2⟩
  | fork t k ih => exact ⟨hp.1, ih hp.2⟩
  | send v k ih => exact ⟨hp.1, ih hp.2⟩
  | recv k ih => exact fun v => ⟨(hp v).1, ih v (hp v).2⟩
  | select k ih => exact ⟨⟨hp.1.1, ih none hp.1.2⟩, fun v => ⟨(hp.2 v).1, ih (some v) (hp.2 v).2⟩⟩

theorem Confined.mono {R' E' : Event Op Ans τ ν → Prop} (hR : ∀ e, R' e → R e) (hE : ∀ e, E e → E' e)
    (h : Confined R E Q p) : Confined R' E' Q p := by
  induction p with
  | ret a => exact h
  | panic | diverge => trivial
  | op o k ih => exact fun a ha => ⟨hE _ (h a (hR _ ha)).1, ih a (h a (hR _ ha)).2⟩
  | fork t k ih => exact ⟨hE _ h.1, ih h.2⟩
  | send v k ih => exact ⟨hE _ h.1, ih h.2⟩
  | recv k ih => exact fun v => ⟨hE _ (h v).1, ih v (h v).2⟩
  | select k ih =>
    exact ⟨⟨hE _ h.1.1, ih none h.1.2⟩, fun v => ⟨hE _ (h.2 v).1, ih (some v) (h.2 v).2⟩⟩

theorem Confined.noFork (hE : ∀ t, ¬ E (.fork t)) (h : Confined (fun _ => True) E Q p) : NoFork p := by
  induction p with
  | ret | panic | diverge => trivial
  | op o k ih => exact fun a => ih a (h a trivial).2
  | fork t k ih => exact hE t h.1
  | send v k ih => exact ih h.2
  | recv k ih => exact fun v => ih v (h v).2
  | select k ih =>
    intro v
    cases v with
    | none => exact ih none h.1.2
    | some v => exact ih (some v) (h.2 v).2

theorem Confined.safe {D : Discipline Op Ans τ ν G} {D' : Discipline Op Ans τ ν G'} {g : G} {g' : G'}
    {P : Outcome α → G → Prop} {P' : Outcome α → G' → Prop} (h : Confined R E Q p)
    (hs : Safe R D P p g) (hE : ∀ e, E e → D'.upd g' e = g') (hi : D'.inv g')
    (hret : ∀ a, Q a → P' (.returned a) g') (hpanic : P' .panicked g') : Safe R D' P' p g' := by
  induction p generalizing g with
  | ret a => exact ⟨hi, hret a h⟩
  | panic => exact ⟨hi, hpanic⟩
  | diverge => exact hs.elim
  | op o k ih => exact ⟨hi, fun a ha => (hE _ (h a ha).1).symm ▸ ih a (h a ha).2 (hs.2 a ha)⟩
  | fork t k ih => exact ⟨hi, (hE _ h.1).symm ▸ ih h.2 hs.2⟩
  | send v k ih => exact ⟨hi, (hE _ h.1).symm ▸ ih h.2 hs.2⟩
  | recv k ih => exact ⟨hi, fun v hv => (hE _ (h v).1).symm ▸ ih v (h v).2 (hs.2 v hv)⟩
  | select k ih =>
    exact ⟨hi, (hE _ h.1.1).symm ▸ ih none h.1.2 hs.2.1,
      fun v hv => (hE _ (h.2 v).1).symm ▸ ih (some v) (h.2 v).2 (hs.2.2 v hv)⟩

theorem Within.confined {E' : Event Op Ans τ ν → Prop} (h : Within E' p) (hE : ∀ e, E' e → E e) :
    Confined R E (fun _ => True) p := by
  induction p with
  | ret a => trivial
  | panic | diverge => exact h.elim
  | op o k ih => exact fun a _ => ⟨hE _ (h a).1, ih a (h a).2⟩
  | fork t k ih => exact ⟨hE _ h.1, ih h.2⟩
  | send v k ih => exact ⟨hE _ h.1, ih h.2⟩
  | recv k ih => exact fun v => ⟨hE _ (h v).1, ih v (h v).2⟩
  | select k ih =>
    exact ⟨⟨hE _ h.1.1, ih none h.1.2⟩, fun v => ⟨hE _ (h.2 v).1, ih (some v) (h.2 v).2⟩⟩

end Confined

/-- The environment's part in a step, if it has one, is in `P`. -/
def Choice.Answers (P : Event Op Ans τ ν → Prop) : Choice Op Ans → Prop
  | .answer o a => P (.env o a)
  | .go | .timeout => True

def Label.Answers (P : Event Op Ans τ ν → Prop) : Label Op Ans → Prop
  | .main c | .spawned _ c => c.Answers P
  | .crash _ => True

theorem Label.Answers.mono {P P' : Event Op Ans τ ν → Prop} (hP : ∀ e, P e → P' e) {l : Label Op Ans}
    (h : l.Answers P) : l.Answers P' := by
  cases l with
  | main c | spawned i c =>
    cases c with
    | answer o a => exact hP _ h
    | go | timeout => trivial
  | crash i => trivial

section Steps
variable [DecidableEq Op] {R E : Event Op Ans τ ν → Prop} {body : τ → Prog Op Ans τ ν Unit}

theorem Confined.advance {Q : α → Prop} {p p' : Prog Op Ans τ ν α} {q : List ν} {c : Choice Op Ans}
    {e : Event Op Ans τ ν} (h : Confined R E Q p) (hc : c.Answers R)
    (ha : advance p q c = some (e, p')) :
    E e ∧ c.Answers E ∧ Confined R E Q p' := by
  unfold Lib.advance at ha
  split at ha
  · split_ifs at ha with ho
    subst ho
    cases ha
    have hop := h _ hc
    exact ⟨hop.1, hop.1, hop.2⟩
  · cases ha
    exact ⟨h.1, trivial, h.2⟩
  · cases ha
    exact ⟨h.1, trivial, h.2⟩
  · cases ha
    exact ⟨(h _).1, trivial, (h _).2⟩
  · cases ha
    exact ⟨(h.2 _).1, trivial, (h.2 _).2⟩
  · cases ha
    exact ⟨h.1.1, trivial, h.1.2⟩
  · cases ha

/-- Every thread of the pool is confined. -/
structure AllConfined (R E : Event Op Ans τ ν → Prop) (s : Pool Op Ans τ ν α) : Prop where
  main : Confined R E (fun _ => True) s.main
  spawned : ∀ x ∈ s.spawned, Confined R E (fun _ => True) x.2

omit [DecidableEq Op] in
theorem confined_forked (hbody : ∀ t, E (.fork t) → Confined R E (fun _ => True) (body t))
    {e : Event Op Ans τ ν} (he : E e) : ∀ t ∈ e.forked, Confined R E (fun _ => True) (body t) := by
  intro t ht
  cases e with
  | fork t' =>
    obtain rfl : t = t' := List.mem_singleton.mp ht
    exact hbody t he
  | env | send | recv | timeout => cases ht

theorem AllConfined.step {s s' : Pool Op Ans τ ν α} {l : Label Op Ans}
    (hbody : ∀ t, E (.fork t) → Confined R E (fun _ => True) (body t)) (h : AllConfined R E s)
    (hl : l.Answers R) (hs : Pool.step body s l = some s') :
    l.Answers E ∧ AllConfined R E s' ∧ ((∀ x ∈ s.log, E x.2) → ∀ x ∈ s'.log, E x.2) := by
  cases l with
  | main c =>
    simp only [Pool.step] at hs
    split_ifs at hs
    obtain ⟨⟨e, p⟩, hm, rfl⟩ := Option.map_eq_some_iff.mp hs
    obtain ⟨he, hc, hp⟩ := h.main.advance hl hm
    refine ⟨hc, ⟨hp, ?_⟩, fun hlog => forall_mem_record.mpr ⟨hlog, he⟩⟩
    exact forall_mem_record_spawned h.spawned (confined_forked hbody he)
  | spawned i c =>
    simp only [Pool.step] at hs
    split_ifs at hs
    split at hs
    · next t p hi =>
      obtain ⟨⟨e, p'⟩, hm, rfl⟩ := Option.map_eq_some_iff.mp hs
      obtain ⟨he, hc, hp⟩ := (h.spawned _ (List.mem_of_getElem? hi)).advance hl hm
      refine ⟨hc, ⟨h.main, ?_⟩, fun hlog => forall_mem_record.mpr ⟨hlog, he⟩⟩
      exact forall_mem_record_spawned (forall_mem_set h.spawned hp) (confined_forked hbody he)
    · cases hs
  | crash i =>
    simp only [Pool.step] at hs
    split_ifs at hs
    split at hs
    · cases hs
      exact ⟨trivial, ⟨h.main, h.spawned⟩, id⟩
    · cases hs

end Steps

section Plays
variable (answer : σ → (o : Op) → Ans o → Option σ) (Ok : (o : Op) → Ans o → Prop)

/-- Answered by the environment, and within `Ok`, the program can return `a`. -/
inductive Plays : σ → Prog Op Ans τ ν α → σ → α → Prop
  | ret (s : σ) (a : α) : Plays s (.ret a) s a
  | op {s s' s'' : σ} {o : Op} {k : Ans o → Prog Op Ans τ ν α} (a : Ans o) {r : α} (hok : Ok o a)
      (h : answer s o a = some s') (hk : Plays s' (k a) s'' r) : Plays s (.op o k) s'' r

variable {answer Ok} {s s' s'' : σ} {p : Prog Op Ans τ ν α} {a : α}

theorem plays_perform {o : Op} (a : Ans o) (hok : Ok o a) (h : answer s o a = some s') :
    Plays answer Ok s (perform o : Prog Op Ans τ ν (Ans o)) s' a :=
  .op a hok h (.ret s' a)

theorem Plays.bind {f : α → Prog Op Ans τ ν β} {b : β} (hp : Plays answer Ok s p s' a)
    (hf : Plays answer Ok s' (f a) s'' b) : Plays answer Ok s (p >>= f) s'' b := by
  change Plays answer Ok s (p.bind f) s'' b
  induction hp with
  | ret s a => exact hf
  | op a hok h hk ih => exact .op a hok h (ih hf)

theorem Plays.deferring {d : Prog Op Ans τ ν Unit} (hp : Plays answer Ok s p s' a)
    (hd : Plays answer Ok s' d s'' ()) : Plays answer Ok s (deferring d p) s'' a := by
  induction hp with
  | ret s a => exact hd.bind (.ret s'' a)
  | op a hok h hk ih => exact .op a hok h (ih hd)

end Plays
end ReverseProxyLb.Lib

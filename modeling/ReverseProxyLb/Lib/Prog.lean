import Mathlib.Tactic

/-! A program is a tree of requests to its environment; it may return, panic, or run out of fuel.
`Safe` is a weakest precondition with ghost state, whose invariant holds at every moment. -/
namespace ReverseProxyLb.Lib

variable {Op : Type} {Ans : Op → Type} {τ ν α β G : Type}

inductive Event (Op : Type) (Ans : Op → Type) (τ ν : Type) where
  | env (o : Op) (a : Ans o)
  | fork (t : τ)
  | send (v : ν)
  | recv (v : ν)
  | timeout

inductive Prog (Op : Type) (Ans : Op → Type) (τ ν α : Type) where
  | ret (a : α)
  | panic
  | diverge
  | op (o : Op) (k : Ans o → Prog Op Ans τ ν α)
  | fork (t : τ) (k : Prog Op Ans τ ν α)
  | send (v : ν) (k : Prog Op Ans τ ν α)
  | recv (k : ν → Prog Op Ans τ ν α)
  /-- Receive, or go on without a message when the timer fires. -/
  | select (k : Option ν → Prog Op Ans τ ν α)

namespace Prog

def bind : Prog Op Ans τ ν α → (α → Prog Op Ans τ ν β) → Prog Op Ans τ ν β
  | ret a, f => f a
  | panic, _ => panic
  | diverge, _ => diverge
  | op o k, f => op o fun a => (k a).bind f
  | fork t k, f => fork t (k.bind f)
  | send v k, f => send v (k.bind f)
  | recv k, f => recv fun v => (k v).bind f
  | select k, f => select fun v => (k v).bind f

instance : Monad (Prog Op Ans τ ν) where
  pure := ret
  bind := bind

def perform (o : Op) : Prog Op Ans τ ν (Ans o) := op o ret

/-- Run `d` when the program ends, also when it ends by a panic. -/
def deferring (d : Prog Op Ans τ ν Unit) : Prog Op Ans τ ν α → Prog Op Ans τ ν α
  | ret a => d.bind fun _ => ret a
  | panic => d.bind fun _ => panic
  | diverge => diverge
  | op o k => op o fun a => deferring d (k a)
  | fork t k => fork t (deferring d k)
  | send v k => send v (deferring d k)
  | recv k => recv fun v => deferring d (k v)
  | select k => select fun v => deferring d (k v)

def value? : Prog Op Ans τ ν α → Option α
  | ret a => some a
  | panic | diverge | op _ _ | fork _ _ | send _ _ | recv _ | select _ => none

theorem value?_eq_some {p : Prog Op Ans τ ν α} {a : α} : p.value? = some a ↔ p = ret a := by
  cases p <;> simp [value?]

end Prog

inductive Outcome (α : Type) where
  | returned (a : α)
  | panicked

/-- Ghost state: how events change it, and what must hold of it at every moment. -/
structure Discipline (Op : Type) (Ans : Op → Type) (τ ν G : Type) where
  upd : G → Event Op Ans τ ν → G
  inv : G → Prop

open Prog

/-- The program keeps the invariant and ends in `Q`, as long as the environment
keeps to `R`. -/
def Safe (R : Event Op Ans τ ν → Prop) (D : Discipline Op Ans τ ν G) (Q : Outcome α → G → Prop) :
    Prog Op Ans τ ν α → G → Prop
  | .ret a, g => D.inv g ∧ Q (.returned a) g
  | .panic, g => D.inv g ∧ Q .panicked g
  | .diverge, _ => False
  | .op o k, g => D.inv g ∧ ∀ a, R (.env o a) → Safe R D Q (k a) (D.upd g (.env o a))
  | .fork t k, g => D.inv g ∧ Safe R D Q k (D.upd g (.fork t))
  | .send v k, g => D.inv g ∧ Safe R D Q k (D.upd g (.send v))
  | .recv k, g => D.inv g ∧ ∀ v, R (.recv v) → Safe R D Q (k v) (D.upd g (.recv v))
  | .select k, g => D.inv g ∧ Safe R D Q (k none) (D.upd g .timeout) ∧
      ∀ v, R (.recv v) → Safe R D Q (k (some v)) (D.upd g (.recv v))

def Then (R : Event Op Ans τ ν → Prop) (D : Discipline Op Ans τ ν G) (Q : Outcome β → G → Prop)
    (f : α → Prog Op Ans τ ν β) : Outcome α → G → Prop
  | .returned a, g => Safe R D Q (f a) g
  | .panicked, g => Q .panicked g

section Rules
variable {R : Event Op Ans τ ν → Prop} {D : Discipline Op Ans τ ν G}
  {Q Q' : Outcome α → G → Prop} {g : G}

theorem Safe.inv {p : Prog Op Ans τ ν α} (h : Safe R D Q p g) : D.inv g := by
  cases p with
  | diverge => exact h.elim
  | ret | panic | op | fork | send | recv | select => exact h.1

theorem Safe.mono {p : Prog Op Ans τ ν α} (hq : ∀ out g, D.inv g → Q out g → Q' out g)
    (h : Safe R D Q p g) : Safe R D Q' p g := by
  induction p generalizing g with
  | ret a => exact ⟨h.1, hq _ _ h.1 h.2⟩
  | panic => exact ⟨h.1, hq _ _ h.1 h.2⟩
  | diverge => exact h
  | op o k ih => exact ⟨h.1, fun a ha => ih a (h.2 a ha)⟩
  | fork t k ih => exact ⟨h.1, ih h.2⟩
  | send v k ih => exact ⟨h.1, ih h.2⟩
  | recv k ih => exact ⟨h.1, fun v hv => ih v (h.2 v hv)⟩
  | select k ih => exact ⟨h.1, ih none h.2.1, fun v hv => ih (some v) (h.2.2 v hv)⟩

theorem safe_perform {o : Op} {Q : Outcome (Ans o) → G → Prop} :
    Safe R D Q (perform o) g ↔ D.inv g ∧ ∀ a, R (.env o a) →
      D.inv (D.upd g (.env o a)) ∧ Q (.returned a) (D.upd g (.env o a)) := Iff.rfl

theorem safe_bind {Q : Outcome β → G → Prop} {p : Prog Op Ans τ ν α}
    {f : α → Prog Op Ans τ ν β} :
    Safe R D Q (p >>= f) g ↔ Safe R D (Then R D Q f) p g := by
  change Safe R D Q (p.bind f) g ↔ _
  induction p generalizing g with
  | ret a => exact ⟨fun h => ⟨h.inv, h⟩, fun h => h.2⟩
  | panic => exact Iff.rfl
  | diverge => exact Iff.rfl
  | op o k ih => exact and_congr_right fun _ => forall₂_congr fun a _ => ih a
  | fork t k ih => exact and_congr_right fun _ => ih
  | send v k ih => exact and_congr_right fun _ => ih
  | recv k ih => exact and_congr_right fun _ => forall₂_congr fun v _ => ih v
  | select k ih =>
    exact and_congr_right fun _ => and_congr (ih none) (forall₂_congr fun v _ => ih (some v))

theorem safe_perform_bind {Q : Outcome β → G → Prop} {o : Op} {f : Ans o → Prog Op Ans τ ν β} :
    Safe R D Q (perform o >>= f) g ↔
      D.inv g ∧ ∀ a, R (.env o a) → Safe R D Q (f a) (D.upd g (.env o a)) := Iff.rfl

theorem safe_deferring {d : Prog Op Ans τ ν Unit} {p : Prog Op Ans τ ν α} :
    Safe R D Q (deferring d p) g ↔
      Safe R D (fun out g' => Safe R D (Then R D Q fun _ => match out with
        | .returned a => .ret a
        | .panicked => .panic) d g') p g := by
  induction p generalizing g with
  | ret a => exact safe_bind.trans ⟨fun h => ⟨h.inv, h⟩, fun h => h.2⟩
  | panic => exact safe_bind.trans ⟨fun h => ⟨h.inv, h⟩, fun h => h.2⟩
  | diverge => exact Iff.rfl
  | op o k ih => exact and_congr_right fun _ => forall₂_congr fun a _ => ih a
  | fork t k ih => exact and_congr_right fun _ => ih
  | send v k ih => exact and_congr_right fun _ => ih
  | recv k ih => exact and_congr_right fun _ => forall₂_congr fun v _ => ih v
  | select k ih =>
    exact and_congr_right fun _ => and_congr (ih none) (forall₂_congr fun v _ => ih (some v))

end Rules

/-- The program returns, and only events in `E` happen before it does. -/
def Within (E : Event Op Ans τ ν → Prop) : Prog Op Ans τ ν α → Prop
  | .ret _ => True
  | .panic | .diverge => False
  | .op o k => ∀ a, E (.env o a) ∧ Within E (k a)
  | .fork t k => E (.fork t) ∧ Within E k
  | .send v k => E (.send v) ∧ Within E k
  | .recv k => ∀ v, E (.recv v) ∧ Within E (k v)
  | .select k => (E .timeout ∧ Within E (k none)) ∧ ∀ v, E (.recv v) ∧ Within E (k (some v))

/-- The environment performs an operation in `N`. -/
def Event.Performs (N : Op → Prop) : Event Op Ans τ ν → Prop
  | .env o _ => N o
  | .fork _ | .send _ | .recv _ | .timeout => False

/-- The program only performs operations in `N`. -/
def Only (N : Op → Prop) (p : Prog Op Ans τ ν α) : Prop := Within (Event.Performs N) p

section Within
variable {E E' : Event Op Ans τ ν → Prop} {N : Op → Prop} {p : Prog Op Ans τ ν α}

theorem within_pure (a : α) : Within E (pure a : Prog Op Ans τ ν α) := trivial

theorem within_perform {o : Op} (h : ∀ a, E (.env o a)) :
    Within E (perform o : Prog Op Ans τ ν (Ans o)) :=
  fun a => ⟨h a, trivial⟩

theorem only_perform {o : Op} (h : N o) : Only N (perform o : Prog Op Ans τ ν (Ans o)) :=
  within_perform fun _ => h

theorem Within.bind {f : α → Prog Op Ans τ ν β} (hp : Within E p) (hf : ∀ a, Within E (f a)) :
    Within E (p >>= f) := by
  change Within E (p.bind f)
  induction p with
  | ret a => exact hf a
  | panic | diverge => exact hp.elim
  | op o k ih => exact fun a => ⟨(hp a).1, ih a (hp a).2⟩
  | fork t k ih => exact ⟨hp.1, ih hp.2⟩
  | send v k ih => exact ⟨hp.1, ih hp.2⟩
  | recv k ih => exact fun v => ⟨(hp v).1, ih v (hp v).2⟩
  | select k ih =>
    exact ⟨⟨hp.1.1, ih none hp.1.2⟩, fun v => ⟨(hp.2 v).1, ih (some v) (hp.2 v).2⟩⟩

theorem Within.mono (h : Within E p) (hE : ∀ e, E e → E' e) : Within E' p := by
  induction p with
  | ret a => trivial
  | panic | diverge => exact h.elim
  | op o k ih => exact fun a => ⟨hE _ (h a).1, ih a (h a).2⟩
  | fork t k ih => exact ⟨hE _ h.1, ih h.2⟩
  | send v k ih => exact ⟨hE _ h.1, ih h.2⟩
  | recv k ih => exact fun v => ⟨hE _ (h v).1, ih v (h v).2⟩
  | select k ih =>
    exact ⟨⟨hE _ h.1.1, ih none h.1.2⟩, fun v => ⟨hE _ (h.2 v).1, ih (some v) (h.2 v).2⟩⟩

theorem Only.mono {N' : Op → Prop} (h : Only N p) (hN : ∀ o, N o → N' o) : Only N' p :=
  Within.mono h fun e he => by
    cases e with
    | env o a => exact hN o he
    | fork | send | recv | timeout => exact he

theorem Within.safe {R : Event Op Ans τ ν → Prop} {D : Discipline Op Ans τ ν G} {g : G}
    {Q : Outcome α → G → Prop} (h : Within E p) (hE : ∀ e, E e → D.upd g e = g)
    (hi : D.inv g) (hq : ∀ a, Q (.returned a) g) : Safe R D Q p g := by
  induction p with
  | ret a => exact ⟨hi, hq a⟩
  | panic | diverge => exact h.elim
  | op o k ih => exact ⟨hi, fun a _ => (hE _ (h a).1).symm ▸ ih a (h a).2⟩
  | fork t k ih => exact ⟨hi, (hE _ h.1).symm ▸ ih h.2⟩
  | send v k ih => exact ⟨hi, (hE _ h.1).symm ▸ ih h.2⟩
  | recv k ih => exact ⟨hi, fun v _ => (hE _ (h v).1).symm ▸ ih v (h v).2⟩
  | select k ih =>
    exact ⟨hi, (hE _ h.1.1).symm ▸ ih none h.1.2,
      fun v _ => (hE _ (h.2 v).1).symm ▸ ih (some v) (h.2 v).2⟩

end Within
end ReverseProxyLb.Lib

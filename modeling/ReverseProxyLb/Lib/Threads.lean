import ReverseProxyLb.Lib.Crowd
import ReverseProxyLb.Lib.Prog

/-! Any number of calls run their programs, one operation at a time on a shared state. Where every
sequence of right answers leads a program to its postcondition, so does every call of every run.
-/
namespace ReverseProxyLb.Lib

variable {S J I X Op α β : Type} {Ans : Op → Type}

/-- An answer, with the state it was given in. -/
structure Reading (S Op : Type) (Ans : Op → Type) where
  state : S
  op : Op
  ans : Ans op

structure Thread (J S Op : Type) (Ans : Op → Type) (α : Type) where
  job : J
  prog : Prog Op Ans Empty Empty α
  log : List (Reading S Op Ans) := []

namespace Thread

def act (serve : S → (o : Op) → I → S × Ans o) (s : S) (t : Thread J S Op Ans α) (i : I) :
    Option (S × Thread J S Op Ans α) :=
  match t.prog with
  | .op o k =>
    let r := serve s o i
    some (r.1, { t with prog := k r.2, log := t.log ++ [⟨r.1, o, r.2⟩] })
  | _ => none

def rules (start : J → Prog Op Ans Empty Empty α) (serve : S → (o : Op) → I → S × Ans o)
    (outside : S → X → Option S) : Crowd.Rules S (Thread J S Op Ans α) J I X where
  enter s j := some (s, { job := j, prog := start j })
  act := act serve
  outside := outside

theorem act_cases {serve : S → (o : Op) → I → S × Ans o} {s s' : S} {t t' : Thread J S Op Ans α}
    {i : I} (h : act serve s t i = some (s', t')) :
    ∃ o k, t.prog = .op o k ∧ s' = (serve s o i).1 ∧
      t' = { t with
        prog := k (serve s o i).2, log := t.log ++ [⟨(serve s o i).1, o, (serve s o i).2⟩] } := by
  unfold act at h
  cases hp : t.prog with
  | op o k =>
    rw [hp] at h
    obtain ⟨rfl, rfl⟩ := Prod.mk.inj (Option.some.inj h)
    exact ⟨o, k, rfl, rfl, rfl⟩
  | ret | panic | diverge | fork | send | recv | select =>
    rw [hp] at h
    cases h

end Thread

/-- Right answers lead the program to ask for what it may and to return what meets `Q`, if
it returns. -/
def Leads (May : Op → Prop) (Right : S → (o : Op) → Ans o → Prop)
    (Q : List (Reading S Op Ans) → α → Prop) :
    Prog Op Ans Empty Empty α → List (Reading S Op Ans) → Prop
  | .ret a, log => Q log a
  | .op o k, log => May o ∧ ∀ s a, Right s o a → Leads May Right Q (k a) (log ++ [⟨s, o, a⟩])
  | .panic, _ | .diverge, _ | .fork _ _, _ | .send _ _, _ | .recv _, _ | .select _, _ => True

section Rules
variable {May : Op → Prop} {Right : S → (o : Op) → Ans o → Prop}
  {Q : List (Reading S Op Ans) → β → Prop}
  {log : List (Reading S Op Ans)}

theorem leads_perform_bind {o : Op} {f : Ans o → Prog Op Ans Empty Empty β} :
    Leads May Right Q (Prog.perform o >>= f) log ↔
      May o ∧ ∀ s a, Right s o a → Leads May Right Q (f a) (log ++ [⟨s, o, a⟩]) := Iff.rfl

theorem leads_bind {p : Prog Op Ans Empty Empty α} {f : α → Prog Op Ans Empty Empty β} :
    Leads May Right Q (p >>= f) log ↔
      Leads May Right (fun log a => Leads May Right Q (f a) log) p log := by
  change Leads May Right Q (p.bind f) log ↔ _
  induction p generalizing log with
  | op o k ih => exact and_congr_right fun _ => forall₃_congr fun s a _ => ih a
  | ret | panic | diverge | fork | send | recv | select => exact Iff.rfl

theorem Leads.mono {Q' : List (Reading S Op Ans) → β → Prop} {p : Prog Op Ans Empty Empty β}
    (hq : ∀ log b, Q log b → Q' log b) (h : Leads May Right Q p log) : Leads May Right Q' p log := by
  induction p generalizing log with
  | ret b => exact hq log b h
  | op o k ih => exact ⟨h.1, fun s a ha => ih a (h.2 s a ha)⟩
  | panic | diverge | fork | send | recv | select => trivial

end Rules

/-- The rule for calls: operations that keep the invariant of the state give right
answers, so every call leads to what the program it was made with leads to. -/
theorem Thread.leads_step_of {May : Op → Prop} {Right : S → (o : Op) → Ans o → Prop} {Inv : S → Prop}
    {Q : J → List (Reading S Op Ans) → α → Prop} {start : J → Prog Op Ans Empty Empty α}
    {serve : S → (o : Op) → I → S × Ans o} {outside : S → X → Option S}
    {c c' : Crowd S (Thread J S Op Ans α)} {m : Crowd.Move J I X}
    (hstart : ∀ j, Leads May Right (Q j) (start j) [])
    (hserve : ∀ n o i, m = .act n i → c'.shared = (serve c.shared o i).1 → May o →
      Inv (serve c.shared o i).1 ∧ Right (serve c.shared o i).1 o (serve c.shared o i).2)
    (houtside : ∀ x s', m = .outside x → outside c.shared x = some s' → Inv s')
    (h : c.Holds Inv fun _ t => Leads May Right (Q t.job) t.prog t.log)
    (hs : c.step (Thread.rules start serve outside) m = some c') :
    c'.Holds Inv fun _ t => Leads May Right (Q t.job) t.prog t.log := by
  refine Crowd.holds_step_of
    (fun j s t hm he => ?_) (fun n i t s t' hm ht ha => ?_) (fun x s hm hx => ?_) h hs
  · obtain ⟨rfl, rfl⟩ := Prod.mk.inj (Option.some.inj he)
    exact ⟨h.shared, hstart j, fun _ hq => hq⟩
  · have hshared : c'.shared = s := by
      rw [hm] at hs
      obtain ⟨p, hp, hact⟩ := Option.bind_eq_some_iff.mp hs
      obtain rfl : t = p := Option.some.inj (ht.symm.trans hp)
      rw [ha] at hact
      exact congrArg Crowd.shared (Option.some.inj hact).symm
    obtain ⟨o, k, hprog, rfl, rfl⟩ := Thread.act_cases ha
    have hleads := h.each t (List.mem_of_getElem? ht)
    rw [hprog] at hleads
    obtain ⟨hi, hright⟩ := hserve n o i hm hshared hleads.1
    exact ⟨hi, hleads.2 _ _ hright, fun _ hq => hq⟩
  · exact ⟨houtside x s hm hx, fun _ hq => hq⟩

/-- The rule for any state, with a side condition on the moves. -/
theorem Thread.leads_step {May : Op → Prop} {Right : S → (o : Op) → Ans o → Prop} {Inv : S → Prop}
    {Q : J → List (Reading S Op Ans) → α → Prop} {start : J → Prog Op Ans Empty Empty α}
    {serve : S → (o : Op) → I → S × Ans o} {outside : S → X → Option S}
    (Ok : S → Crowd.Move J I X → Prop)
    (hstart : ∀ j, Leads May Right (Q j) (start j) [])
    (hserve : ∀ s n o i, Inv s → May o → Ok s (.act n i) →
      Inv (serve s o i).1 ∧ Right (serve s o i).1 o (serve s o i).2)
    (houtside : ∀ s x s', Inv s → Ok s (.outside x) → outside s x = some s' → Inv s')
    {c c' : Crowd S (Thread J S Op Ans α)} {m : Crowd.Move J I X}
    (h : c.Holds Inv fun _ t => Leads May Right (Q t.job) t.prog t.log) (hok : Ok c.shared m)
    (hs : c.step (Thread.rules start serve outside) m = some c') :
    c'.Holds Inv fun _ t => Leads May Right (Q t.job) t.prog t.log := by
  refine Thread.leads_step_of hstart (fun n o i hm _ hmay => ?_) (fun x s' hm hx => ?_) h hs
  · exact hserve _ n o i h.shared hmay (hm ▸ hok)
  · exact houtside _ x s' h.shared (hm ▸ hok) hx

end ReverseProxyLb.Lib

import ReverseProxyLb.Balancer.Contract
import ReverseProxyLb.Lib.Threads

/-! `Next` is called again and again while connections end in between. Calls that run
concurrently and choose under a lock make up such a series. -/
namespace ReverseProxyLb
open Lib

structure Series where
  world : World
  picks : List Picked := []

inductive SeriesStep where
  | next
  | done (b : Backend)
  deriving DecidableEq

namespace Series

def step (sel : Selection) (s : Series) : SeriesStep → Series
  | .next => { world := (sel s.world).2, picks := s.picks ++ [(sel s.world).1] }
  | .done b => { s with world := s.world.decrConn b }

def run (sel : Selection) (s : Series) (steps : List SeriesStep) : Series := steps.foldl (step sel) s

/-- The number of calls of `Next`. -/
def calls (steps : List SeriesStep) : ℕ := steps.count .next

def served (s : Series) (b : Backend) : ℕ := s.picks.count (.backend b)

theorem run_concat (sel : Selection) (s : Series) (steps : List SeriesStep) (e : SeriesStep) :
    run sel s (steps ++ [e]) = (run sel s steps).step sel e := by
  simp [run]

@[simp] theorem calls_concat_next (steps : List SeriesStep) :
    calls (steps ++ [.next]) = calls steps + 1 := by
  simp [calls]

@[simp] theorem calls_concat_done (steps : List SeriesStep) (b : Backend) :
    calls (steps ++ [.done b]) = calls steps := by
  simp [calls]

theorem run_rule (Inv : ℕ → Series → Prop) {sel : Selection} {s : Series} (hstart : Inv 0 s)
    (hnext : ∀ k t, Inv k t → Inv (k + 1) (t.step sel .next))
    (hdone : ∀ k t b, Inv k t → Inv k (t.step sel (.done b))) (steps : List SeriesStep) :
    Inv (calls steps) (run sel s steps) := by
  induction steps using List.reverseRecOn with
  | nil => exact hstart
  | append_singleton steps e ih =>
    rw [run_concat]
    cases e with
    | next =>
      rw [calls_concat_next]
      exact hnext _ _ ih
    | done b =>
      rw [calls_concat_done]
      exact hdone _ _ b ih

theorem served_next (sel : Selection) (s : Series) (b : Backend) :
    (s.step sel .next).served b = s.served b + if (sel s.world).1 = .backend b then 1 else 0 := by
  simp [served, step, List.count_append, List.count_singleton]

theorem served_next_of {sel : Selection} {s : Series} {a : Backend} (h : (sel s.world).1 = .backend a)
    (b : Backend) : (s.step sel .next).served b = s.served b + if b = a then 1 else 0 := by
  rw [served_next, h]
  by_cases hab : b = a
  · simp [hab]
  · simp [hab, Ne.symm hab]

end Series

/-- The backends and weights that a series of selections leaves alone. -/
structure SameFleet (w w' : World) : Prop where
  backends : w'.backends = w.backends
  healthy : w'.healthy = w.healthy
  weight : w'.weight = w.weight

namespace SameFleet

variable {w w' w'' : World}

theorem refl (w : World) : SameFleet w w := ⟨rfl, rfl, rfl⟩

theorem trans (h : SameFleet w w') (h' : SameFleet w' w'') : SameFleet w w'' :=
  ⟨h'.backends.trans h.backends, h'.healthy.trans h.healthy, h'.weight.trans h.weight⟩

theorem getHealthy (h : SameFleet w w') : w'.getHealthy = w.getHealthy := by
  rw [World.getHealthy, World.getHealthy, h.backends, h.healthy]

theorem getWeight (h : SameFleet w w') (b : Backend) : w'.getWeight b = w.getWeight b := by
  rw [World.getWeight, World.getWeight, h.weight]

theorem effectiveWeight (h : SameFleet w w') (b : Backend) :
    ReverseProxyLb.effectiveWeight w' b = ReverseProxyLb.effectiveWeight w b := by
  rw [ReverseProxyLb.effectiveWeight, ReverseProxyLb.effectiveWeight, h.getWeight]

end SameFleet

inductive LockOp where
  | getHealthy
  | locked (healthy : List Backend)

abbrev LockAns : LockOp → Type
  | .getHealthy => List Backend
  | .locked _ => Picked

def nextCall : Prog LockOp LockAns Empty Empty Picked := do
  let healthy ← Prog.perform LockOp.getHealthy
  if healthy = [] then pure (.error errNoHealthy) else Prog.perform (LockOp.locked healthy)

def serveLocked (body : List Backend → Selection) (s : Series) :
    (o : LockOp) → Unit → Series × LockAns o
  | .getHealthy, _ => (s, s.world.getHealthy)
  | .locked healthy, _ => (s.step (body healthy) .next, (body healthy s.world).1)

abbrev LockedCall := Thread Unit Series LockOp LockAns Picked

def lockedRules (body : List Backend → Selection) : Crowd.Rules Series LockedCall Unit Unit Empty :=
  Thread.rules (fun _ => nextCall) (serveLocked body) fun _ e => e.elim

section Concurrent
variable {body : List Backend → Selection} {w : World}

theorem step_withHealthy {s : Series} (h : s.world.getHealthy ≠ []) :
    s.step (withHealthy body) .next = s.step (body s.world.getHealthy) .next := by
  simp only [Series.step, withHealthy, if_neg h]

theorem concurrent_is_series (hne : w.getHealthy ≠ [])
    (hkeep : ∀ w', SameFleet w w' → SameFleet w' (withHealthy body w').2)
    {ms : List (Crowd.Move Unit Unit Empty)} {t : Crowd Series LockedCall}
    (hr : exec (Crowd.step (lockedRules body)) ⟨{ world := w }, []⟩ ms = some t) :
    ∃ k, t.shared = Series.run (withHealthy body) { world := w } (List.replicate k .next) := by
  let Inv : Series → Prop := fun s => SameFleet w s.world ∧
    ∃ k, s = Series.run (withHealthy body) { world := w } (List.replicate k .next)
  let May : LockOp → Prop
    | .getHealthy => True
    | .locked healthy => healthy = w.getHealthy
  let Right : Series → (o : LockOp) → LockAns o → Prop
    | _, .getHealthy, healthy => healthy = w.getHealthy
    | _, .locked _, _ => True
  have hstart : Leads May Right (fun _ _ => True) nextCall [] := by
    refine leads_perform_bind.mpr ⟨trivial, fun s healthy hh => ?_⟩
    split_ifs
    · trivial
    · exact ⟨hh, fun _ _ _ => trivial⟩
  have hstep : ∀ c m c',
      c.Holds Inv (fun _ call => Leads May Right (fun _ _ => True) call.prog call.log) →
      Crowd.step (lockedRules body) c m = some c' →
      c'.Holds Inv fun _ call => Leads May Right (fun _ _ => True) call.prog call.log := by
    intro c m c' hc hs
    apply Thread.leads_step (fun _ _ => True) (fun _ => hstart) _ _ hc trivial hs
    · rintro s n o i ⟨hsame, k, hk⟩ hmay -
      cases o with
      | getHealthy => exact ⟨⟨hsame, k, hk⟩, hsame.getHealthy⟩
      | locked healthy =>
        have hhealthy : healthy = s.world.getHealthy := Eq.trans hmay hsame.getHealthy.symm
        have hnext : s.step (body healthy) .next = s.step (withHealthy body) .next := by
          rw [hhealthy, step_withHealthy (by rwa [hsame.getHealthy])]
        refine ⟨?_, trivial⟩
        change Inv (s.step (body healthy) .next)
        rw [hnext]
        refine ⟨hsame.trans (hkeep _ hsame), k + 1, ?_⟩
        rw [List.replicate_succ', Series.run_concat, ← hk]
    · intro s e
      exact e.elim
  have hinit : Crowd.Holds Inv (fun _ call => Leads May Right (fun _ _ => True) call.prog call.log)
      (⟨{ world := w }, []⟩ : Crowd Series LockedCall) := by
    refine ⟨⟨.refl w, 0, rfl⟩, ?_⟩
    intro call hcall
    cases hcall
  exact (exec_keeps hstep hr hinit).shared.2

theorem step_act_last {c : Crowd Series LockedCall} {ps : List LockedCall} {p p' : LockedCall}
    {s : Series} (hc : c.parties = ps ++ [p])
    (ha : Thread.act (serveLocked body) c.shared p () = some (s, p')) :
    Crowd.step (lockedRules body) c (.act ps.length ()) = some ⟨s, ps ++ [p']⟩ := by
  have hget : c.parties[ps.length]? = some p := by rw [hc, List.getElem?_concat_length]
  change (c.parties[ps.length]?.bind fun q => (Thread.act (serveLocked body) c.shared q ()).map _) = _
  rw [hget, Option.bind_some, ha, Option.map_some, hc]
  simp

def inTurn : ℕ → List (Crowd.Move Unit Unit Empty)
  | 0 => []
  | k + 1 => inTurn k ++ [.enter (), .act k (), .act k ()]

theorem series_is_concurrent (hne : w.getHealthy ≠ [])
    (hkeep : ∀ w', SameFleet w w' → SameFleet w' (withHealthy body w').2) (k : ℕ) :
    ∃ t, exec (Crowd.step (lockedRules body)) ⟨{ world := w }, []⟩ (inTurn k) = some t ∧
      t.parties.length = k ∧ SameFleet w t.shared.world ∧
      t.shared = Series.run (withHealthy body) { world := w } (List.replicate k .next) := by
  induction k with
  | zero => exact ⟨_, rfl, rfl, .refl w, rfl⟩
  | succ k ih =>
    obtain ⟨t, ht, hlen, hsame, hshared⟩ := ih
    have hhealthy : t.shared.world.getHealthy ≠ [] := by rwa [hsame.getHealthy]
    let call : LockedCall := { job := (), prog := nextCall }
    let given : LockedCall := { call with
      prog := Prog.perform (LockOp.locked t.shared.world.getHealthy)
      log := [⟨t.shared, .getHealthy, t.shared.world.getHealthy⟩] }
    let returned : LockedCall := { given with
      prog := .ret (body t.shared.world.getHealthy t.shared.world).1
      log := given.log ++
        [⟨t.shared.step (body t.shared.world.getHealthy) .next, .locked t.shared.world.getHealthy,
        (body t.shared.world.getHealthy t.shared.world).1⟩] }
    have hgiven : Thread.act (serveLocked body) t.shared call () = some (t.shared, given) := by
      have hprog : (if t.shared.world.getHealthy = [] then pure (.error errNoHealthy)
          else Prog.perform (LockOp.locked t.shared.world.getHealthy) :
          Prog LockOp LockAns Empty Empty Picked) =
          Prog.perform (LockOp.locked t.shared.world.getHealthy) := if_neg hhealthy
      exact congrArg (fun p => some (t.shared, ({ given with prog := p } : LockedCall))) hprog
    have hreturned : Thread.act (serveLocked body) t.shared given () =
        some (t.shared.step (body t.shared.world.getHealthy) .next, returned) := rfl
    have h₁ := step_act_last (c := ⟨t.shared, t.parties ++ [call]⟩) rfl hgiven
    have h₂ := step_act_last (c := ⟨t.shared, t.parties ++ [given]⟩) rfl hreturned
    rw [hlen] at h₁ h₂
    refine ⟨⟨t.shared.step (withHealthy body) .next, t.parties ++ [returned]⟩, ?_, ?_, ?_, ?_⟩
    · rw [inTurn, exec_append, ht, Option.bind_some, exec_cons]
      change exec (Crowd.step (lockedRules body)) ⟨t.shared, t.parties ++ [call]⟩ _ = _
      rw [exec_cons, h₁, Option.bind_some, exec_cons, h₂, Option.bind_some, exec_nil,
        step_withHealthy hhealthy]
    · simp [hlen]
    · exact hsame.trans (hkeep _ hsame)
    · rw [List.replicate_succ', Series.run_concat, ← hshared]

end Concurrent

theorem effectiveWeight_pos (w : World) (b : Backend) : 0 < effectiveWeight w b := by
  unfold effectiveWeight
  split_ifs <;> omega

end ReverseProxyLb

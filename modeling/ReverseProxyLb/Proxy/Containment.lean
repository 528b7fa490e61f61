import ReverseProxyLb.Proxy.Conservation

/-! A hedge attempt runs outside the middleware that recovers from panics. The attempts are
contained exactly if no upstream panics in one of them. -/
namespace ReverseProxyLb.Proxy
open Lib Ledger Pool

theorem nonempty_ans (o : Op) : Nonempty (Ans o) := by
  cases o with
  | serveHTTP => exact ⟨.panicked false⟩
  | _ => exact ⟨default⟩

theorem noFork_recordCircuit (p : Settings) (b : Backend) (cls : Class) :
    NoFork (recordCircuit p b cls) := by
  unfold recordCircuit
  split_ifs <;> first | exact fun _ => trivial | trivial

theorem noFork_doHedgeAttempt (b : Backend) : NoFork (doHedgeAttempt b) :=
  (exchange_doHedgeAttempt b).noFork fun _ h => h

theorem noFork_hedgeAttempt (p : Settings) (b : Backend) : NoFork (hedgeAttempt p b) := by
  apply (noFork_doHedgeAttempt b).bind
  intro res _
  apply (noFork_recordCircuit p b _).bind
  intro _ _
  trivial

theorem acc_proxyRequest (p : Settings) (group : List Backend) (r : Request) (primary : Backend) :
    Acc (After (hedgeAttempt p)) { main := proxyRequest p group r primary } :=
  acc_after (noFork_hedgeAttempt p) _ (by simp)

section Rest
variable {p : Settings} {group : List Backend} {r : Request} {primary : Backend} {s : Handlers}

theorem Reaches.attempt_returned (h : Reaches p group r primary s) (hst : Stuck (hedgeAttempt p) s)
    (hc : s.crashed = false) (i : Fin s.spawned.length) : (s.spawned.get i).2 = .ret () := by
  have hsafe := h.attempt i
  obtain ⟨hrest, hpanic⟩ := hst.spawned nonempty_ans hc (i := i) (t := (s.spawned.get i).1)
    (p := (s.spawned.get i).2) (by simp)
  cases hs : (s.spawned.get i).2 with
  | ret a => rfl
  | panic => exact absurd hs hpanic
  | recv k =>
    rw [hs] at hsafe
    have hafter := hsafe.2 { backend := primary } trivial
    exact absurd hafter.inv.received (Nat.succ_ne_zero _)
  | diverge =>
    rw [hs] at hsafe
    exact hsafe.elim
  | op | fork | send | select =>
    rw [hs] at hrest
    exact hrest.elim

theorem Reaches.books_returned (h : Reaches p group r primary s) {i : Fin s.spawned.length}
    (hi : (s.spawned.get i).2 = .ret ()) : attemptBooks p s i = of (slot p) [] [] [] 0 0 1 := by
  have hsafe := h.attempt i
  rw [hi] at hsafe
  exact hsafe.2

theorem Reaches.handler_ended (h : Reaches p group r primary s) (hst : Stuck (hedgeAttempt p) s)
    (hc : s.crashed = false) : Ended s.main := by
  have hsafe := h.safe.main
  have hrest := hst.main nonempty_ans hc
  cases hs : s.main with
  | ret | panic => trivial
  | recv k =>
    rw [hs] at hsafe hrest
    -- every attempt has delivered, and nothing is left in the channel
    have hsent : ∀ i, (attemptBooks p s i).sent = 1 := fun i => by
      rw [h.books_returned (h.attempt_returned hst hc i)]
      rfl
    have hmessages := h.messages
    have hlaunched := h.launched
    have hafter : (handlerBooks p primary s).received + 1 ≤ (handlerBooks p primary s).launched :=
      (hsafe.2 { backend := primary } trivial).inv.received
    have hqueue : s.queue = [] := hrest
    rw [Finset.sum_congr rfl fun i _ => hsent i, Finset.sum_const, Finset.card_univ, Fintype.card_fin,
      smul_eq_mul, mul_one, hqueue, List.length_nil] at hmessages
    omega
  | diverge =>
    rw [hs] at hsafe
    exact hsafe.elim
  | op | fork | send | select =>
    rw [hs] at hrest
    exact hrest.elim

theorem Reaches.sum_aborted (h : Reaches p group r primary s) :
    ∑ i, (attemptBooks p s i).aborted = total isAbort s.log := by
  have hsum := h.sum_books Ledger.aborted (fun _ _ => rfl) rfl fun _ => rfl
  rwa [h.handling.aborted, zero_add, ← total_eq_sum] at hsum

theorem Reaches.not_crashed (h : Reaches p group r primary s)
    (hno : ∀ x ∈ s.log, isAbort x.2 = false) : s.crashed = false := by
  have htotal : total isAbort s.log = 0 := List.countP_eq_zero.mpr fun x hx => by simp [hno x hx]
  rw [Bool.eq_false_iff]
  intro hc
  obtain ⟨i, hbooks⟩ := h.crashed hc
  have haborted : (attemptBooks p s i).aborted = 1 := by
    rw [hbooks]
    rfl
  have hzero := (Finset.sum_eq_zero_iff.mp (h.sum_aborted.trans htotal)) i (Finset.mem_univ i)
  omega

end Rest

inductive Effect where
  | recorded (b : Backend)
  | released (b : Backend)
  | delivered
  deriving DecidableEq

def effect : Happening → List Effect
  | .env (.recordSuccess b) _ | .env (.recordFailure b) _ => [.recorded b]
  | .env (.decrConn b) _ => [.released b]
  | .send _ => [.delivered]
  | _ => []

/-- The effects an attempt owes: one report to the breaker if there is one, one
release, and one result. -/
def owedEffects (p : Settings) (b : Backend) : List Effect :=
  (if p.circuitBreaker then [.recorded b] else []) ++ [.released b, .delivered]

def effects : Discipline Op Ans Backend HedgeResult (List Effect) where
  upd g e := g ++ effect e
  inv _ := True

theorem effects_fold (evs : List Happening) (g : List Effect) :
    effects.fold g evs = g ++ evs.flatMap effect := by
  induction evs generalizing g with
  | nil => simp
  | cons e evs ih =>
    change effects.fold (g ++ effect e) evs = _
    rw [ih, List.flatMap_cons, List.append_assoc]

def EffectsAt (p : Settings) (b : Backend) : Outcome Unit → List Effect → Prop
  | .returned _, g => g = owedEffects p b
  | .panicked, g => g = []

section Effects
variable {p : Settings} {R : Happening → Prop} {b : Backend}

theorem effect_exchange {w : Writer} {e : Happening} (h : Exchange w b e) : effect e = [] := by
  cases e with
  | env o a => cases o <;> first | exact h.elim | rfl
  | fork | send | recv | timeout => exact h.elim

theorem effects_doHedgeAttempt (p : Settings) {Q : Outcome (Attempted × Recorder) → List Effect → Prop}
    (hret : ∀ res, Q (.returned res) []) (hpanic : Q .panicked []) :
    Safe R effects Q (doHedgeAttempt b) [] := by
  have hsafe : Safe R (ledger p (Attempting p)) (fun _ _ => True) (doHedgeAttempt b)
      (of (slot p) [b] [b] [] 0 0 0) := safe_doHedgeAttempt b (fun _ => trivial) trivial
  exact (exchange_doHedgeAttempt b).safe hsafe (fun e he => effect_exchange he) trivial
    (fun res _ => hret res) hpanic

theorem effects_recordCircuit (cls : Class) {Q : Outcome Unit → List Effect → Prop}
    (hq : Q (.returned ()) (if p.circuitBreaker then [.recorded b] else [])) :
    Safe R effects Q (recordCircuit p b cls) [] := by
  unfold recordCircuit
  split_ifs with hcb htrip
  · rw [if_pos hcb] at hq
    exact ⟨trivial, fun _ _ => ⟨trivial, hq⟩⟩
  · rw [if_pos hcb] at hq
    exact ⟨trivial, fun _ _ => ⟨trivial, hq⟩⟩
  · rw [if_neg hcb] at hq
    exact ⟨trivial, hq⟩

theorem effects_hedgeAttempt (p : Settings) (b : Backend) :
    Safe R effects (EffectsAt p b) (hedgeAttempt p b) [] := by
  refine safe_bind.mpr (effects_doHedgeAttempt p (fun res => ?_) rfl)
  refine safe_perform_bind.mpr ⟨trivial, fun _ _ => safe_bind.mpr (effects_recordCircuit _ ?_)⟩
  refine safe_perform_bind.mpr ⟨trivial, fun _ _ => ⟨trivial, trivial, ?_⟩⟩
  simp [EffectsAt, owedEffects, effects, effect]

end Effects

def Returned : Act Unit → Prop
  | .ret _ => True
  | _ => False

instance (prog : Act Unit) : Decidable (Returned prog) := by
  unfold Returned
  split <;> infer_instance

theorem Ended.not_moves {α : Type} {prog : Act α} (h : Ended prog) (e : Happening) (prog' : Act α) :
    ¬ Moves prog e prog' := by
  intro hm
  cases hm <;> exact h

theorem returned_iff {prog : Act Unit} : Returned prog ↔ prog = .ret () := by
  cases prog <;> simp [Returned]

/-- No panic has left a goroutine, the handler has ended, and each attempt has the effects it
owes, each once. -/
structure Contained (p : Settings) (s : Handlers) : Prop where
  running : s.crashed = false
  ended : Ended s.main
  returned : ∀ x ∈ s.spawned, Returned x.2
  effects : ∀ i : Fin s.spawned.length,
    (localLog (some i) s.log).flatMap effect = owedEffects p (s.spawned.get i).1

section Containment
variable {p : Settings} {group : List Backend} {r : Request} {primary : Backend} {s : Handlers}

theorem Reaches.effects_returned (h : Reaches p group r primary s) {i : Fin s.spawned.length}
    (hi : (s.spawned.get i).2 = .ret ()) :
    (localLog (some i) s.log).flatMap effect = owedEffects p (s.spawned.get i).1 := by
  obtain ⟨⟨ls, hrun⟩, hg⟩ := h
  have hsafe := threadsSafe_run (effects_hedgeAttempt p) (safe_handler r primary) hrun hg
  have hspawned := hsafe.spawned i (s.spawned.get i).1 (s.spawned.get i).2 (by simp)
  rw [hi, effects_fold, List.nil_append] at hspawned
  exact hspawned.2

/-- Request handling comes to an end, and at the end the hedge attempts are
contained exactly if the upstream of none of them panicked. -/
theorem hedges_contained_iff (h : Reaches p group r primary s) (hst : Stuck (hedgeAttempt p) s) :
    Acc (After (hedgeAttempt p)) { main := proxyRequest p group r primary } ∧
      (Contained p s ↔ ∀ x ∈ s.log, isAbort x.2 = false) := by
  refine ⟨acc_proxyRequest p group r primary, fun hcont => ?_, fun hno => ?_⟩
  · have hzero : total isAbort s.log = 0 := by
      rw [← h.sum_aborted]
      apply Finset.sum_eq_zero
      intro i _
      rw [h.books_returned (returned_iff.mp (hcont.returned _ (List.getElem_mem i.2)))]
      rfl
    intro x hx
    simpa using List.countP_eq_zero.mp hzero x hx
  · have hc := h.not_crashed hno
    have hret : ∀ i : Fin s.spawned.length, (s.spawned.get i).2 = .ret () := h.attempt_returned hst hc
    refine ⟨hc, h.handler_ended hst hc, fun x hx => ?_, fun i => h.effects_returned (hret i)⟩
    obtain ⟨i, hi, rfl⟩ := List.getElem_of_mem hx
    exact returned_iff.mpr (hret ⟨i, hi⟩)

end Containment

theorem hedges_contained_race :
    let p : Settings :=
      { circuitBreaker := true, retryConfig := { hedge := { enabled := true, maxExtra := 1 } } }
    let a : Backend := { addr := 1 }
    let b : Backend := { addr := 2 }
    ∃ s, Reaches p [a, b] { method := "GET" } a s ∧ s.spawned.length = 2 ∧ Contained p s := by
  intro p a b
  let ls := wonByExtra a b
  have h :
      ∃ s ∈ exec (step (hedgeAttempt p)) { main := proxyRequest p [a, b] { method := "GET" } a } ls,
      (∀ x ∈ s.log, Grouped [a, b] x.2) ∧ s.spawned.length = 2 ∧ (∀ x ∈ s.log, isAbort x.2 = false) ∧
        Ended s.main ∧ ∀ x ∈ s.spawned, Returned x.2 := by decide +kernel
  obtain ⟨s, hs, hg, hlen, hno, he, hret⟩ := h
  have hst : Stuck (hedgeAttempt p) s :=
    stuck_of_ended he.not_moves fun x hx => returned_iff.mp (hret x hx)
  exact ⟨s, ⟨⟨ls, hs⟩, hg⟩, hlen, (hedges_contained_iff ⟨⟨ls, hs⟩, hg⟩ hst).2.mpr hno⟩

/-- The extra answers first, and the cancelled primary panics: the process is gone, and the
reservation and the admission of the primary are kept. -/
theorem hedge_panic_escapes :
    let p : Settings :=
      { circuitBreaker := true, retryConfig := { hedge := { enabled := true, maxExtra := 1 } } }
    let a : Backend := { addr := 1 }
    let b : Backend := { addr := 2 }
    ∃ s, Reaches p [a, b] { method := "GET" } a s ∧ Stuck (hedgeAttempt p) s ∧ s.crashed ∧
      ¬ Ended s.main ∧ (localLog (some 0) s.log).flatMap effect = [] ∧ ¬ Contained p s := by
  intro p a b
  let ls := raceOf a b ++ answers 1 b ++
    [.main .go, .spawned 0 (.answer (.recordBackendRequest a) ()),
    .spawned 0 (.answer (.proxyFor a) none),
      .spawned 0 (.answer (.serveHTTP .recorder a) (.panicked true)), .crash 0]
  have h :
      ∃ s ∈ exec (step (hedgeAttempt p)) { main := proxyRequest p [a, b] { method := "GET" } a } ls,
      (∀ x ∈ s.log, Grouped [a, b] x.2) ∧ s.crashed ∧ ¬ Ended s.main ∧
        (localLog (some 0) s.log).flatMap effect = [] := by decide +kernel
  obtain ⟨s, hs, hg, hc, he, heff⟩ := h
  exact ⟨s, ⟨⟨ls, hs⟩, hg⟩, stuck_of_crashed hc, hc, he, heff, fun hcont => he hcont.ended⟩

end ReverseProxyLb.Proxy

import ReverseProxyLb.Proxy.Containment

/-! An admission is settled by a result reported for it. When a request is over all its
admissions are settled exactly if none was stranded. -/
namespace ReverseProxyLb.Proxy
open Lib Ledger Pool

/-- `Allow(b)` returned nil. -/
def admits (b : Backend) : Happening → Bool
  | .env (.allow b') err => b' = b && Option.isNone (show Option String from err)
  | _ => false

/-- `RecordSuccess(b)` or `RecordFailure(b)`. -/
def reports (b : Backend) : Happening → Bool
  | .env (.recordSuccess b') _ | .env (.recordFailure b') _ => b' = b
  | _ => false

theorem admitDelta_apply (b : Backend) (e : Happening) :
    admitDelta e b = (if admits b e then 1 else 0) - (if reports b e then 1 else 0) := by
  cases e with
  | env o a =>
    cases o with
    | allow b' => cases a <;> simp [admitDelta, admits, reports, Pi.single_apply, eq_comm]
    | recordSuccess | recordFailure => simp [admitDelta, admits, reports, Pi.single_apply, eq_comm]
    | _ => rfl
  | fork | send | recv | timeout => rfl

section Admissions
variable {p : Settings} {group : List Backend} {r : Request} {primary : Backend} {s : Handlers}

theorem Reaches.admissions_nonneg (h : Reaches p group r primary s) :
    0 ≤ (handlerBooks p primary s).admissions + ∑ i, (attemptBooks p s i).admissions :=
  add_nonneg h.handling.admissions (Finset.sum_nonneg fun i _ => (h.attempting i).admissions)

theorem Reaches.sum_stranded (h : Reaches p group r primary s) :
    (handlerBooks p primary s).stranded + ∑ i, (attemptBooks p s i).stranded =
      slot p • tally (s.log.flatMap fun x => strandedBy x.2) := by
  have hsum : ∀ log : List (Entry Op Ans Backend HedgeResult),
      (log.map fun x => slot p • tally (strandedBy x.2)).sum =
        slot p • tally (log.flatMap fun x => strandedBy x.2) := by
    intro log
    induction log with
    | nil => simp
    | cons x log ih => rw [List.map_cons, List.sum_cons, ih, List.flatMap_cons, tally_append, smul_add]
  rw [← hsum]
  exact h.sum_books Ledger.stranded (fun _ _ => rfl) (by simp [of]) fun b => by simp [of]

theorem Reaches.admissions_eq_stranded (h : Reaches p group r primary s)
    (hst : Stuck (hedgeAttempt p) s) (hc : s.crashed = false) :
    (s.log.map fun x => admitDelta x.2).sum =
      slot p • tally (s.log.flatMap fun x => strandedBy x.2) := by
  have hattempt : ∀ i, attemptBooks p s i = of (slot p) [] [] [] 0 0 1 := fun i =>
    h.books_returned (h.attempt_returned hst hc i)
  obtain ⟨lost, m, hb⟩ := h.closed (h.handler_ended hst hc)
  rw [← h.admissions_balance, ← h.sum_stranded, hb]
  simp [hattempt, of]

theorem Reaches.crashed_unsettled (h : Reaches p group r primary s) (hcb : p.circuitBreaker)
    (hc : s.crashed) : (s.log.map fun x => admitDelta x.2).sum ≠ 0 ∧
      s.log.flatMap (fun x => strandedBy x.2) ≠ [] := by
  obtain ⟨i, hbooks⟩ := h.crashed hc
  have hone : (attemptBooks p s i).admissions (s.spawned.get i).1 = 1 := by
    rw [hbooks]
    simp [abandoned, of, slot_on hcb]
  constructor
  · intro hzero
    have hsum := congrFun h.admissions_balance (s.spawned.get i).1
    rw [hzero, Pi.add_apply, Finset.sum_apply] at hsum
    have hmain : 0 ≤ (handlerBooks p primary s).admissions (s.spawned.get i).1 :=
      h.handling.admissions _
    have hle := Finset.single_le_sum (fun j _ => (h.attempting j).admissions (s.spawned.get i).1)
      (Finset.mem_univ i)
    rw [hone] at hle
    simp only [Pi.zero_apply] at hsum hle
    omega
  · intro hnil
    have habort : ∀ x ∈ s.log, isAbort x.2 = false := by
      intro x hx
      have hx := List.flatMap_eq_nil_iff.mp hnil x hx
      revert hx
      obtain ⟨who, e⟩ := x
      cases e with
      | env o a =>
        cases o with
        | serveHTTP w b' => cases w <;> cases a <;> simp [strandedBy, isAbort]
        | _ => exact fun _ => rfl
      | fork | send | recv | timeout => exact fun _ => rfl
    rw [h.not_crashed habort] at hc
    exact absurd hc (by simp)

/-- A request reports at most as often as it is admitted, and when it is over all admissions are
settled exactly if there is no breaker or nothing was stranded. -/
theorem admissions_settled_iff (h : Reaches p group r primary s) :
    (∀ b, total (reports b) s.log ≤ total (admits b) s.log) ∧
      (Stuck (hedgeAttempt p) s →
        ((∀ b, total (admits b) s.log = total (reports b) s.log) ↔
          p.circuitBreaker = false ∨ ∀ x ∈ s.log, strandedBy x.2 = [])) := by
  have hsettled : (∀ b, total (admits b) s.log = total (reports b) s.log) ↔
      (s.log.map fun x => admitDelta x.2).sum = 0 := by
    rw [funext_iff]
    apply forall_congr'
    intro b
    rw [sum_delta (admitDelta_apply b), Pi.zero_apply]
    omega
  constructor
  · intro b
    have hnn : 0 ≤ (s.log.map fun x => admitDelta x.2).sum b := by
      rw [← h.admissions_balance]
      exact h.admissions_nonneg b
    rw [sum_delta (admitDelta_apply b)] at hnn
    omega
  · intro hst
    rw [hsettled, ← List.flatMap_eq_nil_iff]
    by_cases hcb : p.circuitBreaker
    · cases hc : s.crashed with
      | true =>
        have hun := h.crashed_unsettled hcb hc
        simp [hun.1, hun.2, hcb]
      | false =>
        rw [h.admissions_eq_stranded hst hc, slot_on hcb, one_smul, tally_eq_zero]
        simp [hcb]
    · have hzero : (s.log.map fun x => admitDelta x.2).sum = 0 := by
        rw [← h.admissions_balance, h.handling.unguarded hcb,
          Finset.sum_eq_zero fun i _ => (h.attempting i).unguarded hcb, add_zero]
      simp [hzero, hcb]

end Admissions

theorem admissions_settled_race :
    let p : Settings :=
      { circuitBreaker := true, retryConfig := { hedge := { enabled := true, maxExtra := 1 } } }
    let a : Backend := { addr := 1 }
    let b : Backend := { addr := 2 }
    ∃ s, Reaches p [a, b] { method := "GET" } a s ∧ Stuck (hedgeAttempt p) s ∧
      0 < total (admits a) s.log ∧
      ∀ b, total (admits b) s.log = total (reports b) s.log := by
  intro p a b
  let ls := wonByExtra a b
  have h :
      ∃ s ∈ exec (step (hedgeAttempt p)) { main := proxyRequest p [a, b] { method := "GET" } a } ls,
      (∀ x ∈ s.log, Grouped [a, b] x.2) ∧ 0 < total (admits a) s.log ∧
        (∀ x ∈ s.log, strandedBy x.2 = []) ∧
        Ended s.main ∧ ∀ x ∈ s.spawned, Returned x.2 := by decide +kernel
  obtain ⟨s, hs, hg, hpos, hno, he, hret⟩ := h
  have hst : Stuck (hedgeAttempt p) s :=
    stuck_of_ended he.not_moves fun x hx => returned_iff.mp (hret x hx)
  exact ⟨s, ⟨⟨ls, hs⟩, hg⟩, hst, hpos, ((admissions_settled_iff ⟨⟨ls, hs⟩, hg⟩).2 hst).mpr (.inr hno)⟩

/-- The only backend is admitted for the hedged path, which has no extra, and once more by the
sequential one. One result settles one of the two. -/
theorem admission_kept_after_fallback :
    let p : Settings :=
      { circuitBreaker := true, retryConfig := { hedge := { enabled := true, maxExtra := 1 } } }
    let a : Backend := { addr := 1 }
    ∃ s, Reaches p [a] { method := "GET" } a s ∧ Stuck (hedgeAttempt p) s ∧
      total (admits a) s.log = 2 ∧ total (reports a) s.log = 1 := by
  intro p a
  let ls : List (Label Op Ans) :=
    [.main (.answer (.allow a) none), .main (.answer .getHealthy [a]),
    .main (.answer (.note (.fellBack a)) ()),
      .main (.answer (.note (.visit a)) ()), .main (.answer (.allow a) none),
      .main (.answer (.count .retryReqs) ()), .main (.answer (.recordBackendRequest a) ()),
      .main (.answer (.proxyFor a) none),
        .main (.answer (.serveHTTP .client a) (.served none true 200 0)),
      .main (.answer (.count (.backendLatency a)) ()), .main (.answer (.observeLatency a) ()),
      .main (.answer (.decrConn a) ()), .main (.answer (.observeOutcome a true) ()),
      .main (.answer (.recordSuccess a) ())]
  have h : ∃ s ∈ exec (step (hedgeAttempt p)) { main := proxyRequest p [a] { method := "GET" } a } ls,
      (∀ x ∈ s.log, Grouped [a] x.2) ∧ Ended s.main ∧ (∀ x ∈ s.spawned, Returned x.2) ∧
        total (admits a) s.log = 2 ∧ total (reports a) s.log = 1 := by decide +kernel
  obtain ⟨s, hs, hg, he, hret, hcounts⟩ := h
  exact ⟨s, ⟨⟨ls, hs⟩, hg⟩, stuck_of_ended he.not_moves fun x hx => returned_iff.mp (hret x hx),
    hcounts⟩

end ReverseProxyLb.Proxy

import ReverseProxyLb.Proxy.Specs

/-! The handler of a request and the hedge attempts it launches are a pool of threads, each
with its ledger: the reservations of the request are the sum of what they hold. -/
namespace ReverseProxyLb.Proxy
open Lib Ledger Pool

/-- What holds of the handler's ledger at any moment. -/
structure Handling (p : Settings) (g : Ledger) : Prop where
  conns : 0 ≤ g.conns
  admissions : 0 ≤ g.admissions
  unguarded : ¬ p.circuitBreaker → g.admissions = 0
  received : g.received ≤ g.launched
  sent : g.sent = 0
  aborted : g.aborted = 0

/-- What holds of a hedge attempt's ledger at any moment. -/
structure Attempting (p : Settings) (g : Ledger) : Prop where
  conns : 0 ≤ g.conns
  admissions : 0 ≤ g.admissions
  unguarded : ¬ p.circuitBreaker → g.admissions = 0
  launched : g.launched = 0
  received : g.received = 0
  sent : g.sent ≤ 1
  settled : g.sent = 1 → g.conns = 0 ∧ g.admissions = 0

def Closed (p : Settings) (_ : Outcome Unit) (g : Ledger) : Prop :=
  ∃ lost m, g = of (slot p) [] [] lost m m 0

def abandoned (p : Settings) (b : Backend) : Ledger :=
  { of (slot p) [b] [] [b] 0 0 0 with aborted := 1 }

def Finished (p : Settings) (b : Backend) : Outcome Unit → Ledger → Prop
  | .returned _, g => g = of (slot p) [] [] [] 0 0 1
  | .panicked, g => g = abandoned p b

section Invariants
variable (p : Settings)

theorem admissions_nonneg {held owed lost : List Backend} {m n j : ℕ} :
    0 ≤ (of (slot p) held owed lost m n j).admissions :=
  smul_nonneg (slot_nonneg p) (add_nonneg (tally_nonneg owed) (tally_nonneg lost))

theorem admissions_unguarded {held owed lost : List Backend} {m n j : ℕ} (h : ¬ p.circuitBreaker) :
    (of (slot p) held owed lost m n j).admissions = 0 := by
  simp [of, slot_off h]

theorem keeps_handling {m n : ℕ} (h : n ≤ m) : Keeps p (Handling p) m n 0 := by
  intro held owed lost
  exact ⟨tally_nonneg held, admissions_nonneg p, admissions_unguarded p, h, rfl, rfl⟩

theorem keeps_attempting : Keeps p (Attempting p) 0 0 0 := by
  intro held owed lost
  exact ⟨tally_nonneg held, admissions_nonneg p, admissions_unguarded p, rfl, rfl, zero_le_one, nofun⟩

theorem attempting_finished : Attempting p (of (slot p) [] [] [] 0 0 1) :=
  ⟨le_rfl, admissions_nonneg p, admissions_unguarded p, rfl, rfl, le_rfl, fun _ => ⟨rfl, by simp [of]⟩⟩

theorem attempting_abandoned (b : Backend) : Attempting p (abandoned p b) := by
  obtain ⟨hc, ha, hu, -, -, -, -⟩ := keeps_attempting p [b] [] [b]
  exact ⟨hc, ha, hu, rfl, rfl, zero_le_one, nofun⟩

theorem upd_abort (b : Backend) (wrote : Bool) :
    (of (slot p) [b] [b] [] 0 0 0).upd (slot p) (.env (.serveHTTP .recorder b) (.panicked wrote)) =
      abandoned p b := by
  ext <;> simp [abandoned, upd, of, Account.change, connDelta, admitDelta, strandedBy, isAbort,
    Event.forked, Event.isFork, Event.isRecv, Event.isSend]

end Invariants

section Threads
variable {p : Settings} {R : Happening → Prop}

theorem safe_doHedgeAttempt (b : Backend) {Q : Outcome (Attempted × Recorder) → Ledger → Prop}
    (hret : ∀ res, Q (.returned res) (of (slot p) [b] [b] [] 0 0 0))
    (hpanic : Q .panicked (abandoned p b)) :
    Safe R (ledger p (Attempting p)) Q (doHedgeAttempt b) (of (slot p) [b] [b] [] 0 0 0) := by
  rw [doHedgeAttempt_eq]
  refine safe_roundTrip (keeps_attempting p) hret fun wrote => ?_
  rw [ledger_upd, upd_abort]
  exact ⟨attempting_abandoned p b, hpanic⟩

theorem safe_hedgeAttempt (b : Backend) :
    Safe R (ledger p (Attempting p)) (Finished p b) (hedgeAttempt p b)
      (of (slot p) [b] [b] [] 0 0 0) := by
  have hk := keeps_attempting p
  refine safe_bind.mpr (safe_doHedgeAttempt b (fun res => ?_) rfl)
  refine safe_op trivial (hk ..) fun _ _ => safe_bind.mpr (safe_recordCircuit hk _ ?_)
  refine safe_perform_bind.mpr ⟨hk .., fun a _ => ?_⟩
  rw [ledger_upd, upd_decrConn]
  refine ⟨hk .., ?_⟩
  rw [ledger_upd, upd_send]
  exact ⟨attempting_finished p, rfl⟩

theorem safe_handler {group : List Backend} (r : Request) (primary : Backend) :
    Safe (Grouped group) (ledger p (Handling p)) (Closed p) (proxyRequest p group r primary)
      (of (slot p) [primary] [] [] 0 0 0) :=
  safe_proxyRequest (fun _ _ h => keeps_handling p h) r primary fun _ h => h

end Threads

abbrev Handlers := Pool Op Ans Backend HedgeResult Unit

/-- Reachable from the start of `proxyRequest` on a reserved primary, with answers that keep to
the group. -/
def Reaches (p : Settings) (group : List Backend) (r : Request) (primary : Backend) (s : Handlers) :
    Prop :=
  (∃ ls, exec (step (hedgeAttempt p)) { main := proxyRequest p group r primary } ls = some s) ∧
    ∀ x ∈ s.log, Grouped group x.2

def Ended {α : Type} : Act α → Prop
  | .ret _ | .panic => True
  | _ => False

instance {α : Type} (prog : Act α) : Decidable (Ended prog) := by
  unfold Ended
  split <;> infer_instance

def handlerBooks (p : Settings) (primary : Backend) (s : Handlers) : Ledger :=
  (ledger p (Handling p)).fold (of (slot p) [primary] [] [] 0 0 0) (localLog none s.log)

def attemptBooks (p : Settings) (s : Handlers) (i : Fin s.spawned.length) : Ledger :=
  (ledger p (Attempting p)).fold (of (slot p) [(s.spawned.get i).1] [(s.spawned.get i).1] [] 0 0 0)
    (localLog (some i) s.log)

section Runs
variable {p : Settings} {group : List Backend} {r : Request} {primary : Backend} {s : Handlers}

theorem Reaches.safe (h : Reaches p group r primary s) :
    ThreadsSafe (Grouped group) (ledger p (Handling p)) (Closed p) (of (slot p) [primary] [] [] 0 0 0)
      (ledger p (Attempting p)) (Finished p) (fun b => of (slot p) [b] [b] [] 0 0 0) s := by
  obtain ⟨⟨ls, hrun⟩, hg⟩ := h
  exact threadsSafe_run safe_hedgeAttempt (safe_handler r primary) hrun hg

theorem Reaches.handling (h : Reaches p group r primary s) : Handling p (handlerBooks p primary s) :=
  h.safe.main.inv

theorem Reaches.closed (h : Reaches p group r primary s) (he : Ended s.main) :
    ∃ lost m, handlerBooks p primary s = of (slot p) [] [] lost m m 0 := by
  have hmain := h.safe.main
  cases hs : s.main with
  | ret | panic =>
    rw [hs] at hmain
    exact hmain.2
  | _ => simp [hs, Ended] at he

theorem Reaches.attempt (h : Reaches p group r primary s) (i : Fin s.spawned.length) :
    Safe (Grouped group) (ledger p (Attempting p)) (Finished p (s.spawned.get i).1) (s.spawned.get i).2
      (attemptBooks p s i) :=
  h.safe.spawned i (s.spawned.get i).1 (s.spawned.get i).2 (by simp)

theorem Reaches.attempting (h : Reaches p group r primary s) (i : Fin s.spawned.length) :
    Attempting p (attemptBooks p s i) := (h.attempt i).inv

theorem Reaches.crashed (h : Reaches p group r primary s) (hc : s.crashed) :
    ∃ i, attemptBooks p s i = abandoned p (s.spawned.get i).1 := by
  obtain ⟨ls, hrun⟩ := h.1
  obtain ⟨i, b, hi⟩ := crashed_run hrun hc
  obtain ⟨hlt, hget⟩ := List.getElem?_eq_some_iff.mp hi
  have hthread : s.spawned.get ⟨i, hlt⟩ = (b, .panic) := hget
  have hsafe := h.attempt ⟨i, hlt⟩
  rw [hthread] at hsafe
  refine ⟨⟨i, hlt⟩, ?_⟩
  rw [hthread]
  exact hsafe.2

theorem Reaches.conns_balance (h : Reaches p group r primary s) :
    (handlerBooks p primary s).conns + ∑ i, (attemptBooks p s i).conns =
      tally [primary] + (s.log.map fun x => connDelta x.2).sum := by
  obtain ⟨⟨ls, hrun⟩, -⟩ := h
  have hupd : ∀ (g : Ledger) e, (g.upd (slot p) e).conns = g.conns + connAccount.change e :=
    fun _ _ => rfl
  exact connAccount.balance (ledger p (Handling p)) (ledger p (Attempting p)) hupd hupd
    (of (slot p) [primary] [] [] 0 0 0) (fun b => of (slot p) [b] [b] [] 0 0 0)
    (fun b => by simp [of, connAccount]) hrun

theorem Reaches.admissions_balance (h : Reaches p group r primary s) :
    (handlerBooks p primary s).admissions + ∑ i, (attemptBooks p s i).admissions =
      (s.log.map fun x => admitDelta x.2).sum := by
  obtain ⟨⟨ls, hrun⟩, -⟩ := h
  have hupd : ∀ (g : Ledger) e,
      (g.upd (slot p) e).admissions = g.admissions + (admitAccount (slot p)).change e := fun _ _ => rfl
  have hstart : (of (slot p) [primary] [] [] 0 0 0).admissions = 0 := by simp [of]
  have hb :=
    (admitAccount (slot p)).balance (ledger p (Handling p)) (ledger p (Attempting p)) hupd hupd
    (of (slot p) [primary] [] [] 0 0 0) (fun b => of (slot p) [b] [b] [] 0 0 0)
    (fun b => by simp [of, admitAccount]) hrun
  rwa [hstart, zero_add] at hb

theorem Reaches.sum_books (h : Reaches p group r primary s) {N : Type} [AddCommMonoid N]
    (proj : Ledger → N) {f : Happening → N}
    (hupd : ∀ (g : Ledger) e, proj (g.upd (slot p) e) = proj g + f e)
    (hmain : proj (of (slot p) [primary] [] [] 0 0 0) = 0)
    (hspawned : ∀ b, proj (of (slot p) [b] [b] [] 0 0 0) = 0) :
    proj (handlerBooks p primary s) + ∑ i,
      proj (attemptBooks p s i) = (s.log.map fun x => f x.2).sum := by
  obtain ⟨⟨ls, hrun⟩, -⟩ := h
  have hb := sum_fold (ledger p (Handling p)) (ledger p (Attempting p)) hupd hupd
    (of (slot p) [primary] [] [] 0 0 0) (fun b => of (slot p) [b] [b] [] 0 0 0) hrun
  rw [hmain, zero_add] at hb
  simp only [hspawned, Finset.sum_const_zero, zero_add] at hb
  exact hb

theorem Reaches.launched (h : Reaches p group r primary s) :
    (handlerBooks p primary s).launched = s.spawned.length := by
  obtain ⟨ls, hrun⟩ := h.1
  have hsum := h.sum_books Ledger.launched (fun _ _ => rfl) rfl fun _ => rfl
  rw [← total_eq_sum, (accounted_run hrun).threads] at hsum
  simpa [(h.attempting _).launched] using hsum

theorem Reaches.messages (h : Reaches p group r primary s) :
    ∑ i, (attemptBooks p s i).sent = (handlerBooks p primary s).received + s.queue.length := by
  obtain ⟨ls, hrun⟩ := h.1
  have hsent := h.sum_books Ledger.sent (fun _ _ => rfl) rfl fun _ => rfl
  have hrecv := h.sum_books Ledger.received (fun _ _ => rfl) rfl fun _ => rfl
  rw [← total_eq_sum, (accounted_run hrun).messages, total_eq_sum, ← hrecv] at hsent
  simpa [(h.attempting _).received, h.handling.sent] using hsent

theorem Reaches.delivered (h : Reaches p group r primary s) (he : Ended s.main)
    (i : Fin s.spawned.length) : (attemptBooks p s i).sent = 1 := by
  obtain ⟨lost, m, hb⟩ := h.closed he
  have hmessages := h.messages
  have hlaunched := h.launched
  rw [hb] at hmessages hlaunched
  simp only [of] at hmessages hlaunched
  have hle : ∀ i, (attemptBooks p s i).sent ≤ 1 := fun i => (h.attempting i).sent
  have hsum : ∑ i, (attemptBooks p s i).sent = ∑ _i : Fin s.spawned.length, 1 := by
    apply le_antisymm (Finset.sum_le_sum fun i _ => hle i)
    rw [Finset.sum_const, Finset.card_univ, Fintype.card_fin, smul_eq_mul, mul_one]
    omega
  exact (Finset.sum_eq_sum_iff_of_le fun i _ => hle i).mp hsum i (Finset.mem_univ i)

end Runs

def reserves (b : Backend) : Happening → Bool
  | .env (.incrConn b') _ => b' = b
  | _ => false

def releases (b : Backend) : Happening → Bool
  | .env (.decrConn b') _ => b' = b
  | _ => false

theorem connDelta_apply (b : Backend) (e : Happening) :
    connDelta e b = (if reserves b e then 1 else 0) - (if releases b e then 1 else 0) := by
  cases e with
  | env o a => cases o <;> simp [connDelta, reserves, releases, Pi.single_apply, eq_comm]
  | fork | send | recv | timeout => rfl

section Reservations
variable {p : Settings} {group : List Backend} {r : Request} {primary : Backend} {s : Handlers}

/-- A request releases no backend more often than it reserved it, and when it ends it has released
them as often. -/
theorem reservations_conserved (h : Reaches p group r primary s) (b : Backend) :
    total (releases b) s.log ≤ total (reserves b) s.log + (if b = primary then 1 else 0) ∧
      (Ended s.main →
        total (releases b) s.log = total (reserves b) s.log + (if b = primary then 1 else 0)) := by
  have hbal := congrFun h.conns_balance b
  have hprimary : tally [primary] b = if b = primary then 1 else 0 := by
    simp [Pi.single_apply]
  rw [Pi.add_apply, Pi.add_apply, sum_delta (connDelta_apply b), hprimary, Finset.sum_apply] at hbal
  constructor
  · have hmain : 0 ≤ (handlerBooks p primary s).conns b := h.handling.conns b
    have hspawned : 0 ≤ ∑ i, (attemptBooks p s i).conns b :=
      Finset.sum_nonneg fun i _ => (h.attempting i).conns b
    split_ifs at hbal ⊢ <;> omega
  · intro he
    obtain ⟨lost, m, hb⟩ := h.closed he
    have hmain : (handlerBooks p primary s).conns b = 0 := by rw [hb]; rfl
    have hspawned : ∑ i, (attemptBooks p s i).conns b = 0 :=
      Finset.sum_eq_zero fun i _ => congrFun ((h.attempting i).settled (h.delivered he i)).1 b
    split_ifs at hbal ⊢ <;> omega

end Reservations

instance (group : List Backend) (e : Happening) : Decidable (Grouped group e) := by
  unfold Grouped
  split
  · next healthy =>
    exact inferInstanceAs (Decidable (∀ ⦃b⦄, b ∈ (show List Backend from healthy) → b ∈ group))
  · exact isTrue trivial

/-- The steps of an attempt on `b` that answers with a 200. -/
def answers (i : ℕ) (b : Backend) : List (Label Op Ans) :=
  [.spawned i (.answer (.recordBackendRequest b) ()), .spawned i (.answer (.proxyFor b) none),
    .spawned i (.answer (.serveHTTP .recorder b) (.served none true 200 0)),
    .spawned i (.answer (.count (.backendLatency b)) ()), .spawned i (.answer (.observeLatency b) ()),
    .spawned i (.answer (.observeOutcome b true) ()), .spawned i (.answer (.recordSuccess b) ()),
    .spawned i (.answer (.decrConn b) ()), .spawned i .go]

def raceOf (a b : Backend) : List (Label Op Ans) :=
  [.main (.answer (.allow a) none), .main (.answer .getHealthy [a, b]),
    .main (.answer (.allow b) none),
    .main (.answer (.incrConn b) ()), .main .go, .main .timeout, .main (.answer (.count .hedged) ()),
    .main .go]

def wonByExtra (a b : Backend) : List (Label Op Ans) :=
  raceOf a b ++ answers 1 b ++ answers 0 a ++
    [.main .go, .main .go, .main (.answer (.count .hedgeWins) ()),
      .main (.answer (.writeResponse 200 {}) ())]

/-- Two backends race for a request. -/
theorem reservations_conserved_race :
    let p : Settings :=
      { circuitBreaker := true, retryConfig := { hedge := { enabled := true, maxExtra := 1 } } }
    let a : Backend := { addr := 1 }
    let b : Backend := { addr := 2 }
    ∃ s, Reaches p [a, b] { method := "GET" } a s ∧ Ended s.main ∧
      total (releases b) s.log = total (reserves b) s.log := by
  intro p a b
  let ls := wonByExtra a b
  have h :
      ∃ s ∈ exec (step (hedgeAttempt p)) { main := proxyRequest p [a, b] { method := "GET" } a } ls,
      (∀ x ∈ s.log, Grouped [a, b] x.2) ∧ Ended s.main := by decide +kernel
  obtain ⟨s, hs, hg, he⟩ := h
  exact ⟨s, ⟨⟨ls, hs⟩, hg⟩, he, (reservations_conserved ⟨⟨ls, hs⟩, hg⟩ b).2 he⟩

end ReverseProxyLb.Proxy

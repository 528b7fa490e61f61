import ReverseProxyLb.Proxy.Ledger
import ReverseProxyLb.Lib.Confine

/-! What each function does to the ledger of its thread, for any invariant that the ledgers
met on the way satisfy. `slot` is one exactly if there is a breaker. -/
namespace ReverseProxyLb.Proxy
open Lib Ledger

variable (p : Settings)

def slot : ℤ := if p.circuitBreaker then 1 else 0

theorem slot_on {p : Settings} (h : p.circuitBreaker) : slot p = 1 := if_pos h

theorem slot_off {p : Settings} (h : ¬ p.circuitBreaker) : slot p = 0 := if_neg h

theorem slot_nonneg : 0 ≤ slot p := by unfold slot; split <;> decide

def ledger (inv : Ledger → Prop) : Discipline Op Ans Backend HedgeResult Ledger where
  upd := Ledger.upd (slot p)
  inv := inv

def Grouped (group : List Backend) : Happening → Prop
  | .env .getHealthy healthy => (show List Backend from healthy) ⊆ group
  | _ => True

section Helpers
variable {E : Happening → Prop} {b : Backend}

theorem within_atCapacity (h : ∀ a, E (.env (.getActiveConns b) a)) : Within E (atCapacity b) := by
  unfold atCapacity
  split
  · exact (within_perform h).bind fun _ => within_pure _
  · exact within_pure _

theorem within_isFull (h : ∀ a, E (.env (.getActiveConns b) a)) : Within E (isFull b) := by
  unfold isFull
  split
  · exact (within_perform h).bind fun _ => within_pure _
  · exact within_pure _

theorem within_admitted (h : ∀ a, E (.env (.allow b) a)) : Within E (admitted p b) := by
  unfold admitted
  split
  · exact (within_perform h).bind fun _ => within_pure _
  · exact within_pure _

theorem within_available (hconns : ∀ a, E (.env (.getActiveConns b) a))
    (hallow : ∀ a, E (.env (.allow b) a)) :
    Within E (available p b) := by
  apply (within_atCapacity hconns).bind
  intro full
  split
  · exact within_pure _
  · exact within_admitted p hallow

theorem within_recordCircuit (hfailure : ∀ a, E (.env (.recordFailure b) a))
    (hsuccess : ∀ a, E (.env (.recordSuccess b) a)) (cls : Class) :
    Within E (recordCircuit p b cls) := by
  unfold recordCircuit
  split_ifs
  · exact within_perform hfailure
  · exact within_perform hsuccess
  · exact within_pure _

theorem within_releaseAll {extras : List Backend} (h : ∀ b ∈ extras, ∀ a, E (.env (.decrConn b) a)) :
    Within E (releaseAll extras) := by
  induction extras with
  | nil => exact within_pure _
  | cons b rest ih =>
    obtain ⟨hb, hrest⟩ := List.forall_mem_cons.mp h
    exact (within_perform hb).bind fun _ => ih hrest

theorem within_reserveHedges (hconns : ∀ b a, E (.env (.getActiveConns b) a))
    (hallow : ∀ b a, E (.env (.allow b) a)) (hincr : ∀ b a, E (.env (.incrConn b) a))
    (primary : Backend) (n : ℤ) (out healthy : List Backend) :
    Within E (reserveHedges p primary n out healthy) := by
  induction healthy generalizing out with
  | nil => exact within_pure _
  | cons b rest ih =>
    unfold reserveHedges
    split_ifs
    · exact within_pure _
    · exact ih out
    · apply (within_isFull (hconns b)).bind
      intro full
      split
      · exact ih out
      · apply (within_admitted p (hallow b)).bind
        intro ok
        split
        · exact (within_perform (hincr b)).bind fun _ => ih _
        · exact ih out

def Counter.aside : Counter → Bool
  | .rejections | .hedged | .hedgeWins | .incrError | .incrCanaryError => true
  | _ => false

theorem within_countError (hcount : ∀ c, c.aside → ∀ a, E (.env (.count c) a)) (r : Request) :
    Within E (countError r) := by
  apply (within_perform (hcount _ rfl)).bind
  intro _
  split
  · exact within_perform (hcount _ rfl)
  · exact within_pure _

theorem within_giveUp (hcount : ∀ c, c.aside → ∀ a, E (.env (.count c) a))
    (herror : ∀ code msg a, E (.env (.httpError code msg) a)) (r : Request)
    (lastErr : Option UpstreamError) (blocked : Bool) : Within E (giveUp r lastErr blocked) := by
  apply (within_countError hcount r).bind
  intro _
  split
  · exact within_perform (herror _ _)
  · split
    · exact (within_perform (hcount _ rfl)).bind fun _ => within_perform (herror _ _)
    · exact within_perform (herror _ _)

theorem within_finishHedge (hcount : ∀ c, c.aside → ∀ a, E (.env (.count c) a))
    (herror : ∀ code msg a, E (.env (.httpError code msg) a))
    (hwrite : ∀ code content a, E (.env (.writeResponse code content) a)) (primary : Backend)
    (winner : Option HedgeResult) : Within E (finishHedge primary winner) := by
  cases winner with
  | none => exact (within_perform (hcount _ rfl)).bind fun _ => within_perform (herror _ _)
  | some hr =>
    dsimp only [finishHedge]
    split
    · exact (within_perform (hcount _ rfl)).bind fun _ => within_perform (hwrite _ _)
    · exact within_perform (hwrite _ _)

def Pacing : Op → Prop
  | .loadRetryCount | .loadRetryReqs | .int63n _ | .sleep _ => True
  | .count .retryCount | .count .incrRetry | .count .budgetDenied => True
  | _ => False

theorem pacing_allowRetry : Only Pacing (allowRetry p) := by
  unfold allowRetry
  split
  · exact within_pure _
  · refine (only_perform (o := Op.loadRetryCount) trivial).bind fun retries => ?_
    split
    · exact within_pure _
    · refine (only_perform (o := Op.loadRetryReqs) trivial).bind fun reqs => ?_
      split <;> exact within_pure _

theorem within_calculateBackoff (hdraw : ∀ n a, E (.env (.int63n n) a)) (attempt : ℕ) :
    Within E (calculateBackoff p attempt) := by
  unfold calculateBackoff
  split
  · exact within_pure _
  · dsimp only
    split_ifs
    any_goals exact within_pure _
    all_goals exact within_perform (hdraw _)

theorem within_sleepBackoff (hdraw : ∀ n a, E (.env (.int63n n) a))
    (hsleep : ∀ d a, E (.env (.sleep d) a)) (attempt : ℕ) (retryAfter : ℤ) :
    Within E (sleepBackoff p attempt retryAfter) := by
  refine (within_calculateBackoff p hdraw attempt).bind fun d => ?_
  dsimp only
  generalize (if 0 < retryAfter then _ else _ : ℤ) = d'
  split
  · exact within_perform (hsleep _)
  · exact within_pure _

theorem pacing_beforeRetry (attempt : ℕ) (retryAfter : ℤ) :
    Only Pacing (beforeRetry p attempt retryAfter) := by
  unfold beforeRetry
  split
  · exact within_pure _
  · refine (pacing_allowRetry p).bind fun ok => ?_
    split
    · refine (only_perform (o := Op.count .retryCount) trivial).bind fun _ => ?_
      refine (only_perform (o := Op.count .incrRetry) trivial).bind fun _ => ?_
      exact (within_sleepBackoff p (fun _ _ => trivial) (fun _ _ => trivial) attempt retryAfter).bind
        fun _ => within_pure _
    · exact (only_perform (o := Op.count .budgetDenied) trivial).bind fun _ => within_pure _

variable {R : Happening → Prop}

theorem confined_launchExtras (hcount : ∀ a, E (.env (.count .hedged) a)) {extras : List Backend}
    (hfork : ∀ b ∈ extras, E (.fork b)) : Confined R E (fun _ => True) (launchExtras extras) := by
  induction extras with
  | nil => trivial
  | cons b rest ih =>
    obtain ⟨hb, hrest⟩ := List.forall_mem_cons.mp hfork
    exact fun a _ => ⟨hcount a, hb, ih hrest⟩

theorem confined_collect (hcount : ∀ a, E (.env (.count .hedged) a)) {extras : List Backend}
    (hfork : ∀ b ∈ extras, E (.fork b)) (hrecv : ∀ hr, E (.recv hr)) (htimeout : E .timeout) (fuel : ℕ)
    (race : Race) : Confined R E (fun _ => True) (collect extras fuel race) := by
  induction fuel generalizing race with
  | zero => trivial
  | succ fuel ih =>
    have hlaunch : ∀ race, Confined R E (fun _ => True)
        (launchExtras extras >>= fun _ => collect extras fuel race) :=
      fun race => (confined_launchExtras hcount hfork).bind fun _ _ => ih race
    unfold collect
    split_ifs
    · trivial
    · exact fun hr => ⟨hrecv hr, ih _⟩
    · refine ⟨⟨htimeout, hlaunch _⟩, fun hr => ⟨hrecv hr, ?_⟩⟩
      change Confined _ _ _ (if (race.winner.isNone && isHedgeWin hr) = true then _ else _)
      split_ifs
      · trivial
      · exact hlaunch _

theorem confined_drain (hrecv : ∀ hr, E (.recv hr)) (pending : ℕ) (winner : Option HedgeResult) :
    Confined R E (fun _ => True) (drain pending winner) := by
  induction pending generalizing winner with
  | zero => trivial
  | succ pending ih => exact fun hr => ⟨hrecv hr, ih _⟩

end Helpers

def Bookkeeping : Op → Prop
  | .getActiveConns _ | .loadRetryCount | .loadRetryReqs | .int63n _ | .sleep _ | .count _ => True
  | _ => False

theorem Bookkeeping.neutral (o : Op) (h : Bookkeeping o) : Neutral o := by
  cases o <;> first | exact h.elim | trivial

theorem Pacing.bookkeeping (o : Op) (h : Pacing o) : Bookkeeping o := by
  cases o <;> first | exact h.elim | trivial

section Quiet

theorem quiet_atCapacity (b : Backend) : Only Bookkeeping (atCapacity b) :=
  within_atCapacity fun _ => trivial

theorem quiet_isFull (b : Backend) : Only Bookkeeping (isFull b) := within_isFull fun _ => trivial

theorem quiet_count (c : Counter) : Only Bookkeeping (count c) := only_perform trivial

theorem quiet_beforeRetry (attempt : ℕ) (retryAfter : ℤ) :
    Only Bookkeeping (beforeRetry p attempt retryAfter) :=
  (pacing_beforeRetry p attempt retryAfter).mono Pacing.bookkeeping

theorem quiet_countError (r : Request) : Only Bookkeeping (countError r) :=
  within_countError (fun _ _ _ => trivial) r

theorem neutral_giveUp (r : Request) (lastErr : Option UpstreamError) (blocked : Bool) :
    Only Neutral (giveUp r lastErr blocked) :=
  within_giveUp (fun _ _ _ => trivial) (fun _ _ _ => trivial) r lastErr blocked

theorem neutral_finishHedge (primary : Backend) (winner : Option HedgeResult) :
    Only Neutral (finishHedge primary winner) :=
  within_finishHedge
    (fun _ _ _ => trivial) (fun _ _ _ => trivial) (fun _ _ _ => trivial) primary winner

end Quiet

/-- What an attempt on `b` does up to the end of the exchange with its upstream. -/
def Exchange (w : Writer) (b : Backend) : Happening → Prop
  | .env (.recordBackendRequest b') _ | .env (.proxyFor b') _ | .env (.observeLatency b') _ => b' = b
  | .env (.serveHTTP w' b') _ => w' = w ∧ b' = b
  | .env (.count _) _ => True
  | _ => False

section Exchange
variable {R : Happening → Prop} (b : Backend)

/-- What `doRequest` and `doHedgeAttempt` share. -/
def roundTrip {α : Type} (w : Writer) (b : Backend) (refused : UpstreamError → α)
    (failed : UpstreamError → Bool → ℤ → Content → α) (answered : Bool → ℤ → ℤ → Content → α) :
    Act α := do
  recordBackendRequest b
  match ← proxyFor b with
  | some err => pure (refused err)
  | none =>
    match ← serveHTTP w b with
    | .panicked _ => .panic
    | .served err wrote statusCode retryAfter content => do
      count (.backendLatency b)
      match err with
      | some err => pure (failed err wrote statusCode content)
      | none => do
        if responseClass statusCode = .ok then observeLatency b
        pure (answered wrote statusCode retryAfter content)

theorem doRequest_eq : doRequest p b = roundTrip .client b
    (fun err => { err := some err, cls := .connect, written := false })
    (fun err wrote _ _ => { err := some err, cls := classifyError err, written := wrote })
    (fun wrote statusCode retryAfter _ =>
      { err := none, cls := responseClass statusCode, written := wrote
        retryAfter := if p.retryConfig.honorRetryAfter then retryAfter else 0 }) := rfl

theorem doHedgeAttempt_eq : doHedgeAttempt b = roundTrip .recorder b
    (fun err => ({ err := some err, cls := .connect, written := false }, {}))
    (fun err wrote statusCode content =>
      ({ err := some err, cls := classifyError err, written := wrote },
        { code := if wrote then statusCode else 200, content := content }))
    (fun wrote statusCode _ content =>
      ({ err := none, cls := responseClass statusCode, written := wrote },
        { code := if wrote then statusCode else 200, content := content })) := rfl

theorem confined_roundTrip {α : Type} {E : Happening → Prop} (w : Writer) (refused : UpstreamError → α)
    (failed : UpstreamError → Bool → ℤ → Content → α) (answered : Bool → ℤ → ℤ → Content → α)
    (hrequest : ∀ a, E (.env (.recordBackendRequest b) a)) (hproxy : ∀ a, E (.env (.proxyFor b) a))
    (hserve : ∀ a, E (.env (.serveHTTP w b) a))
    (hlatency : ∀ a, E (.env (.count (.backendLatency b)) a))
    (hobserve : ∀ a, E (.env (.observeLatency b) a)) :
    Confined R E (fun _ => True) (roundTrip w b refused failed answered) := by
  refine fun _ _ => ⟨hrequest _, fun failed _ => ⟨hproxy _, ?_⟩⟩
  cases failed with
  | some err => trivial
  | none =>
    refine fun reply _ => ⟨hserve _, ?_⟩
    cases reply with
    | panicked wrote => trivial
    | served err wrote code retryAfter content =>
      refine fun _ _ => ⟨hlatency _, ?_⟩
      cases err with
      | some err => trivial
      | none =>
        dsimp only [Prog.bind]
        by_cases hok : responseClass code = .ok
        · rw [if_pos hok]
          exact fun _ _ => ⟨hobserve _, trivial⟩
        · rw [if_neg hok]
          trivial

theorem confined_doRequest {E : Happening → Prop}
    (hrequest : ∀ a, E (.env (.recordBackendRequest b) a)) (hproxy : ∀ a, E (.env (.proxyFor b) a))
    (hserve : ∀ a, E (.env (.serveHTTP .client b) a))
    (hlatency : ∀ a, E (.env (.count (.backendLatency b)) a))
    (hobserve : ∀ a, E (.env (.observeLatency b) a)) :
    Confined R E (fun _ => True) (doRequest p b) := by
  rw [doRequest_eq]
  exact confined_roundTrip b .client _ _ _ hrequest hproxy hserve hlatency hobserve

theorem exchange_doRequest : Confined R (Exchange .client b) (fun _ => True) (doRequest p b) :=
  confined_doRequest p b
    (fun _ => rfl) (fun _ => rfl) (fun _ => ⟨rfl, rfl⟩) (fun _ => trivial) fun _ => rfl

theorem confined_doHedgeAttempt {E : Happening → Prop}
    (hrequest : ∀ a, E (.env (.recordBackendRequest b) a)) (hproxy : ∀ a, E (.env (.proxyFor b) a))
    (hserve : ∀ a, E (.env (.serveHTTP .recorder b) a))
    (hlatency : ∀ a, E (.env (.count (.backendLatency b)) a))
    (hobserve : ∀ a, E (.env (.observeLatency b) a)) :
    Confined R E (fun _ => True) (doHedgeAttempt b) := by
  rw [doHedgeAttempt_eq]
  exact confined_roundTrip b .recorder _ _ _ hrequest hproxy hserve hlatency hobserve

theorem exchange_doHedgeAttempt :
    Confined R (Exchange .recorder b) (fun _ => True) (doHedgeAttempt b) :=
  confined_doHedgeAttempt b
    (fun _ => rfl) (fun _ => rfl) (fun _ => ⟨rfl, rfl⟩) (fun _ => trivial) fun _ => rfl

end Exchange

def Keeps (inv : Ledger → Prop) (m n j : ℕ) : Prop :=
  ∀ held owed lost, inv (of (slot p) held owed lost m n j)

section Sequential
variable {p} {inv : Ledger → Prop} {R : Happening → Prop} {held owed lost : List Backend} {m n j : ℕ}
  {b : Backend}

theorem ledger_upd (g : Ledger) (e : Happening) : (ledger p inv).upd g e = g.upd (slot p) e := rfl

theorem of_free (h : ¬ p.circuitBreaker) (owed' lost' : List Backend) :
    of (slot p) held owed lost m n j = of (slot p) held owed' lost' m n j := by
  simp [of, slot_off h]

theorem safe_neutral {α : Type} {prog : Act α} {g : Ledger} {Q : Outcome α → Ledger → Prop}
    (h : Only Neutral prog) (hi : inv g) (hq : ∀ a, Q (.returned a) g) :
    Safe R (ledger p inv) Q prog g :=
  h.safe (fun e he => by cases e with
    | env o a => exact upd_neutral he a
    | fork | send | recv | timeout => exact he.elim) hi hq

theorem safe_quiet {α : Type} {prog : Act α} {g : Ledger} {Q : Outcome α → Ledger → Prop}
    (h : Only Bookkeeping prog) (hi : inv g) (hq : ∀ a, Q (.returned a) g) :
    Safe R (ledger p inv) Q prog g :=
  safe_neutral (h.mono Bookkeeping.neutral) hi hq

theorem safe_op {α : Type} {o : Op} {f : Ans o → Act α} {g : Ledger} {Q : Outcome α → Ledger → Prop}
    (h : Neutral o) (hi : inv g) (hf : ∀ a, R (.env o a) → Safe R (ledger p inv) Q (f a) g) :
    Safe R (ledger p inv) Q (Prog.perform o >>= f) g := by
  refine safe_perform_bind.mpr ⟨hi, fun a ha => ?_⟩
  rw [ledger_upd, upd_neutral h]
  exact hf a ha

theorem safe_admitted (hk : Keeps p inv m n j) {Q : Outcome Bool → Ledger → Prop}
    (hyes : Q (.returned true) (of (slot p) held (b :: owed) lost m n j))
    (hno : Q (.returned false) (of (slot p) held owed lost m n j)) :
    Safe R (ledger p inv) Q (admitted p b) (of (slot p) held owed lost m n j) := by
  unfold admitted
  split
  · next h =>
    refine safe_perform_bind.mpr ⟨hk .., fun err _ => ?_⟩
    rw [ledger_upd, upd_allow (slot_on h)]
    cases err with
    | none => exact ⟨hk .., hyes⟩
    | some _ => exact ⟨hk .., hno⟩
  · next h =>
    rw [of_free h (b :: owed) lost]
    exact ⟨hk .., hyes⟩

theorem safe_available (hk : Keeps p inv m n j) {Q : Outcome Bool → Ledger → Prop}
    (hyes : Q (.returned true) (of (slot p) held (b :: owed) lost m n j))
    (hno : Q (.returned false) (of (slot p) held owed lost m n j)) :
    Safe R (ledger p inv) Q (available p b) (of (slot p) held owed lost m n j) := by
  refine safe_bind.mpr (safe_quiet (quiet_atCapacity b) (hk ..) fun full => ?_)
  cases full with
  | true => exact ⟨hk .., hno⟩
  | false => exact safe_admitted hk hyes hno

theorem safe_recordCircuit (hk : Keeps p inv m n j) (cls : Class) {Q : Outcome Unit → Ledger → Prop}
    (hq : Q (.returned ()) (of (slot p) held owed lost m n j)) :
    Safe R (ledger p inv) Q (recordCircuit p b cls) (of (slot p) held (b :: owed) lost m n j) := by
  unfold recordCircuit
  split
  · next h =>
    split
    · refine safe_perform.mpr ⟨hk .., fun a _ => ?_⟩
      rw [ledger_upd, upd_recordFailure (slot_on h)]
      exact ⟨hk .., hq⟩
    · refine safe_perform.mpr ⟨hk .., fun a _ => ?_⟩
      rw [ledger_upd, upd_recordSuccess (slot_on h)]
      exact ⟨hk .., hq⟩
  · next h =>
    rw [of_free h owed lost]
    exact ⟨hk .., hq⟩

theorem safe_roundTrip {α : Type} {w : Writer} {refused : UpstreamError → α}
    {failed : UpstreamError → Bool → ℤ → Content → α} {answered : Bool → ℤ → ℤ → Content → α}
    (hk : Keeps p inv m n j) {Q : Outcome α → Ledger → Prop}
    (hret : ∀ res, Q (.returned res) (of (slot p) held (b :: owed) lost m n j))
    (hpanic : ∀ wrote,
      Safe R (ledger p inv) Q .panic
      ((ledger p inv).upd (of (slot p) held (b :: owed) lost m n j)
      (.env (.serveHTTP w b) (.panicked wrote)))) :
    Safe R (ledger p inv) Q
      (roundTrip w b refused failed answered) (of (slot p) held (b :: owed) lost m n j) := by
  refine safe_op trivial (hk ..) fun _ _ => safe_op trivial (hk ..) fun failed _ => ?_
  cases failed with
  | some err => exact ⟨hk .., hret _⟩
  | none =>
    refine safe_perform_bind.mpr ⟨hk .., fun reply _ => ?_⟩
    cases reply with
    | panicked wrote => exact hpanic wrote
    | served err wrote code retryAfter content =>
      rw [ledger_upd, upd_served]
      refine safe_op trivial (hk ..) fun _ _ => ?_
      cases err with
      | some err => exact ⟨hk .., hret _⟩
      | none =>
        dsimp only
        split
        · exact safe_op trivial (hk ..) fun _ _ => ⟨hk .., hret _⟩
        · exact ⟨hk .., hret _⟩

theorem safe_doRequest (hk : Keeps p inv m n j) {Q : Outcome Attempted → Ledger → Prop}
    (hret : ∀ res, Q (.returned res) (of (slot p) held (b :: owed) lost m n j))
    (hpanic : Q .panicked (of (slot p) held owed (b :: lost) m n j)) :
    Safe R (ledger p inv) Q (doRequest p b) (of (slot p) held (b :: owed) lost m n j) := by
  rw [doRequest_eq]
  refine safe_roundTrip hk hret fun wrote => ?_
  rw [ledger_upd, upd_panicked]
  exact ⟨hk .., hpanic⟩

theorem safe_attemptLoop (hk : Keeps p inv m n j) {Q : Outcome Attempted → Ledger → Prop}
    (hret : ∀ res, Q (.returned res) (of (slot p) held (b :: owed) lost m n j))
    (hpanic : Q .panicked (of (slot p) held owed (b :: lost) m n j)) (rounds attempt : ℕ)
    (last : Attempted) :
    Safe R (ledger p inv) Q (attemptLoop p b rounds attempt last)
      (of (slot p) held (b :: owed) lost m n j) := by
  induction rounds generalizing attempt last with
  | zero => exact ⟨hk .., hret _⟩
  | succ rounds ih =>
    refine safe_bind.mpr
      (safe_quiet (quiet_beforeRetry p attempt last.retryAfter) (hk ..) fun go => ?_)
    cases go with
    | false => exact ⟨hk .., hret _⟩
    | true =>
      refine safe_bind.mpr (safe_doRequest hk (fun res => ?_) hpanic)
      obtain ⟨err, cls, written, retryAfter⟩ := res
      cases err with
      | none => exact ⟨hk .., hret _⟩
      | some err =>
        refine safe_op trivial (hk ..) fun _ _ => ?_
        dsimp only
        split_ifs
        · exact ⟨hk .., hret _⟩
        · exact ⟨hk .., hret _⟩
        · exact ih (attempt + 1) _

theorem safe_attemptBackend (hk : Keeps p inv m n j) (r : Request)
    {Q : Outcome Attempted → Ledger → Prop}
    (hret : ∀ res, Q (.returned res) (of (slot p) held (b :: owed) lost m n j))
    (hpanic : Q .panicked (of (slot p) held owed (b :: lost) m n j)) :
    Safe R (ledger p inv) Q
      (attemptBackend p r b) (of (slot p) (b :: held) (b :: owed) lost m n j) := by
  refine safe_deferring.mpr
    (safe_op trivial (hk ..) fun _ _ => safe_attemptLoop hk (fun res => ?_) ?_ _ _ _)
  · refine safe_perform.mpr ⟨hk .., fun a _ => ?_⟩
    rw [ledger_upd, upd_decrConn]
    exact ⟨hk .., hk .., hret res⟩
  · refine safe_perform.mpr ⟨hk .., fun a _ => ?_⟩
    rw [ledger_upd, upd_decrConn]
    exact ⟨hk .., hk .., hpanic⟩

theorem safe_visit (hk : Keeps p inv m n j) (r : Request) (lastErr : Option UpstreamError)
    (blocked : Bool) {Q : Outcome Verdict → Ledger → Prop}
    (hret : ∀ v, Q (.returned v) (of (slot p) held owed lost m n j))
    (hpanic : Q .panicked (of (slot p) held owed (b :: lost) m n j)) :
    Safe R (ledger p inv) Q
      (visit p r b lastErr blocked) (of (slot p) (b :: held) owed lost m n j) := by
  refine safe_op trivial (hk ..) fun _ _ => safe_bind.mpr (safe_available hk ?_ ?_)
  · refine safe_bind.mpr (safe_attemptBackend hk r (fun res => ?_) hpanic)
    refine safe_op trivial (hk ..) fun _ _ => safe_bind.mpr (safe_recordCircuit hk _ ?_)
    obtain ⟨err, cls, written, retryAfter⟩ := res
    cases err with
    | none => exact ⟨hk .., hret _⟩
    | some err =>
      dsimp only [Then]
      split_ifs
      · exact safe_bind.mpr (safe_quiet (quiet_countError r) (hk ..) fun _ => ⟨hk .., hret _⟩)
      · exact ⟨hk .., hret _⟩
      · exact ⟨hk .., hret _⟩
  · refine safe_bind.mpr (safe_quiet (quiet_atCapacity b) (hk ..) fun full => ?_)
    refine safe_perform_bind.mpr ⟨hk .., fun a _ => ?_⟩
    rw [ledger_upd, upd_decrConn]
    exact ⟨hk .., hret _⟩

theorem safe_reserveUntried (hk : Keeps p inv m n j) (tried healthy : List Backend)
    {Q : Outcome (Option Backend) → Ledger → Prop}
    (hnone : Q (.returned none) (of (slot p) held owed lost m n j))
    (hsome : ∀ b ∈ healthy, b ∉ tried →
      Q (.returned (some b)) (of (slot p) (b :: held) owed lost m n j)) :
    Safe R (ledger p inv) Q (reserveUntried tried healthy) (of (slot p) held owed lost m n j) := by
  induction healthy with
  | nil => exact ⟨hk .., hnone⟩
  | cons b rest ih =>
    have hrest := ih fun b' hb' => hsome b' (List.mem_cons_of_mem _ hb')
    unfold reserveUntried
    split_ifs with hb
    · exact hrest
    · refine safe_bind.mpr (safe_quiet (quiet_isFull b) (hk ..) fun full => ?_)
      cases full with
      | true => exact hrest
      | false =>
        refine safe_perform_bind.mpr ⟨hk .., fun a _ => ?_⟩
        rw [ledger_upd, upd_incrConn]
        exact ⟨hk .., hsome b (List.mem_cons_self ..) hb⟩

theorem safe_failover (hk : Keeps p inv m n j) (r : Request) {group : List Backend} {primary : Backend}
    (hR : ∀ healthy : List Backend, R (.env .getHealthy healthy) → healthy ⊆ group)
    {Q : Outcome Unit → Ledger → Prop} (hret : Q (.returned ()) (of (slot p) held owed lost m n j))
    (hpanic : ∀ b, Q .panicked (of (slot p) held owed (b :: lost) m n j)) (fuel : ℕ)
    (tried : List Backend) (lastErr : Option UpstreamError) (blocked : Bool) (hn : (b :: tried).Nodup)
    (hsub : b :: tried ⊆ primary :: group) (hfuel : group.length + 1 ≤ tried.length + fuel) :
    Safe R (ledger p inv) Q (failover p r fuel b tried lastErr blocked)
      (of (slot p) (b :: held) owed lost m n j) := by
  induction fuel generalizing b tried lastErr blocked with
  | zero =>
    have hlen := (List.subperm_of_subset hn hsub).length_le
    simp only [List.length_cons] at hlen
    omega
  | succ fuel ih =>
    refine safe_bind.mpr (safe_visit hk r lastErr blocked (fun v => ?_) (hpanic b))
    have hend : ∀ lastErr blocked, Safe R (ledger p inv) Q (giveUp r lastErr blocked)
        (of (slot p) held owed lost m n j) :=
      fun lastErr blocked => safe_neutral (neutral_giveUp r lastErr blocked) (hk ..) fun _ => hret
    cases v with
    | done => exact ⟨hk .., hret⟩
    | stop lastErr => exact hend lastErr blocked
    | next lastErr blocked =>
      refine safe_bind.mpr (safe_op trivial (hk ..) fun healthy hh => ?_)
      refine safe_reserveUntried hk _ _ (hend lastErr blocked) fun b' hb' hnew => ?_
      have hsub' : b' :: b :: tried ⊆ primary :: group :=
        List.cons_subset.mpr ⟨List.mem_cons_of_mem _ (hR healthy hh hb'), hsub⟩
      exact ih (b :: tried) lastErr blocked (List.nodup_cons.mpr ⟨hnew, hn⟩) hsub'
        (by simp only [List.length_cons]; omega)

theorem safe_sequential (hk : Keeps p inv m n j) (r : Request) {group : List Backend}
    (primary : Backend) (hR : ∀ healthy : List Backend, R (.env .getHealthy healthy) → healthy ⊆ group)
    {Q : Outcome Unit → Ledger → Prop} (hret : Q (.returned ()) (of (slot p) held owed lost m n j))
    (hpanic : ∀ b, Q .panicked (of (slot p) held owed (b :: lost) m n j)) :
    Safe R (ledger p inv) Q (sequential p group r primary)
      (of (slot p) (primary :: held) owed lost m n j) :=
  safe_failover hk r hR hret hpanic _ [] none false (List.nodup_singleton _)
    (List.cons_subset_cons primary (List.nil_subset group)) (by simp)

end Sequential

section Hedged
variable {p} {inv : Ledger → Prop} {R : Happening → Prop} {held owed lost : List Backend} {m n j : ℕ}

theorem of_congr {held' owed' : List Backend} (hh : held.Perm held') (ho : owed.Perm owed') :
    of (slot p) held owed lost m n j = of (slot p) held' owed' lost m n j := by
  have htally : ∀ {l l' : List Backend}, l.Perm l' → tally l = tally l' := fun h => (h.map _).sum_eq
  simp [of, htally hh, htally ho]

theorem safe_reserveHedges (hk : Keeps p inv m n j) (primary : Backend) (maxExtra : ℤ)
    {Q : Outcome (List Backend) → Ledger → Prop}
    (hret : ∀ extras, Q (.returned extras) (of (slot p) (extras ++ held) (extras ++ owed) lost m n j))
    (out healthy : List Backend) :
    Safe R (ledger p inv) Q (reserveHedges p primary maxExtra out healthy)
      (of (slot p) (out ++ held) (out ++ owed) lost m n j) := by
  induction healthy generalizing out with
  | nil => exact ⟨hk .., hret out⟩
  | cons b rest ih =>
    unfold reserveHedges
    split_ifs
    · exact ⟨hk .., hret out⟩
    · exact ih out
    · refine safe_bind.mpr (safe_quiet (quiet_isFull b) (hk ..) fun full => ?_)
      cases full with
      | true => exact ih out
      | false =>
        refine safe_bind.mpr (safe_admitted hk ?_ (ih out))
        refine safe_perform_bind.mpr ⟨hk .., fun a _ => ?_⟩
        have hperm : ∀ l : List Backend, (b :: (out ++ l)).Perm ((out ++ [b]) ++ l) := fun l => by
          rw [List.append_assoc, List.singleton_append]
          exact List.perm_middle.symm
        rw [ledger_upd, upd_incrConn, of_congr (hperm held) (hperm owed)]
        exact ih (out ++ [b])

theorem safe_launchExtras (hk : ∀ m, n ≤ m → Keeps p inv m n j) (hm : n ≤ m) (extras : List Backend)
    {Q : Outcome Unit → Ledger → Prop}
    (hq : Q (.returned ()) (of (slot p) held owed lost (m + extras.length) n j)) :
    Safe R (ledger p inv) Q (launchExtras extras)
      (of (slot p) (extras ++ held) (extras ++ owed) lost m n j) := by
  induction extras generalizing m with
  | nil => exact ⟨hk m hm .., hq⟩
  | cons b rest ih =>
    refine safe_op trivial (hk m hm ..) fun _ _ => ⟨hk m hm .., ?_⟩
    rw [ledger_upd, List.cons_append, List.cons_append, upd_fork]
    refine ih (by omega) ?_
    have hlen : m + 1 + rest.length = m + (b :: rest).length := by
      rw [List.length_cons]
      omega
    rwa [hlen]

theorem safe_releaseAll (hk : Keeps p inv m n j) (extras : List Backend)
    {Q : Outcome Unit → Ledger → Prop} (hq : Q (.returned ()) (of (slot p) held owed lost m n j)) :
    Safe R (ledger p inv) Q (releaseAll extras) (of (slot p) (extras ++ held) owed lost m n j) := by
  induction extras with
  | nil => exact ⟨hk .., hq⟩
  | cons b rest ih =>
    refine safe_perform_bind.mpr ⟨hk .., fun a _ => ?_⟩
    rw [ledger_upd, List.cons_append, upd_decrConn]
    exact ih

theorem safe_collect_launched (hk : ∀ m n, n ≤ m → Keeps p inv m n j) (extras : List Backend)
    {Q : Outcome Race → Ledger → Prop}
    (hq : ∀ race : Race, race.extrasLaunched → race.pending = 0 →
      Q (.returned race) (of (slot p) held owed lost m m j))
    (fuel : ℕ) (race : Race) (hl : race.extrasLaunched) (hm : n + race.pending = m)
    (hfuel : race.pending < fuel) :
    Safe R (ledger p inv) Q (collect extras fuel race) (of (slot p) held owed lost m n j) := by
  induction fuel generalizing n race with
  | zero => omega
  | succ fuel ih =>
    unfold collect
    split_ifs with h0
    · obtain rfl : n = m := by omega
      exact ⟨hk n n le_rfl .., hq race hl h0⟩
    · refine ⟨hk m n (by omega) .., fun hr _ => ?_⟩
      rw [ledger_upd, upd_recv]
      exact ih _ hl (by dsimp only; omega) (by dsimp only; omega)

theorem safe_collect (hk : ∀ m n, n ≤ m → Keeps p inv m n j) (extras : List Backend)
    {Q : Outcome Race → Ledger → Prop}
    (hlaunched : ∀ race : Race, race.extrasLaunched → race.pending = 0 →
      Q (.returned race)
      (of (slot p) held owed lost (n + 1 + extras.length) (n + 1 + extras.length) j))
    (hwon : ∀ race : Race, race.extrasLaunched = false → race.pending = 0 →
      Q (.returned race) (of (slot p) (extras ++ held) (extras ++ owed) lost (n + 1) (n + 1) j)) :
    Safe R (ledger p inv) Q (collect extras (extras.length + 3) { pending := 1 })
      (of (slot p) (extras ++ held) (extras ++ owed) lost (n + 1) n j) := by
  refine ⟨hk _ _ (by omega) .., ?_, fun hr _ => ?_⟩
  · rw [ledger_upd, upd_timeout]
    change Safe R _ Q (launchExtras extras >>= fun _ => collect extras (extras.length + 2) _) _
    refine safe_bind.mpr (safe_launchExtras (fun m hm => hk m n hm) (Nat.le_succ n) extras ?_)
    exact safe_collect_launched hk extras hlaunched _ _ rfl
      (by dsimp only; omega) (by dsimp only; omega)
  · rw [ledger_upd, upd_recv]
    change Safe R _ Q (if isHedgeWin hr = true then _ else _) _
    split_ifs
    · exact ⟨hk _ _ le_rfl .., hwon _ rfl rfl⟩
    · refine safe_bind.mpr (safe_launchExtras (fun m hm => hk m (n + 1) hm) le_rfl extras ?_)
      exact safe_collect_launched hk extras hlaunched _ _ rfl (by dsimp only; omega)
        (by dsimp only; omega)

theorem safe_hedge (hk : ∀ m n, n ≤ m → Keeps p inv m n j) (primary : Backend) (extras : List Backend)
    {Q : Outcome Unit → Ledger → Prop}
    (hq : ∀ lost' m, Q (.returned ()) (of (slot p) held owed (lost' ++ lost) m m j)) :
    Safe R (ledger p inv) Q (hedge primary extras)
      (of (slot p) (primary :: (extras ++ held)) (primary :: (extras ++ owed)) lost n n j) := by
  refine safe_bind.mpr ⟨hk _ _ le_rfl .., ?_⟩
  rw [ledger_upd, upd_fork]
  refine ⟨hk _ _ (Nat.le_succ n) .., safe_bind.mpr ?_⟩
  refine safe_collect hk extras (fun race hl h0 => ?_) fun race hl h0 => ?_
  · simp only [Then, hl, h0, if_true]
    exact safe_neutral (neutral_finishHedge primary race.winner) (hk _ _ le_rfl ..) fun _ => hq [] _
  · simp only [Then, hl, h0]
    refine safe_perform_bind.mpr ⟨hk _ _ le_rfl .., fun a _ => ?_⟩
    rw [ledger_upd, upd_unlaunched]
    refine safe_bind.mpr (safe_releaseAll (hk _ _ le_rfl) extras ?_)
    exact safe_neutral (neutral_finishHedge primary race.winner) (hk _ _ le_rfl ..) fun _ =>
      hq extras _

theorem safe_proxyRequestHedged (hk : ∀ m n, n ≤ m → Keeps p inv m n j) (primary : Backend)
    {Q : Outcome Bool → Ledger → Prop}
    (hyes : ∀ lost' m, Q (.returned true) (of (slot p) held owed (lost' ++ lost) m m j))
    (hno : ∀ lost', Q (.returned false) (of (slot p) (primary :: held) owed (lost' ++ lost) n n j)) :
    Safe R (ledger p inv) Q (proxyRequestHedged p primary)
      (of (slot p) (primary :: held) owed lost n n j) := by
  have hkn := hk n n le_rfl
  refine safe_bind.mpr (safe_available hkn ?_ ⟨hkn .., hno []⟩)
  refine safe_bind.mpr (safe_op trivial (hkn ..) fun healthy _ => ?_)
  refine safe_reserveHedges hkn primary _ (fun extras => ?_) [] healthy
  have hperm : ∀ l : List Backend, (extras ++ primary :: l).Perm (primary :: (extras ++ l)) :=
    fun l => List.perm_middle
  cases extras with
  | nil =>
    refine safe_perform_bind.mpr ⟨hkn .., fun a _ => ?_⟩
    rw [ledger_upd, List.nil_append, List.nil_append, upd_fellBack]
    exact ⟨hkn .., hno [primary]⟩
  | cons b rest =>
    rw [of_congr (hperm held) (hperm owed)]
    exact safe_bind.mpr
      (safe_hedge hk primary (b :: rest) fun lost' m => ⟨hk m m le_rfl .., hyes lost' m⟩)

end Hedged

theorem safe_proxyRequest {p : Settings} {inv : Ledger → Prop} {R : Happening → Prop}
    (hk : ∀ m n, n ≤ m → Keeps p inv m n 0) {group : List Backend} (r : Request) (primary : Backend)
    (hR : ∀ healthy : List Backend, R (.env .getHealthy healthy) → healthy ⊆ group) :
    Safe R (ledger p inv) (fun _ g => ∃ lost m, g = of (slot p) [] [] lost m m 0)
      (proxyRequest p group r primary) (of (slot p) [primary] [] [] 0 0 0) := by
  have hseq : ∀ lost, Safe R (ledger p inv) (fun _ g => ∃ lost m, g = of (slot p) [] [] lost m m 0)
      (sequential p group r primary) (of (slot p) [primary] [] lost 0 0 0) := fun lost =>
    safe_sequential (hk 0 0 le_rfl) r primary hR ⟨lost, 0, rfl⟩ fun b => ⟨b :: lost, 0, rfl⟩
  unfold proxyRequest
  split_ifs
  · refine safe_bind.mpr (safe_proxyRequestHedged hk primary (fun lost' m => ?_) fun lost' => ?_)
    · exact ⟨hk m m le_rfl .., lost' ++ [], m, rfl⟩
    · exact hseq (lost' ++ [])
  · exact hseq []

end ReverseProxyLb.Proxy

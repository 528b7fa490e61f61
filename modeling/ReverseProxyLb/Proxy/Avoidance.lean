import ReverseProxyLb.Proxy.Specs

/-! A request turns to its primary and to the backends that the balancer reports as healthy,
and to no other. -/
namespace ReverseProxyLb.Proxy
open Lib Ledger

/-- The balancer reports only backends in `S` as healthy. -/
def Listed (S : Backend → Prop) : Happening → Prop
  | .env .getHealthy healthy => ∀ b ∈ (show List Backend from healthy), S b
  | _ => True

/-- Nothing happens but to backends in `S`. -/
def Inside (S : Backend → Prop) : Happening → Prop
  | .env (.allow b) _ | .env (.recordSuccess b) _ | .env (.recordFailure b) _
  | .env (.observeOutcome b _) _ | .env (.observeLatency b) _ | .env (.incrConn b) _ | .env
    (.decrConn b) _
  | .env (.recordBackendRequest b) _ | .env (.proxyFor b) _ | .env (.serveHTTP _ b) _ | .fork b => S b
  | _ => True

instance (S : Backend → Prop) [DecidablePred S] : DecidablePred (Inside S) := fun e => by
  unfold Inside
  split <;> infer_instance

section Inside
variable {p : Settings} {S : Backend → Prop} {x : Backend} {α : Type}

theorem inside_quiet {prog : Act α} (h : Only Bookkeeping prog) :
    Confined (Listed S) (Inside S) (fun _ => True) prog := by
  refine Within.confined h fun e he => ?_
  cases e with
  | env o a => cases o <;> first | exact he.elim | trivial
  | fork | send | recv | timeout => exact he.elim

theorem inside_perform {o : Op} (h : ∀ a, Inside S (.env o a)) :
    Confined (Listed S) (Inside S) (fun _ => True) (Prog.perform o : Act (Ans o)) :=
  confined_perform h fun _ _ => trivial

theorem inside_admitted (hx : S x) : Confined (Listed S) (Inside S) (fun _ => True) (admitted p x) :=
  (within_admitted p fun _ => hx).confined fun _ h => h

theorem inside_available (hx : S x) : Confined (Listed S) (Inside S) (fun _ => True) (available p x) :=
  (within_available p (fun _ => trivial) fun _ => hx).confined fun _ h => h

theorem inside_recordCircuit (hx : S x) (cls : Class) :
    Confined (Listed S) (Inside S) (fun _ => True) (recordCircuit p x cls) :=
  (within_recordCircuit p (fun _ => hx) (fun _ => hx) cls).confined fun _ h => h

theorem inside_observeOutcome (hx : S x) (ok : Bool) :
    Confined (Listed S) (Inside S) (fun _ => True) (observeOutcome x ok) := inside_perform fun _ => hx

theorem inside_exchange (hx : S x) {w : Writer} (e : Happening) (h : Exchange w x e) : Inside S e := by
  cases e with
  | env o a =>
    cases o with
    | recordBackendRequest y | proxyFor y | observeLatency y =>
      obtain rfl : y = x := h
      exact hx
    | serveHTTP w' y =>
      obtain rfl : y = x := h.2
      exact hx
    | _ => first | exact h.elim | trivial
  | fork | send | recv | timeout => exact h.elim

theorem inside_doRequest (hx : S x) : Confined (Listed S) (Inside S) (fun _ => True) (doRequest p x) :=
  (exchange_doRequest p x).mono (fun _ h => h) (inside_exchange hx)

theorem inside_attemptLoop (hx : S x) (rounds attempt : ℕ) (last : Attempted) :
    Confined (Listed S) (Inside S) (fun _ => True) (attemptLoop p x rounds attempt last) := by
  induction rounds generalizing attempt last with
  | zero => trivial
  | succ rounds ih =>
    apply (inside_quiet (quiet_beforeRetry p attempt last.retryAfter)).bind
    intro go _
    split
    · apply (inside_doRequest hx).bind
      rintro ⟨err, cls, written, retryAfter⟩ _
      cases err with
      | none => trivial
      | some err =>
        apply (inside_quiet (quiet_count _)).bind
        intro _ _
        dsimp only
        split_ifs
        · trivial
        · trivial
        · exact ih (attempt + 1) _
    · trivial

theorem inside_attemptBackend (hx : S x) (r : Request) :
    Confined (Listed S) (Inside S) (fun _ => True) (attemptBackend p r x) :=
  (inside_perform (o := Op.decrConn x) fun _ => hx).deferring
    ((inside_quiet (quiet_count _)).bind fun _ _ => inside_attemptLoop hx _ _ _)

theorem inside_visit (hx : S x) (r : Request) (lastErr : Option UpstreamError) (blocked : Bool) :
    Confined (Listed S) (Inside S) (fun _ => True) (visit p r x lastErr blocked) := by
  refine fun _ _ => ⟨trivial, (inside_available hx).bind fun ok _ => ?_⟩
  split
  · apply (inside_attemptBackend hx r).bind
    rintro ⟨err, cls, written, retryAfter⟩ _
    refine (inside_observeOutcome hx _).bind fun _ _ => (inside_recordCircuit hx cls).bind fun _ _ =>
      ?_
    cases err with
    | none => trivial
    | some err =>
      dsimp only
      split_ifs
      · exact (inside_quiet (quiet_countError r)).bind fun _ _ => trivial
      · trivial
      · trivial
  · apply (inside_quiet (quiet_atCapacity x)).bind
    intro full _
    exact (inside_perform (o := Op.decrConn x) fun _ => hx).bind fun _ _ => trivial

theorem inside_giveUp (r : Request) (lastErr : Option UpstreamError) (blocked : Bool) :
    Confined (Listed S) (Inside S) (fun _ => True) (giveUp r lastErr blocked) := by
  have herror : ∀ code msg, Confined (Listed S) (Inside S) (fun _ => True) (httpError code msg) :=
    fun code msg => inside_perform fun _ => trivial
  apply (inside_quiet (quiet_countError r)).bind
  intro _ _
  split_ifs
  · exact herror _ _
  · exact (inside_quiet (quiet_count _)).bind fun _ _ => herror _ _
  · exact herror _ _

theorem inside_reserveUntried (tried healthy : List Backend) (hb : ∀ b ∈ healthy, S b) :
    Confined (Listed S) (Inside S) (fun next => ∀ x ∈ next, S x) (reserveUntried tried healthy) := by
  induction healthy with
  | nil => exact fun x hx => nomatch hx
  | cons y rest ih =>
    obtain ⟨hy, hrest⟩ := List.forall_mem_cons.mp hb
    unfold reserveUntried
    split_ifs
    · exact ih hrest
    · apply (inside_quiet (quiet_isFull y)).bind
      intro full _
      split
      · exact ih hrest
      · apply (inside_perform (o := Op.incrConn y) fun _ => hy).bind
        rintro - - x ⟨⟩
        exact hy

theorem inside_reserveAlternate (tried : List Backend) :
    Confined (Listed S) (Inside S) (fun next => ∀ x ∈ next, S x) (reserveAlternate tried) := by
  have hlist : Confined (Listed S) (Inside S) (fun healthy => ∀ b ∈ healthy, S b) getHealthy :=
    confined_perform (fun _ => trivial) fun _ h => h
  exact hlist.bind fun healthy hb => inside_reserveUntried tried healthy hb

theorem inside_failover (hx : S x) (r : Request) (fuel : ℕ) (tried : List Backend)
    (lastErr : Option UpstreamError) (blocked : Bool) :
    Confined (Listed S) (Inside S) (fun _ => True) (failover p r fuel x tried lastErr blocked) := by
  induction fuel generalizing x tried lastErr blocked with
  | zero => trivial
  | succ fuel ih =>
    apply (inside_visit hx r lastErr blocked).bind
    intro v _
    cases v with
    | done => trivial
    | stop lastErr => exact inside_giveUp r lastErr blocked
    | next lastErr blocked =>
      apply (inside_reserveAlternate (x :: tried)).bind
      intro next hnext
      cases next with
      | none => exact inside_giveUp r lastErr blocked
      | some y => exact ih (hnext y rfl) _ _ _

theorem inside_reserveHedges (primary : Backend) (n : ℤ) (out healthy : List Backend)
    (hout : ∀ b ∈ out, S b) (hb : ∀ b ∈ healthy, S b) :
    Confined (Listed S) (Inside S) (fun extras => ∀ b ∈ extras, S b)
      (reserveHedges p primary n out healthy) := by
  induction healthy generalizing out with
  | nil => exact hout
  | cons y rest ih =>
    obtain ⟨hy, hrest⟩ := List.forall_mem_cons.mp hb
    unfold reserveHedges
    split_ifs
    · exact hout
    · exact ih out hout hrest
    · apply (inside_quiet (quiet_isFull y)).bind
      intro full _
      split
      · exact ih out hout hrest
      · apply (inside_admitted hy).bind
        intro ok _
        split
        · apply (inside_perform (o := Op.incrConn y) fun _ => hy).bind
          intro _ _
          exact ih (out ++ [y]) (List.forall_mem_append.mpr ⟨hout, by simpa using hy⟩) hrest
        · exact ih out hout hrest

theorem inside_finishHedge (primary : Backend) (winner : Option HedgeResult) :
    Confined (Listed S) (Inside S) (fun _ => True) (finishHedge primary winner) := by
  cases winner with
  | none => exact fun _ _ => ⟨trivial, fun _ _ => ⟨trivial, trivial⟩⟩
  | some hr =>
    dsimp only [finishHedge]
    split
    · exact fun _ _ => ⟨trivial, fun _ _ => ⟨trivial, trivial⟩⟩
    · exact fun _ _ => ⟨trivial, trivial⟩

theorem inside_hedge (primary : Backend) (hx : S primary) (extras : List Backend)
    (hb : ∀ b ∈ extras, S b) :
    Confined (Listed S) (Inside S) (fun _ => True) (hedge primary extras) := by
  have hrelease : Confined (Listed S) (Inside S) (fun _ => True) (releaseAll extras) :=
    (within_releaseAll fun b hx _ => hb b hx).confined fun _ h => h
  refine ⟨hx, (confined_collect (fun _ => trivial) hb (fun _ => trivial) trivial _ _).bind
    fun race _ => ?_⟩
  apply (confined_drain (fun _ => trivial) race.pending race.winner).bind
  intro winner _
  dsimp only
  split
  · exact inside_finishHedge primary winner
  · refine fun _ _ => ⟨trivial, hrelease.bind fun _ _ => ?_⟩
    exact inside_finishHedge primary winner

theorem inside_proxyRequestHedged {primary : Backend} (hx : S primary) :
    Confined (Listed S) (Inside S) (fun _ => True) (proxyRequestHedged p primary) := by
  apply (inside_available hx).bind
  intro ok _
  split
  · have hextras : Confined (Listed S) (Inside S) (fun extras => ∀ b ∈ extras, S b)
        (reserveHedgeBackends p primary p.retryConfig.hedge.maxExtra) := by
      have hlist : Confined (Listed S) (Inside S) (fun healthy => ∀ b ∈ healthy, S b) getHealthy :=
        confined_perform (fun _ => trivial) fun _ h => h
      exact hlist.bind fun healthy hb => inside_reserveHedges primary _ [] healthy (by simp) hb
    apply hextras.bind
    intro extras hb
    split
    · exact fun _ _ => ⟨trivial, trivial⟩
    · exact (inside_hedge primary hx extras hb).bind fun _ _ => trivial
  · trivial

theorem inside_proxyRequest (group : List Backend) (r : Request) {primary : Backend} (hx : S primary) :
    Confined (Listed S) (Inside S) (fun _ => True) (proxyRequest p group r primary) := by
  have hseq : Confined (Listed S) (Inside S) (fun _ => True) (sequential p group r primary) :=
    inside_failover hx r _ [] none false
  unfold proxyRequest
  split
  · apply (inside_proxyRequestHedged hx).bind
    intro handled _
    split
    · trivial
    · exact hseq
  · exact hseq

theorem inside_doHedgeAttempt (hx : S x) :
    Confined (Listed S) (Inside S) (fun _ => True) (doHedgeAttempt x) :=
  (exchange_doHedgeAttempt x).mono (fun _ h => h) (inside_exchange hx)

theorem inside_hedgeAttempt (hx : S x) :
    Confined (Listed S) (Inside S) (fun _ => True) (hedgeAttempt p x) := by
  apply (inside_doHedgeAttempt hx).bind
  rintro ⟨res, code⟩ _
  refine (inside_observeOutcome hx _).bind fun _ _ => (inside_recordCircuit hx res.cls).bind fun _ _ =>
    ?_
  exact fun _ _ => ⟨hx, trivial, trivial⟩

end Inside

/-- The balancer does not report `b` as healthy. -/
def Unlisted (b : Backend) : Happening → Prop
  | .env .getHealthy healthy => b ∉ (show List Backend from healthy)
  | _ => True

/-- Nothing happens to `b`. -/
def Avoids (b : Backend) : Happening → Prop
  | .env (.allow b') _ | .env (.recordSuccess b') _ | .env (.recordFailure b') _
  | .env (.observeOutcome b' _) _ | .fork b' => b' ≠ b
  | _ => True

section Avoidance
variable {p : Settings} {b x : Backend} {α : Type}

theorem listed_of_unlisted (e : Happening) (h : Unlisted b e) : Listed (· ≠ b) e := by
  cases e with
  | env o a =>
    cases o with
    | getHealthy => exact fun x hx hxb => h (hxb ▸ hx)
    | _ => trivial
  | fork | send | recv | timeout => trivial

theorem unlisted_of_listed (e : Happening) (h : Listed (· ≠ b) e) : Unlisted b e := by
  cases e with
  | env o a =>
    cases o with
    | getHealthy => exact fun hb => h b hb rfl
    | _ => trivial
  | fork | send | recv | timeout => trivial

theorem avoids_of_inside (e : Happening) (h : Inside (· ≠ b) e) : Avoids b e := by
  cases e with
  | env o a => cases o <;> first | exact h | trivial
  | fork t => exact h
  | send | recv | timeout => trivial

theorem avoids_proxyRequest
    (group : List Backend) (r : Request) {primary : Backend} (hx : primary ≠ b) :
    Confined (Unlisted b) (Avoids b) (fun _ => True) (proxyRequest p group r primary) :=
  (inside_proxyRequest (S := (· ≠ b)) group r hx).mono listed_of_unlisted avoids_of_inside

theorem avoids_hedgeAttempt (hx : x ≠ b) :
    Confined (Unlisted b) (Avoids b) (fun _ => True) (hedgeAttempt p x) :=
  (inside_hedgeAttempt (S := (· ≠ b)) hx).mono listed_of_unlisted avoids_of_inside

end Avoidance
end ReverseProxyLb.Proxy

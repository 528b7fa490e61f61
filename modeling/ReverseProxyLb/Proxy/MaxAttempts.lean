import ReverseProxyLb.Proxy.Plays

/-! The failover loop turns to a backend once and makes the rounds of `attemptLoop` on it:
one more than `max_attempts` for a request that may be retried. -/
namespace ReverseProxyLb.Proxy
open Lib Pool

/-- An upstream attempt of the failover loop; those of the hedged path write to a recorder. -/
def isAttempt (b : Backend) : Happening → Bool
  | .env (.serveHTTP .client x) _ => x = b
  | _ => false

def attemptsOn (b : Backend) (s : Handlers) : ℕ := total (isAttempt b) s.log

def retries (p : Settings) : Bool := p.retryOn .connect || p.retryOn .timeout

/-- The most that `n` rounds come to. -/
def roundLimit (p : Settings) (n : ℕ) : ℕ := if retries p then n else min 1 n

def attemptLimit (p : Settings) (r : Request) : ℕ :=
  roundLimit p ((if isIdempotent r then p.retryConfig.maxAttempts else 0) + 1).toNat

def attempting (n : ℕ) : Discipline Op Ans Backend HedgeResult (Backend → ℕ) where
  upd made e := fun b => made b + if isAttempt b e then 1 else 0
  inv made := ∀ b, made b ≤ n

def NoAttempt (e : Happening) : Prop := ∀ b, isAttempt b e = false

section Count
variable {p : Settings} {r : Request} {b : Backend} {n N : ℕ} {made : Backend → ℕ}

theorem upd_noAttempt {e : Happening} (h : NoAttempt e) (made : Backend → ℕ) :
    (attempting N).upd made e = made := by
  funext b
  change made b + (if isAttempt b e then 1 else 0) = made b
  rw [h b]
  rfl

theorem aside_noAttempt {e : Happening} (h : Aside e) : NoAttempt e := by
  intro b
  cases e with
  | env o a =>
    cases o with
    | serveHTTP => exact h.elim
    | _ => rfl
  | _ => rfl

theorem attempting_quiet {α : Type} {prog : Act α} {E : Happening → Prop} {P : α → Prop}
    {Q : α → (Backend → ℕ) → Prop} (h : Confined (fun _ => True) E P prog)
    (hE : ∀ e, E e → NoAttempt e) (hi : (attempting N).inv made) (hq : ∀ a, P a → Q a made) :
    Ends (attempting N) Q prog made :=
  h.ends (fun e he => upd_noAttempt (hE e he) made) hi hq

/-- One more attempt on `b`. -/
def another (b : Backend) (made : Backend → ℕ) : Backend → ℕ :=
  fun x => made x + if b = x then 1 else 0

theorem upd_serveHTTP (b : Backend) (made : Backend → ℕ) (reply : Reply) :
    (attempting N).upd made (.env (.serveHTTP .client b) reply) = another b made := by
  funext x
  change made x + (if decide (b = x) = true then 1 else 0) = made x + if b = x then 1 else 0
  simp only [decide_eq_true_eq]

theorem another_le (hi : (attempting N).inv made) (hb : made b + 1 ≤ N) :
    (attempting N).inv (another b made) := by
  intro x
  unfold another
  split_ifs with hx
  · exact hx ▸ hb
  · exact hi x

theorem classifyError_cases (err : UpstreamError) :
    classifyError err = .connect ∨ classifyError err = .timeout := by
  unfold classifyError
  split_ifs <;> simp

theorem attempting_doRequest (hi : (attempting N).inv made) (hb : made b + 1 ≤ N) :
    Ends (attempting N) (fun res made' => (made' = made ∨ made' = another b made) ∧
      (res.err.isSome → res.cls = .connect ∨ res.cls = .timeout)) (doRequest p b) made := by
  have hi' := another_le hi hb
  refine ⟨hi, fun _ => ⟨hi, fun failed => ?_⟩⟩
  cases failed with
  | some err => exact ⟨hi, .inl rfl, fun _ => .inl rfl⟩
  | none =>
    refine ⟨hi, fun reply => ?_⟩
    change Ends _ _ _ ((attempting N).upd made (.env (.serveHTTP .client b) reply))
    rw [upd_serveHTTP]
    cases reply with
    | panicked wrote => exact hi'
    | served err wrote code retryAfter content =>
      refine ⟨hi', fun _ => ?_⟩
      cases err with
      | some err => exact ⟨hi', .inr rfl, fun _ => classifyError_cases err⟩
      | none =>
        by_cases hok : responseClass code = .ok
        · dsimp only [Prog.bind]
          rw [if_pos hok]
          exact ⟨hi', fun _ => ⟨hi', .inr rfl, fun h => absurd h Bool.false_ne_true⟩⟩
        · dsimp only [Prog.bind]
          rw [if_neg hok]
          exact ⟨hi', .inr rfl, fun h => absurd h Bool.false_ne_true⟩

theorem another_of_ne {x : Backend} (hx : x ≠ b) : another b made x = made x := by
  simp [another, hx.symm]

theorem attempting_attemptLoop (n attempt : ℕ) (last : Attempted) (hi : (attempting N).inv made)
    (hb : made b + roundLimit p n ≤ N) :
    Ends (attempting N) (fun _ made' => ∀ x ≠ b, made' x = made x) (attemptLoop p b n attempt last)
      made := by
  induction n generalizing attempt last made with
  | zero => exact ⟨hi, fun _ _ => rfl⟩
  | succ n ih =>
    apply ends_bind.mpr
    apply attempting_quiet ((pacing_beforeRetry p attempt last.retryAfter).confined fun _ => id) ?_ hi
    · intro go _
      cases go with
      | false => exact ⟨hi, fun _ _ => rfl⟩
      | true =>
        have hone : made b + 1 ≤ N := by
          unfold roundLimit at hb
          split_ifs at hb <;> omega
        apply ends_bind.mpr
        apply (attempting_doRequest hi hone).mono
        rintro res made' hi' ⟨hmade, hclass⟩
        have hothers : ∀ x ≠ b, made' x = made x := by
          intro x hx
          obtain rfl | rfl := hmade
          · rfl
          · exact another_of_ne hx
        cases herr : res.err with
        | none => exact ⟨hi', hothers⟩
        | some err =>
          refine ⟨hi', fun _ => ?_⟩
          dsimp only [Prog.bind]
          split_ifs with hwritten hretry
          · exact ⟨hi', hothers⟩
          · exact ⟨hi', hothers⟩
          · -- the loop goes on, so a failed attempt can be followed by another one
            have hretries : retries p = true := by
              obtain hc | hc := hclass (by rw [herr]; rfl) <;> rw [hc] at hretry <;> simp_all [retries]
            have hb' : made' b + roundLimit p n ≤ N := by
              simp only [roundLimit, hretries, if_true] at hb ⊢
              obtain rfl | rfl := hmade
              · omega
              · simp only [another, if_true]
                omega
            apply (ih (attempt + 1) res hi' hb').mono
            intro _ made'' _ h x hx
            rw [h x hx, hothers x hx]
    · intro e he b'
      cases e with
      | env o a =>
        cases o with
        | serveHTTP => exact he.elim
        | _ => rfl
      | _ => rfl

def attemptRounds (p : Settings) (r : Request) : Rounds p r (attempting (attemptLimit p r)) where
  between tried made := (∀ b, made b ≤ attemptLimit p r) ∧ ∀ b ∉ tried, made b = 0
  inv h := h.1
  aside _ he := upd_noAttempt (aside_noAttempt he) _
  skip h := ⟨h.1, fun b hb => h.2 b fun hin => hb (List.mem_cons_of_mem _ hin)⟩
  round := by
    intro b tried made hb h
    have hquiet : Within NoAttempt (decrConn b) := within_perform fun _ _ => rfl
    have hreport : ∀ res made', (attempting (attemptLimit p r)).inv made' →
        (∀ x ≠ b, made' x = made x) →
        Ends (attempting (attemptLimit p r)) (fun _ made'' => (∀ x, made'' x ≤ attemptLimit p r) ∧
          ∀ x ∉ b :: tried, made'' x = 0) (report p b res) made' := by
      intro res made' hi' hothers
      have hnone : Within NoAttempt (report p b res) :=
        (within_perform (o := Op.observeOutcome b _) fun _ _ => rfl).bind fun _ =>
          within_recordCircuit p (fun _ _ => rfl) (fun _ _ => rfl) _
      apply attempting_quiet (hnone.confined fun _ => id) (fun _ => id) hi'
      intro _ _
      refine ⟨hi', fun x hx => ?_⟩
      rw [hothers x (List.ne_of_not_mem_cons hx)]
      exact h.2 x (List.not_mem_of_not_mem_cons hx)
    apply Ends.deferring
    · intro g hi
      exact attempting_quiet (hquiet.confined fun _ => id) (fun _ => id) hi fun _ _ => trivial
    · refine ⟨h.1, fun _ => ?_⟩
      have hzero : made b + attemptLimit p r ≤ attemptLimit p r := by
        rw [h.2 b hb, zero_add]
      apply (attempting_attemptLoop _ 0 _ h.1 hzero).mono
      intro res made' hi' hothers
      exact attempting_quiet (hquiet.confined fun _ => id) (fun _ => id) hi' fun _ _ =>
        hreport res made' hi' hothers

theorem noAttempt_hedgeAttempt (p : Settings) (b : Backend) :
    Confined (fun _ => True) NoAttempt (fun _ => True) (hedgeAttempt p b) := by
  apply Confined.bind
    (confined_doHedgeAttempt b (fun _ _ => rfl) (fun _ _ => rfl) (fun _ _ => rfl) (fun _ _ => rfl)
    fun _ _ => rfl)
  intro res _
  refine fun _ _ => ⟨fun _ => rfl, ?_⟩
  apply Confined.bind
    ((within_recordCircuit p (fun _ _ => rfl) (fun _ _ => rfl) _).confined fun _ => id)
  intro _ _
  exact fun _ _ => ⟨fun _ => rfl, fun _ => rfl, trivial⟩

theorem ghost_attempting (s : Handlers) :
    s.ghost (attempting N).upd (fun _ => 0) = fun b => attemptsOn b s := by
  funext b
  unfold Pool.ghost attemptsOn
  have hfold : ∀ (log : List (Entry Op Ans Backend HedgeResult)) (made : Backend → ℕ),
      (log.map Prod.snd).foldl (attempting N).upd made b = made b + total (isAttempt b) log := by
    intro log
    induction log with
    | nil =>
      intro made
      rfl
    | cons x log ih =>
      intro made
      rw [List.map_cons, List.foldl_cons, ih, ← List.singleton_append, total_append, total_singleton,
        ← add_assoc]
      rfl
  rw [hfold, zero_add]

theorem attemptsOn_le {group : List Backend} {primary : Backend} {s : Handlers}
    (h : Reaches p group r primary s) (b : Backend) : attemptsOn b s ≤ attemptLimit p r := by
  obtain ⟨⟨ls, hrun⟩, -⟩ := h
  have hstart : (attemptRounds p r).between [] fun _ => 0 := ⟨fun _ => Nat.zero_le _, fun _ _ => rfl⟩
  have htrack := onTrack_run (fun g e he => upd_noAttempt he g) (noAttempt_hedgeAttempt p)
    ((attemptRounds p r).proxyRequest hstart group primary) hrun
  have hinv := htrack.main.inv
  rw [ghost_attempting] at hinv
  exact hinv b

end Count

section Play
variable {p : Settings} {r : Request} {b : Backend} {made : Backend → ℕ} {group : List Backend}

abbrev Made (group : List Backend) {α : Type} (made : Backend → ℕ) (prog : Act α) (made' : Backend → ℕ)
    (a : α) :
    Prop :=
  Played (attempting 0).upd group made prog made' a

theorem made_beforeRetry (p : Settings) (attempt : ℕ) (made : Backend → ℕ) :
    Made group made (beforeRetry p attempt 0) made true := by
  unfold beforeRetry
  split_ifs
  · exact .ret _ _
  · have hallow : Made group made (allowRetry p) made true := by
      unfold allowRetry
      split_ifs
      · exact .ret _ _
      · exact (plays_perform (o := Op.loadRetryCount) (0 : ℕ) trivial rfl).bind (.ret _ _)
    have hsleep : Made group made (sleepBackoff p attempt 0) made () := by
      have hcalculate : Made group made (calculateBackoff p attempt) made 0 := by
        unfold calculateBackoff
        split_ifs
        · exact .ret _ _
        · dsimp only
          split_ifs
          all_goals first
            | exact .ret _ _
            | exact .op (0 : ℤ) trivial rfl (.ret _ _)
      exact hcalculate.bind (.ret _ _)
    apply hallow.bind
    refine (plays_perform (o := Op.count .retryCount) () trivial rfl).bind ?_
    refine (plays_perform (o := Op.count .incrRetry) () trivial rfl).bind ?_
    exact hsleep.bind (.ret _ _)

theorem made_doRequest (p : Settings) (b : Backend) (made : Backend → ℕ) (err : UpstreamError) :
    Made group made (doRequest p b) (another b made)
      { err := some err, cls := classifyError err, written := false } := by
  refine (plays_perform (o := Op.recordBackendRequest b) () trivial rfl).bind ?_
  refine (plays_perform (o := Op.proxyFor b) none trivial rfl).bind ?_
  refine (plays_perform (o := Op.serveHTTP .client b) (.served (some err) false 0 0) trivial
    (congrArg some (upd_serveHTTP b made _))).bind ?_
  exact (plays_perform (o := Op.count (.backendLatency b)) () trivial rfl).bind (.ret _ _)

theorem made_attemptLoop {err : UpstreamError} (hretry : p.retryOn (classifyError err) = true)
    (group : List Backend) (b : Backend) (made : Backend → ℕ) (n attempt : ℕ) (last : Attempted)
    (hlast : last.retryAfter = 0) :
    ∃ res made', Made group made (attemptLoop p b n attempt last) made' res ∧ made' b = made b + n ∧
      res.written = false ∧ (last.err.isSome ∨ 0 < n → res.err.isSome) := by
  induction n generalizing attempt last made with
  | zero => exact ⟨_, made, .ret _ _, rfl, rfl, fun h => h.resolve_right (lt_irrefl 0)⟩
  | succ n ih =>
    obtain ⟨res, made', hplay, hmade, hwritten, herr⟩ := ih (another b made) (attempt + 1)
      { err := some err, cls := classifyError err, written := false } rfl
    refine ⟨res, made', ?_, ?_, hwritten, fun _ => herr (.inl rfl)⟩
    · unfold attemptLoop
      rw [hlast]
      apply (made_beforeRetry p attempt made).bind
      apply (made_doRequest p b made err).bind
      refine (plays_perform (o := Op.count (.backendError b)) () trivial rfl).bind ?_
      simp only [hretry, Bool.false_eq_true, if_false, Bool.not_true]
      exact hplay
    · rw [hmade]
      simp only [another, if_true]
      omega

theorem reaches_attempts {err : UpstreamError} (hretry : p.retryOn (classifyError err) = true)
    (hr : isIdempotent r = true) (hn : 0 < p.retryConfig.maxAttempts) (group : List Backend)
    (b : Backend) :
    ∃ s, Reaches p group r b s ∧ (attemptsOn b s : ℤ) = p.retryConfig.maxAttempts + 1 := by
  have hrounds := made_attemptLoop hretry group b (fun _ => 0) (p.retryConfig.maxAttempts + 1).toNat 0
    { err := none, cls := .empty, written := false } rfl
  obtain ⟨res, made', hloop, hmade, hwritten, herr⟩ := hrounds
  obtain ⟨last, hlast⟩ := Option.isSome_iff_exists.mp (herr (.inr (by omega)))
  have hattempt : Made group (fun _ => 0) (attemptBackend p r b) made' res := by
    have hdone : Made group made' (decrConn b) made' () :=
      played_perform (o := Op.decrConn b) () trivial rfl
    apply Plays.deferring _ hdone
    refine (played_perform (o := Op.count .retryReqs) () trivial rfl).bind ?_
    simp only [hr, if_true]
    exact hloop
  have hreport : Made group made' (report p b res) made' () := by
    refine (played_perform (o := Op.observeOutcome b _) () trivial rfl).bind ?_
    unfold recordCircuit
    split_ifs
    · exact played_perform (o := Op.recordFailure b) () trivial rfl
    · exact played_perform (o := Op.recordSuccess b) () trivial rfl
    · exact .ret _ _
  have haside : ∀ made e, Aside e → (attempting 0).upd made e = made :=
    fun made _ he => upd_noAttempt (aside_noAttempt he) made
  obtain ⟨s, hreach, hghost, -⟩ := (hattempt.proxyRequest haside hreport hlast hwritten).reaches
  rw [ghost_attempting] at hghost
  refine ⟨s, hreach, ?_⟩
  rw [congrFun hghost b, hmade]
  omega

end Play

/-- No backend gets more than one attempt more than `max_attempts`; no more than `max_attempts`,
exactly if the request is not to be retried, `max_attempts` is not positive, or no failure is
retried. -/
theorem max_attempts_bound_iff (p : Settings) (r : Request) :
    (∀ group primary s, Reaches p group r primary s →
      ∀ b, (attemptsOn b s : ℤ) ≤ max 1 (p.retryConfig.maxAttempts + 1)) ∧
    ((∀ group primary s, Reaches p group r primary s →
        ∀ b, (attemptsOn b s : ℤ) ≤ max 1 p.retryConfig.maxAttempts) ↔
      isIdempotent r = false ∨ p.retryConfig.maxAttempts ≤ 0 ∨
        (p.retryOn .connect = false ∧ p.retryOn .timeout = false)) := by
  have hlimit : ∀ group primary s, Reaches p group r primary s →
      ∀ b, attemptsOn b s ≤ attemptLimit p r :=
    fun _ _ _ h b => attemptsOn_le h b
  have hmost : (attemptLimit p r : ℤ) ≤ max 1 (p.retryConfig.maxAttempts + 1) := by
    unfold attemptLimit roundLimit
    split_ifs <;> omega
  constructor
  · intro group primary s h b
    exact (Int.ofNat_le.mpr (hlimit group primary s h b)).trans hmost
  · constructor
    · intro hbound
      by_contra hcond
      push Not at hcond
      obtain ⟨hr, hn, hclass⟩ := hcond
      have hr' : isIdempotent r = true := by simpa using hr
      obtain ⟨err, hretry⟩ : ∃ err, p.retryOn (classifyError err) = true := by
        by_cases hconnect : p.retryOn .connect = true
        · exact ⟨{ dial := true }, hconnect⟩
        · have htimeout : p.retryOn .timeout = true := by simpa using hclass (by simpa using hconnect)
          exact ⟨{ deadlineExceeded := true }, htimeout⟩
      obtain ⟨s, hreach, hmade⟩ := reaches_attempts hretry hr' hn [] { addr := 0 }
      have hle := hbound _ _ s hreach { addr := 0 }
      omega
    · intro hcond group primary s h b
      apply (Int.ofNat_le.mpr (hlimit group primary s h b)).trans
      unfold attemptLimit roundLimit retries
      obtain hr | hn | ⟨hconnect, htimeout⟩ := hcond
      · simp only [hr, Bool.false_eq_true, if_false]
        split_ifs <;> omega
      · split_ifs <;> omega
      · simp only [hconnect, htimeout, Bool.or_self, Bool.false_eq_true, if_false]
        omega

/-- With `max_attempts: 1` a request whose connection is refused is sent to the same backend
a second time. -/
theorem max_attempts_one_retries :
    let p : Settings := { retryConfig := { maxAttempts := 1 } }
    let b : Backend := { addr := 1 }
    ∃ s, Reaches p [b] { method := "GET" } b s ∧ attemptsOn b s = 2 := by
  intro p b
  let refused : List (Label Op Ans) :=
    [.main (.answer (.recordBackendRequest b) ()), .main (.answer (.proxyFor b) none),
      .main (.answer (.serveHTTP .client b) (.served (some { dial := true }) false 0 0)),
      .main (.answer (.count (.backendLatency b)) ()), .main (.answer (.count (.backendError b)) ())]
  let ls : List (Label Op Ans) :=
    [.main (.answer (.note (.visit b)) ()), .main (.answer (.count .retryReqs) ())] ++ refused ++
      [.main (.answer (.count .retryCount) ()), .main (.answer (.count .incrRetry) ()),
        .main (.answer (.int63n (Time.second + 1)) (0 : ℤ))] ++ refused
  have h : ∃ s ∈ exec (step (hedgeAttempt p)) { main := proxyRequest p [b] { method := "GET" } b } ls,
      (∀ x ∈ s.log, Grouped [b] x.2) ∧ attemptsOn b s = 2 := by decide +kernel
  obtain ⟨s, hs, hlog, hmade⟩ := h
  exact ⟨s, ⟨⟨ls, hs⟩, hlog⟩, hmade⟩

end ReverseProxyLb.Proxy
